/-
Module: SafRprGen.Netlist.Records
Layer: Netlist
Purpose: What `read_2nd` guarantees about the gate records: the type is one of `gate_types`, the number of
  inputs is the one that the type asks for, and there are at most ten. AND, NAND, OR and NOR gates take
  the number in the text, which may be 0.
Main exports: GateType.PinsOk, ReadRecord, readFile_records
-/
import SafRprGen.Lib.Related
import SafRprGen.Netlist.Connect
import SafRprGen.Netlist.Pins

namespace SafRprGen

open Related

/-- The numbers of inputs with which `read_2nd` accepts a gate. -/
def GateType.PinsOk : GateType → Nat → Prop
  | .BUF, k | .INV, k | .DFF, k => k = 1
  | .EXOR, k | .EXNOR, k | .RDFF, k => k = 2
  | .DFFS, k => k = 3
  | .RDFFS, k => k = 4
  | .AND, _ | .NAND, _ | .OR, _ | .NOR, _ => True
  | _, _ => False

/-- A record as `read_2nd` leaves it. -/
structure ReadRecord (r : GateRecord) : Prop where
  pins : r.type.PinsOk r.inName.length
  fanin : r.inName.length ≤ 10

/-- A record while its pins are read. -/
structure Formed (r : ModuleRecord) : Prop where
  pins : r.type.PinsOk r.inName.length
  named : ∀ i signal, r.inName[i]? = some (some signal) → i < 10

theorem lookup_mem {str : CStr} {type : GateType} {types : List (CStr × GateType)}
    (found : types.lookup str = some type) : (str, type) ∈ types := by
  induction types with
  | nil => cases found
  | cons entry types ih =>
      rw [List.lookup_cons] at found
      by_cases here : str == entry.1
      · rw [here] at found
        cases found
        rw [beq_iff_eq.mp here]
        exact List.mem_cons_self
      · rw [Bool.eq_false_iff.mpr here] at found
        exact List.mem_cons_of_mem _ (ih found)

theorem readModuleType_ok {str : CStr} {nIn : Int} {text : List Char} {type : GateType}
    (run : readModuleType str nIn text = .ok type) :
    (str, type) ∈ gateTypes ∧ ((type = .EXOR ∨ type = .EXNOR) → nIn = 2) := by
  unfold readModuleType at run
  cases found : gateTypes.lookup str with
  | none =>
      rw [found] at run
      cases run
  | some t =>
      rw [found] at run
      dsimp only at run
      by_cases two : (t = .EXOR ∨ t = .EXNOR) ∧ nIn ≠ 2
      · rw [if_pos two] at run
        split at run <;> cases run
      · rw [if_neg two] at run
        cases run
        refine ⟨lookup_mem found, fun exor => ?_⟩
        by_contra other
        exact two ⟨exor, other⟩

theorem readGateHead_formed {inNum : Int} {tok : Token} {r : ModuleRecord} {pins : List Char}
    (head : readGateHead inNum tok = .ok (r, pins)) : Formed r := by
  have fresh := (readGateHead_fresh head).1
  refine ⟨?_, fun i signal named => ?_⟩
  · rw [fresh.length]
    unfold readGateHead at head
    dsimp only at head
    split at head
    · cases head
    · rename_i type run
      split at head
      · cases head
      · cases head
        obtain ⟨mem, two⟩ := readModuleType_ok run
        dsimp only
        generalize tok.str = str at mem two ⊢
        simp only [gateTypes, List.mem_cons, Prod.mk.injEq, List.not_mem_nil, or_false] at mem
        rcases mem with ⟨rfl, rfl⟩ | ⟨rfl, rfl⟩ | ⟨rfl, rfl⟩ | ⟨rfl, rfl⟩ | ⟨rfl, rfl⟩ | ⟨rfl, rfl⟩ |
          ⟨rfl, rfl⟩ | ⟨rfl, rfl⟩ | ⟨rfl, rfl⟩ | ⟨rfl, rfl⟩ | ⟨rfl, rfl⟩ | ⟨rfl, rfl⟩
        case inr.inr.inr.inr.inr.inr.inl | inr.inr.inr.inr.inr.inr.inr.inl =>
          rw [two (by simp)]
          rfl
        all_goals trivial
  · rw [fresh.inName, List.getElem?_replicate] at named
    split at named <;> cases named

theorem pinIndex_lt {ch : Char} {i : Nat} (index : pinIndex ch = some i) : i < 10 := by
  unfold pinIndex at index
  dsimp only at index
  split at index
  · cases index
    assumption
  · cases index

theorem inputIndex_lt {type : GateType} {pin : CStr} {i : Nat} (index : inputIndex type pin = some i) :
    i < 10 := by
  unfold inputIndex at index
  split at index
  · cases index
    decide
  · split at index
    · split at index
      · cases index
        decide
      · split at index <;> cases index
        decide
    · split at index
      · split at index <;> cases index
        decide
      · split at index
        · split at index <;> cases index
          decide
        · obtain ⟨ch, -, isIndex⟩ := Option.bind_eq_some_iff.mp index
          exact pinIndex_lt isIndex

theorem setPin_formed {r r' : ModuleRecord} {pin signal : CStr} (formed : Formed r)
    (run : setPin r pin signal = .ok r') : Formed r' := by
  unfold setPin at run
  split at run
  · split at run
    · cases run
    · cases run
      exact ⟨formed.pins, formed.named⟩
  · split at run
    · cases run
      exact formed
    · cases index : inputIndex r.type pin with
      | none =>
          rw [index] at run
          cases run
      | some i =>
          rw [index, setInputPin] at run
          split at run
          · cases run
            refine ⟨?_, fun k signal' named => ?_⟩
            · rw [List.length_set]
              exact formed.pins
            · by_cases here : i = k
              · exact here ▸ inputIndex_lt index
              · rw [List.getElem?_set_ne here] at named
                exact formed.named k signal' named
          · cases run

theorem readPinStep_formed {s s' : PinState} (formed : Formed s.record)
    (next : readPinStep s = .ok (some s')) : Formed s'.record := by
  unfold readPinStep at next
  split at next
  · split at next
    · cases next
    · split at next
      · cases next
      · split at next
        · cases next
        · rename_i set
          cases next
          exact setPin_formed formed set
  · cases next

theorem readPin_formed {r r' : ModuleRecord} {pins rest : List Char} (formed : Formed r)
    (run : readPin r pins = .ok (r', rest)) : Formed r' := by
  have kept : ∀ s, Loop.Reaches readPinStep ⟨r, 0, pins⟩ s → Formed s.record := by
    intro s reached
    induction reached with
    | refl => exact formed
    | step _ next ih => exact readPinStep_formed ih next
  unfold readPin at run
  split at run
  · cases run
  · rename_i s loop
    split at run
    · cases run
    · cases run
      exact kept s (Loop.exceptLoop_ok loop).1

theorem read2ndStep_formed {nModule : Nat} {s s' : SecondState} (formed : ∀ r ∈ s.records, Formed r)
    (next : read2ndStep nModule s = .ok (some s')) : ∀ r ∈ s'.records, Formed r := by
  unfold read2ndStep at next
  split at next
  · cases next
  · cases next
  · rename_i tok inNum got
    split at next
    · cases skip : skipStatement tok.rest with
      | error e =>
          rw [skip] at next
          cases next
      | ok rest =>
          rw [skip] at next
          cases next
          exact formed
    · split at next
      · cases next
        exact formed
      · split at next
        · cases next
        obtain ⟨⟨r, pins⟩, head, next⟩ := Loop.bind_eq_ok.mp next
        obtain ⟨⟨r', text⟩, run, next⟩ := Loop.bind_eq_ok.mp next
        obtain ⟨rest, skip, next⟩ := Loop.bind_eq_ok.mp next
        cases next
        intro r'' mem
        rcases List.mem_append.mp mem with old | new
        · exact formed r'' old
        · rw [List.mem_singleton.mp new]
          exact readPin_formed (readGateHead_formed head) run

theorem read2nd_formed {nModule : Nat} {text : List Char} {modules : List ModuleRecord}
    (run : read2nd nModule text = .ok modules) : ∀ r ∈ modules, Formed r := by
  unfold read2nd at run
  cases loop : Loop.exceptLoop .undefined (read2ndStep nModule) (fuelFor text) ⟨0, [], text⟩ with
  | error e =>
      rw [loop] at run
      cases run
  | ok s =>
      rw [loop] at run
      cases run
      have reached := (Loop.exceptLoop_ok loop).1
      clear loop
      induction reached with
      | refl => exact fun r mem => absurd mem List.not_mem_nil
      | step _ next ih => exact read2ndStep_formed ih next

theorem mapM_id_eq {α : Type} {slots : List (Option α)} {entries : List α} :
    slots.mapM id = some entries ↔ slots = entries.map some := by
  rw [mapM_eq_some, ← List.forall₂_eq_eq_eq, List.forall₂_map_right_iff]
  rfl

/-- A formed record with all its pins. -/
theorem Formed.complete {r : ModuleRecord} {g : GateRecord} (formed : Formed r)
    (complete : r.complete = some g) : ReadRecord g := by
  obtain ⟨outName, -, complete⟩ := Option.bind_eq_some_iff.mp complete
  obtain ⟨inName, all, rfl⟩ := Option.map_eq_some_iff.mp complete
  have names := mapM_id_eq.mp all
  have length : r.inName.length = inName.length := by rw [names, List.length_map]
  refine ⟨length ▸ formed.pins, ?_⟩
  by_contra more
  have high : 10 < inName.length := Nat.lt_of_not_le more
  have eleventh : r.inName[10]? = some (some inName[10]) := by
    rw [names, List.getElem?_map, List.getElem?_eq_getElem high]
    rfl
  exact absurd (formed.named 10 _ eleventh) (lt_irrefl 10)

/-- The records of an accepted text. -/
theorem readFile_records {text : List Char} {a : Accepted} (run : readFile text = .ok a) :
    ∀ r ∈ a.records, ReadRecord r := by
  unfold readFile at run
  split at run
  · cases run
  · split at run
    · cases run
    · rename_i modules second
      split at run
      · cases run
      · rename_i records complete
        have all : ∀ r ∈ records, ReadRecord r := by
          intro r mem
          have pairs := mapM_eq_some.mp complete
          obtain ⟨m, isModule, isRecord⟩ := forall₂_exists_left pairs mem
          exact (read2nd_formed second m isModule).complete isRecord
        split at run
        · cases run
        · dsimp only at run
          split at run
          · cases run
          · split at run
            · cases run
            · split at run
              · cases run
              · cases run
                exact all

end SafRprGen
