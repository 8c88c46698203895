/-
Module: SafRprGen.Netlist.GateText
Layer: Netlist
Purpose: Gates as a netlist file writes them: the cell with its number, the name, and the pins in any order
  with clocks among them. `read_pin` connects each pin with its signal, and the passes of `read_2nd` and of
  the other readers take the gate up to its `;`.
Main exports: Word, Gap, PinText, PinsOf, readPin_pins, GateText, GateText.WellFormed.read2ndStep
-/
import SafRprGen.Netlist.Records

namespace SafRprGen

open CText

/-! ### Words -/

/-- A word of a file: bytes that `get_token` takes as one token. -/
structure Word (delimiter : Char → Bool) (word : CStr) : Prop where
  nonempty : word ≠ []
  solid : ∀ ch ∈ word, delimiter ch = false
  bytes : ∀ ch ∈ word, ch ≠ Char.ofNat 0
  short : word.length < strMax

/-- What may stand between two words of a gate. -/
def Gap (gap : List Char) : Prop := ∀ ch ∈ gap, delimiter0 ch = true ∧ ch ≠ ';'

/-- A delimiter that blanks may follow, between two names of a declaration. -/
def Separator (gap : List Char) : Prop :=
  ∃ ch blanks, gap = ch :: blanks ∧ delimiter0 ch = true ∧ ch ≠ ';' ∧ ∀ ch ∈ blanks, blank ch = true

theorem delimiter0_of_blank {ch : Char} (isBlank : blank ch = true) : delimiter0 ch = true := by
  unfold blank at isBlank
  simp only [Bool.or_eq_true, decide_eq_true_eq] at isBlank
  rcases isBlank with (rfl | rfl) | rfl <;> rfl

theorem delimiter1_of_delimiter0 {ch : Char} (delim : delimiter0 ch = true) : delimiter1 ch = true := by
  unfold delimiter1
  rw [delim, Bool.true_or, Bool.true_or]

theorem Word.mode0 {word : CStr} (h : Word delimiter1 word) : Word delimiter0 word where
  nonempty := h.nonempty
  solid := by
    intro ch mem
    have solid := h.solid ch mem
    unfold delimiter1 at solid
    simp only [Bool.or_eq_false_iff] at solid
    exact solid.1.1
  bytes := h.bytes
  short := h.short

theorem dropWhile_blanks {blanks text : List Char} (isBlank : ∀ ch ∈ blanks, blank ch = true) :
    (blanks ++ text).dropWhile blank = text.dropWhile blank := by
  rw [List.dropWhile_append, List.dropWhile_eq_nil_iff.mpr isBlank]
  rfl

/-- A token: the letters up to a delimiter; without letters the delimiter is no blank. -/
theorem getToken_word {delimiter : Char → Bool} (blanks : ∀ ch, blank ch = true → delimiter ch = true)
    {before word : List Char} {stop : Char} {rest : List Char} (isBlank : ∀ ch ∈ before, blank ch = true)
    (solid : ∀ ch ∈ word, delimiter ch = false) (bytes : ∀ ch ∈ word, ch ≠ Char.ofNat 0)
    (short : word.length < strMax) (stops : delimiter stop = true)
    (visible : word = [] → blank stop = false) :
    getToken delimiter (before ++ (word ++ stop :: rest)) =
      .ok (some ⟨word, tokenCode word (some stop), rest⟩) := by
  have body : (before ++ (word ++ stop :: rest)).dropWhile blank = word ++ stop :: rest := by
    rw [dropWhile_blanks isBlank]
    cases word with
    | nil => rw [List.nil_append, List.dropWhile_cons_of_neg (by simp [visible rfl])]
    | cons ch word =>
        apply List.dropWhile_cons_of_neg
        intro isBlank
        have := blanks ch isBlank
        rw [solid ch List.mem_cons_self] at this
        cases this
  have letters : (word ++ stop :: rest).takeWhile (fun ch => !delimiter ch) = word := by
    rw [List.takeWhile_append_of_pos (by simpa using solid), List.takeWhile_cons_of_neg (by simp [stops]),
      List.append_nil]
  have all : word.takeWhile (· != Char.ofNat 0) = word :=
    List.takeWhile_eq_self_iff.mpr fun ch mem => by simpa using bytes ch mem
  unfold getToken
  dsimp only
  rw [body, letters, if_neg (by simp), if_neg (Nat.not_le.mpr short), List.drop_left, all]
  rfl

theorem tokenCode_word {word : CStr} (nonempty : word ≠ []) (bytes : ∀ ch ∈ word, ch ≠ Char.ofNat 0)
    (stop : Char) : tokenCode word (some stop) = if stop = ';' then 1 else 0 := by
  have all : word.takeWhile (· != Char.ofNat 0) = word :=
    List.takeWhile_eq_self_iff.mpr fun ch mem => by simpa using bytes ch mem
  have isEmpty : word.isEmpty = false := List.isEmpty_eq_false_iff.mpr nonempty
  unfold tokenCode
  rw [all, isEmpty]
  by_cases here : stop = ';'
  · rw [if_pos (congrArg _ here), if_pos here, if_neg Bool.false_ne_true]
  · rw [if_neg (fun h => here (Option.some.inj h)), if_neg here, if_neg Bool.false_ne_true]

theorem Word.token {delimiter : Char → Bool} {word : CStr} (h : Word delimiter word)
    (blanks : ∀ ch, blank ch = true → delimiter ch = true) {before : List Char}
    (isBlank : ∀ ch ∈ before, blank ch = true) {stop : Char} (stops : delimiter stop = true)
    (rest : List Char) : getToken delimiter (before ++ (word ++ stop :: rest)) =
      .ok (some ⟨word, if stop = ';' then 1 else 0, rest⟩) := by
  rw [getToken_word blanks isBlank h.solid h.bytes h.short stops fun empty => absurd empty h.nonempty,
    tokenCode_word h.nonempty h.bytes]

/-- The next word stands behind a gap. -/
theorem nextWord_word {word : CStr} (h : Word delimiter0 word) {stop : Char} (stops : delimiter0 stop = true)
    (other : stop ≠ ';') (rest : List Char) {gap : List Char} (isGap : Gap gap) :
    nextWord (gap ++ (word ++ stop :: rest)) = .ok ⟨word, 0, rest⟩ := by
  have general : ∀ (gap before : List Char), Gap gap → (∀ ch ∈ before, blank ch = true) →
      nextWord (before ++ (gap ++ (word ++ stop :: rest))) = .ok ⟨word, 0, rest⟩ := by
    intro gap
    induction gap with
    | nil =>
        intro before isGap isBlank
        rw [List.nil_append, nextWord_eq, statementToken,
          h.token (fun ch => delimiter0_of_blank) isBlank stops, if_neg other]
        rfl
    | cons ch gap ih =>
        intro before isGap isBlank
        have later : Gap gap := fun ch mem => isGap ch (List.mem_cons_of_mem _ mem)
        by_cases here : blank ch = true
        · have longer := ih (before ++ [ch]) later (by
            intro ch' mem
            rcases List.mem_append.mp mem with mem | mem
            · exact isBlank ch' mem
            · rw [List.mem_singleton.mp mem]
              exact here)
          rwa [List.append_assoc] at longer
        · -- a delimiter that is no blank is an empty token
          obtain ⟨delim, plain⟩ := isGap ch List.mem_cons_self
          have empty := @getToken_word delimiter0 (fun ch => delimiter0_of_blank) before [] ch
            (gap ++ (word ++ stop :: rest)) isBlank (fun ch mem => (by cases mem))
            (fun ch mem => (by cases mem))
            (by decide) delim fun _ => Bool.eq_false_iff.mpr here
          have code : tokenCode [] (some ch) = -2 := by
            unfold tokenCode
            rw [if_neg fun h => plain (Option.some.inj h)]
            rfl
          rw [code] at empty
          rw [nextWord_eq, statementToken, List.cons_append, ← List.nil_append (ch :: _), empty]
          dsimp only
          rw [if_neg (by decide)]
          exact ih [] later fun ch mem => (by cases mem)
  exact general gap [] isGap fun ch mem => (by cases mem)

theorem skipStatement_append {taken : List Char} (none : ';' ∉ taken) (rest : List Char) :
    skipStatement (taken ++ ';' :: rest) = .ok rest := by
  induction taken with
  | nil => rfl
  | cons ch taken ih =>
      rw [List.mem_cons, not_or] at none
      rw [List.cons_append, skipStatement, if_neg (Ne.symm none.1)]
      exact ih none.2

theorem Gap.plain {gap : List Char} (isGap : Gap gap) : ';' ∉ gap := fun mem => (isGap _ mem).2 rfl

theorem Word.plain {delimiter : Char → Bool} {word : CStr} (h : Word delimiter word)
    (ends : delimiter ';' = true) : ';' ∉ word := by
  intro mem
  rw [h.solid _ mem] at ends
  cases ends

theorem delimiter1_cases {ch : Char} (delim : delimiter1 ch = true) : ch.isAlpha = false ∧
    ch.isDigit = false ∧
    ch ≠ Char.ofNat 0 := by
  unfold delimiter1 delimiter0 at delim
  simp only [Bool.or_eq_true, decide_eq_true_eq, List.mem_cons, List.not_mem_nil, or_false] at delim
  rcases delim with ((rfl | rfl | rfl | rfl | rfl | rfl | rfl | rfl | rfl | rfl) | rfl) | rfl <;> decide

/-- Letters and digits are a word. -/
theorem Word.of_alnum {word : CStr} (nonempty : word ≠ [])
    (plain : ∀ ch ∈ word, ch.isAlpha = true ∨ ch.isDigit = true) (short : word.length < strMax) :
    Word delimiter1 word := by
  refine ⟨nonempty, fun ch mem => ?_, fun ch mem => ?_, short⟩
  · by_contra delim
    obtain ⟨noLetter, noDigit, -⟩ := delimiter1_cases (Bool.not_eq_false _ ▸ delim)
    rcases plain ch mem with is | is
    · rw [noLetter] at is
      cases is
    · rw [noDigit] at is
      cases is
  · rintro rfl
    rcases plain _ mem with is | is <;> cases is

/-- Letters in front of something else are what mode 2 takes first. -/
theorem letters_front {word : CStr} (nonempty : word ≠ []) (letters : ∀ ch ∈ word, ch.isAlpha = true)
    {before : List Char} (isBlank : ∀ ch ∈ before, blank ch = true) {stop : Char}
    (stops : stop.isAlpha = false)
    (rest : List Char) : (before ++ (word ++ stop :: rest)).dropWhile blank = word ++ stop :: rest ∧
      (word ++ stop :: rest).takeWhile Char.isAlpha = word := by
  refine ⟨?_, ?_⟩
  · rw [dropWhile_blanks isBlank]
    cases word with
    | nil => exact absurd rfl nonempty
    | cons ch word =>
        apply List.dropWhile_cons_of_neg
        intro is
        have none := (delimiter1_cases (delimiter1_of_delimiter0 (delimiter0_of_blank is))).1
        rw [letters ch List.mem_cons_self] at none
        cases none
  · rw [List.takeWhile_append_of_pos letters, List.takeWhile_cons_of_neg (by rw [stops]; decide),
      List.append_nil]

/-! ### The pins of a gate -/

/-- A pin with its signal: what stands between them and behind. -/
structure PinText where
  pin : CStr
  inner : List Char
  signal : CStr
  outer : List Char
deriving DecidableEq

def PinText.text (p : PinText) : List Char := p.pin ++ (p.inner ++ (p.signal ++ p.outer))

structure PinText.WellFormed (p : PinText) : Prop where
  pin : Word delimiter0 p.pin
  inner : Gap p.inner ∧ p.inner ≠ []
  signal : Word delimiter0 p.signal
  outer : Gap p.outer ∧ p.outer ≠ []

/-- Where a pin leads: to the output, to an input, or nowhere. -/
def pinPlace (type : GateType) (pin : CStr) : Option (Option Nat) :=
  if isOutputPin pin then some none else (inputIndex type pin).map some

/-- The signal at the output or at an input. -/
def GateRecord.signal (r : GateRecord) : Option Nat → Option CStr
  | none => some r.outName
  | some i => r.inName[i]?

/-- The pins that are no clocks. -/
def dataPins (pins : List PinText) : List PinText := pins.filter fun p => !isClockPin p.pin

/-- The pins are those of the gate, each once. -/
structure PinsOf (r : GateRecord) (pins : List PinText) : Prop where
  wellFormed : ∀ p ∈ pins, p.WellFormed
  connected : ∀ p ∈ dataPins pins, (pinPlace r.type p.pin).bind r.signal = some p.signal
  once : ((dataPins pins).map fun p => pinPlace r.type p.pin).Nodup
  all : (dataPins pins).length = r.inName.length + 1

/-- The record while these places are connected. -/
def GateRecord.part (r : GateRecord) (done : List (Option Nat)) : ModuleRecord where
  nameIns := r.nameIns
  type := r.type
  nIn := r.inName.length
  outName := if none ∈ done then some r.outName else none
  inName := r.inName.mapIdx fun i word => if some i ∈ done then some word else none

theorem setPin_part {r : GateRecord} {done : List (Option Nat)} {pin signal : CStr} {place : Option Nat}
    (data : isClockPin pin = false) (isPlace : pinPlace r.type pin = some place) (free : place ∉ done)
    (isSignal : r.signal place = some signal) : setPin (r.part done) pin signal =
      .ok (r.part (place :: done)) := by
  unfold pinPlace at isPlace
  unfold setPin
  by_cases output : isOutputPin pin = true
  · rw [if_pos output] at isPlace ⊢
    cases isPlace
    cases isSignal
    simp [GateRecord.part, free]
  · rw [if_neg output] at isPlace
    obtain ⟨i, index, rfl⟩ := Option.map_eq_some_iff.mp isPlace
    have isInput : r.inName[i]? = some signal := isSignal
    have open' : (r.part done).inName[i]? = some none := by
      simp [GateRecord.part, isInput, free]
    rw [if_neg output, data, if_neg Bool.false_ne_true]
    have type : (r.part done).type = r.type := rfl
    rw [type, index, setInputPin]
    rw [if_pos open']
    have inputs : (r.part done).inName.set i (some signal) = (r.part (some i :: done)).inName := by
      refine List.ext_getElem? fun k => ?_
      by_cases here : i = k
      · subst here
        rw [List.getElem?_set_self (List.getElem?_eq_some_iff.mp open').1]
        simp [GateRecord.part, isInput]
      · rw [List.getElem?_set_ne here]
        simp [GateRecord.part, Ne.symm here]
    rw [inputs]
    simp [GateRecord.part]

theorem PinText.WellFormed.plain {p : PinText} (h : p.WellFormed) : ';' ∉ p.text := by
  unfold PinText.text
  rw [List.mem_append, List.mem_append, List.mem_append, not_or, not_or, not_or]
  exact ⟨h.pin.plain (by decide), h.inner.1.plain, h.signal.plain (by decide), h.outer.1.plain⟩

theorem pins_plain {pins : List PinText} (wellFormed : ∀ p ∈ pins, p.WellFormed) :
    ';' ∉ pins.flatMap PinText.text := by
  intro mem
  obtain ⟨p, isPin, mem⟩ := List.mem_flatMap.mp mem
  exact (wellFormed p isPin).plain mem

/-- The words of a pin and its signal. -/
theorem PinText.WellFormed.words {p : PinText} (h : p.WellFormed) {lead : List Char} (isGap : Gap lead)
    (more : List Char) : ∃ behind, Gap behind ∧
      ∃ pin, nextWord (lead ++ (p.text ++ more)) = .ok pin ∧ pin.str = p.pin ∧
        nextWord pin.rest = .ok ⟨p.signal, 0, behind ++ more⟩ := by
  obtain ⟨pin, inner, signal, outer⟩ := p
  obtain ⟨isPin, ⟨innerGap, someInner⟩, isSignal, outerGap, someOuter⟩ := h
  cases inner with
  | nil => exact absurd rfl someInner
  | cons a inner =>
      cases outer with
      | nil => exact absurd rfl someOuter
      | cons b outer =>
          obtain ⟨delimA, plainA⟩ := innerGap a List.mem_cons_self
          obtain ⟨delimB, plainB⟩ := outerGap b List.mem_cons_self
          have text : PinText.text ⟨pin, a :: inner, signal, b :: outer⟩ ++ more =
              pin ++ a :: (inner ++ (signal ++ b :: (outer ++ more))) := by
            simp [PinText.text]
          refine ⟨outer, fun ch mem => outerGap ch (List.mem_cons_of_mem _ mem), ⟨pin, 0, _⟩, ?_, rfl,
            nextWord_word isSignal delimB plainB (outer ++ more) fun ch mem =>
              innerGap ch (List.mem_cons_of_mem _ mem)⟩
          rw [text]
          exact nextWord_word isPin delimA plainA _ isGap

/-- The loop of `read_pin` ends in front of the clocks that are left. -/
theorem readPinStep_last {r : GateRecord} {pins : List PinText} (wellFormed : ∀ p ∈ pins, p.WellFormed)
    (clocks : dataPins pins = []) (done : List (Option Nat)) {i : Int}
    (count : i + (dataPins pins).length = r.inName.length + 1) {lead : List Char} (isGap : Gap lead)
    (rest : List Char) :
    readPinStep ⟨r.part done, i, (lead ++ pins.flatMap PinText.text) ++ ';' :: rest⟩ = .ok none ∧
      ';' ∉ lead ++ pins.flatMap PinText.text := by
  rw [clocks, List.length_nil] at count
  have nIn : (r.part done).nIn = r.inName.length := rfl
  refine ⟨?_, ?_⟩
  · apply readPinStep_exit
    dsimp only
    rw [nIn]
    omega
  · rw [List.mem_append, not_or]
    exact ⟨isGap.plain, pins_plain wellFormed⟩

/-- A pass over a pin. -/
theorem readPinStep_pin {p : PinText} (isPin : p.WellFormed) {m m' : ModuleRecord} {i : Int}
    (more : i < m.nIn + 1)
    (set : setPin m p.pin p.signal = .ok m') {lead : List Char} (isGap : Gap lead) (rest : List Char) :
    ∃ behind, Gap behind ∧ readPinStep ⟨m, i, lead ++ (p.text ++ rest)⟩ =
      .ok (some ⟨m', if isClockPin p.pin then i else i + 1, behind ++ rest⟩) := by
  obtain ⟨behind, isBehind, pin, first, str, second⟩ := isPin.words isGap rest
  refine ⟨behind, isBehind, ?_⟩
  rw [← str] at set ⊢
  exact readPinStep_next more first second set

/-- The loop of `read_pin` connects the pins that are no clocks; clocks behind the last of them it leaves. -/
theorem readPin_reaches {r : GateRecord} (rest : List Char) : ∀ (pins : List PinText)
    (done : List (Option Nat)) (i : Int) (lead : List Char), (∀ p ∈ pins, p.WellFormed) →
    (∀ p ∈ dataPins pins, (pinPlace r.type p.pin).bind r.signal = some p.signal) →
    ((dataPins pins).map (fun p => pinPlace r.type p.pin) ++ done.map some).Nodup →
    i + (dataPins pins).length = r.inName.length + 1 → Gap lead →
    ∃ i' done' left, Loop.Reaches readPinStep
        ⟨r.part done, i, lead ++ (pins.flatMap PinText.text ++ ';' :: rest)⟩
        ⟨r.part done', i', left ++ ';' :: rest⟩ ∧
      readPinStep ⟨r.part done', i', left ++ ';' :: rest⟩ = .ok none ∧ ';' ∉ left ∧ done ⊆ done' ∧
        ∀ p ∈ dataPins pins, ∀ place, pinPlace r.type p.pin = some place → place ∈ done' := by
  intro pins
  induction pins with
  | nil =>
      intro done i lead wellFormed _ _ count isGap
      obtain ⟨ends, plain⟩ := readPinStep_last wellFormed rfl done count isGap rest
      refine ⟨i, done, lead ++ [].flatMap PinText.text, ?_, ends, plain, fun _ mem => mem,
        fun p mem => (by cases mem)⟩
      rw [List.append_assoc]
      exact .refl
  | cons p pins ih =>
      intro done i lead wellFormed connected once count isGap
      by_cases last : dataPins (p :: pins) = []
      · obtain ⟨ends, plain⟩ := readPinStep_last wellFormed last done count isGap rest
        refine ⟨i, done, lead ++ (p :: pins).flatMap PinText.text, ?_, ends, plain, fun _ mem => mem,
          fun q mem => ?_⟩
        · rw [List.append_assoc]
          exact .refl
        · rw [last] at mem
          cases mem
      · have isPin := wellFormed p List.mem_cons_self
        have later : ∀ q ∈ pins, q.WellFormed := fun q mem => wellFormed q (List.mem_cons_of_mem _ mem)
        have more : i < (r.part done).nIn + 1 := by
          have nonempty : 0 < (dataPins (p :: pins)).length := List.length_pos_iff.mpr last
          have nIn : (r.part done).nIn = r.inName.length := rfl
          rw [nIn]
          omega
        rw [List.flatMap_cons, List.append_assoc]
        by_cases clock : isClockPin p.pin = true
        · have data : dataPins (p :: pins) = dataPins pins :=
            List.filter_cons_of_neg (by simpa using clock)
          rw [data] at connected once count ⊢
          obtain ⟨behind, isBehind, next⟩ := readPinStep_pin isPin more (setPin_clock clock _ _) isGap
            (pins.flatMap PinText.text ++ ';' :: rest)
          rw [if_pos clock] at next
          obtain ⟨i', done', left, reached, found⟩ := ih done i behind later connected once count isBehind
          exact ⟨i', done', left, .head next reached, found⟩
        · have other : isClockPin p.pin = false := Bool.eq_false_iff.mpr clock
          have data : dataPins (p :: pins) = p :: dataPins pins :=
            List.filter_cons_of_pos (by simpa using other)
          rw [data] at connected once count ⊢
          obtain ⟨place, isPlace, isSignal⟩ := Option.bind_eq_some_iff.mp (connected p List.mem_cons_self)
          rw [List.map_cons, List.cons_append, List.nodup_cons, isPlace, List.mem_append, not_or] at once
          have free : place ∉ done := fun mem => once.1.2 (List.mem_map_of_mem mem)
          obtain ⟨behind, isBehind, next⟩ :=
            readPinStep_pin isPin more (setPin_part other isPlace free isSignal)
            isGap (pins.flatMap PinText.text ++ ';' :: rest)
          rw [if_neg clock] at next
          have once' : ((dataPins pins).map (fun p => pinPlace r.type p.pin) ++
              (place :: done).map some).Nodup := by
            rw [List.map_cons]
            exact List.nodup_middle.mpr (List.nodup_cons.mpr ⟨by
              rw [List.mem_append, not_or]
              exact once.1, once.2⟩)
          obtain ⟨i', done', left, reached, ends, plain, kept, found⟩ :=
            ih (place :: done) (i + 1) behind later
            (fun q mem => connected q (List.mem_cons_of_mem _ mem)) once'
            (by rw [List.length_cons] at count; push_cast at count ⊢; omega) isBehind
          refine ⟨i', done', left, .head next reached, ends, plain,
            fun slot mem => kept (List.mem_cons_of_mem _ mem), fun q mem slot isSlot => ?_⟩
          rcases List.mem_cons.mp mem with rfl | mem
          · rw [isPlace] at isSlot
            cases isSlot
            exact kept List.mem_cons_self
          · exact found q mem slot isSlot

/-- With every place connected all inputs are named. -/
theorem part_inName {r : GateRecord} {done : List (Option Nat)}
    (all : ∀ place, (r.signal place).isSome = true → place ∈ done) :
    (r.part done).inName = r.inName.map some := by
  refine List.ext_getElem? fun i => ?_
  unfold GateRecord.part
  rw [List.getElem?_mapIdx, List.getElem?_map]
  cases isInput : r.inName[i]? with
  | none => rfl
  | some word =>
      have mem := all (some i) (by rw [GateRecord.signal, isInput]; rfl)
      simp [mem]

/-- The output and the inputs. -/
def GateRecord.places (r : GateRecord) : List (Option (Option Nat)) :=
  (none :: (List.range r.inName.length).map some).map some

theorem GateRecord.mem_places {r : GateRecord} {place : Option Nat}
    (isSome : (r.signal place).isSome = true) :
    some place ∈ r.places := by
  apply List.mem_map_of_mem
  cases place with
  | none => exact List.mem_cons_self
  | some i =>
      refine List.mem_cons_of_mem _ (List.mem_map_of_mem (List.mem_range.mpr ?_))
      obtain ⟨word, isInput⟩ := Option.isSome_iff_exists.mp isSome
      exact (List.getElem?_eq_some_iff.mp isInput).1

/-- The record with all pins. -/
def GateRecord.whole (r : GateRecord) : ModuleRecord :=
  ⟨r.nameIns, r.type, r.inName.length, some r.outName, r.inName.map some⟩

theorem GateRecord.complete_whole (r : GateRecord) : r.whole.complete = some r := by
  rw [ModuleRecord.complete, whole, mapM_id_eq.mpr rfl]
  rfl

/-- `read_pin` connects every pin with its signal and stops in front of the `;`. -/
theorem readPin_pins {r : GateRecord} {pins : List PinText} (h : PinsOf r pins) {lead : List Char}
    (isGap : Gap lead) (rest : List Char) : ∃ left, ';' ∉ left ∧
      readPin (r.part []) (lead ++ (pins.flatMap PinText.text ++ ';' :: rest)) =
        .ok (r.whole, left ++ ';' :: rest) := by
  obtain ⟨i, done, left, reached, ends, plain, -, found⟩ := readPin_reaches rest pins [] 0 lead h.wellFormed
    h.connected (by simpa using h.once) (by have := h.all; push_cast [this]; omega) isGap
  -- as many places as pins, so every place has its pin
  have valid : (dataPins pins).map (fun p => pinPlace r.type p.pin) ⊆ r.places := by
    intro place mem
    obtain ⟨p, isPin, rfl⟩ := List.mem_map.mp mem
    obtain ⟨slot, isPlace, isSignal⟩ := Option.bind_eq_some_iff.mp (h.connected p isPin)
    rw [isPlace]
    exact r.mem_places (by rw [isSignal]; rfl)
  have perm := (List.subperm_of_subset h.once valid).perm_of_length_le (by
    rw [GateRecord.places, List.length_map, List.length_map, List.length_cons, List.length_map,
      List.length_range, h.all])
  have all : ∀ place, (r.signal place).isSome = true → place ∈ done := by
    intro place isSome
    obtain ⟨p, isPin, isPlace⟩ := List.mem_map.mp (perm.mem_iff.mpr (r.mem_places isSome))
    exact found p isPin place isPlace
  have output : (r.part done).outName = some r.outName := if_pos (all none rfl)
  have whole : r.part done = r.whole := by
    rw [GateRecord.whole, ← part_inName all, ← output]
    rfl
  rw [whole] at reached ends
  have loop :
      Loop.exceptLoop .undefined readPinStep (fuelFor (lead ++ (pins.flatMap PinText.text ++ ';' :: rest)))
      ⟨r.part [], 0, lead ++ (pins.flatMap PinText.text ++ ';' :: rest)⟩ =
      .ok ⟨r.whole, i, left ++ ';' :: rest⟩ :=
    Loop.exceptLoop_of_exit (fun s => s.text.length) (fun _ _ next => (readPinStep_length next).1)
      reached ends (Nat.lt_succ_self _)
  refine ⟨left, plain, ?_⟩
  rw [readPin, loop]
  dsimp only
  rw [if_neg]
  simp [GateRecord.whole]

/-! ### Gates -/

/-- A gate: the letters and the number of its cell, its name and its pins. A blank follows the number. -/
structure GateText where
  cell : CStr
  number : List Char
  blanks : List Char
  name : CStr
  lead : List Char
  pins : List PinText

def GateText.text (g : GateText) : List Char :=
  g.cell ++ (g.number ++ ' ' :: (g.blanks ++ (g.name ++ (g.lead ++ (g.pins.flatMap PinText.text ++ [';'])))))

/-- The text is that of the gate. -/
structure GateText.WellFormed (g : GateText) (r : GateRecord) : Prop where
  cell : (g.cell, r.type) ∈ gateTypes
  digits : ∀ ch ∈ g.number, ch.isDigit = true
  short : g.number.length ≤ 2
  inputs : readNIn (atoi g.number) g.cell = r.inName.length
  exor : (r.type = .EXOR ∨ r.type = .EXNOR) → r.inName.length = 2
  blanks : ∀ ch ∈ g.blanks, blank ch = true
  name : Word delimiter0 g.name
  same : g.name = r.nameIns
  lead : Gap g.lead ∧ g.lead ≠ []
  pins : PinsOf r g.pins

/-- The words that begin the other statements. -/
def keywords : List CStr :=
  ["module".toList, "wire".toList, "assign".toList, "endmodule".toList, "input".toList, "output".toList]

/-- What `read_2nd` relies on in the letters of a cell. -/
theorem gateTypes_letters : ∀ entry ∈ gateTypes, entry.1.all Char.isAlpha = true ∧ entry.1.length ≤ 6 ∧
    gateTypes.lookup entry.1 = some entry.2 ∧ keywords.all (fun k => k.head? != entry.1.head?) = true ∧
      entry.1 ≠ [] := by
  decide

section Gate

variable {g : GateText} {r : GateRecord}

theorem GateText.WellFormed.letters (h : g.WellFormed r) : (∀ ch ∈ g.cell, ch.isAlpha = true) ∧
    g.cell.length ≤ 6 ∧ gateTypes.lookup g.cell = some r.type ∧
      (∀ k ∈ keywords, k.head? ≠ g.cell.head?) ∧ g.cell ≠ [] := by
  obtain ⟨letters, short, lookup, others, nonempty⟩ := gateTypes_letters _ h.cell
  exact ⟨fun ch mem => List.all_eq_true.mp letters ch mem, short, lookup,
    fun k mem same => by simpa [same] using List.all_eq_true.mp others k mem, nonempty⟩

/-- The cell with its number is one word. -/
theorem GateText.WellFormed.word (h : g.WellFormed r) : Word delimiter1 (g.cell ++ g.number) := by
  obtain ⟨letters, short, -, -, nonempty⟩ := h.letters
  have plain : ∀ ch ∈ g.cell ++ g.number, ch.isAlpha = true ∨ ch.isDigit = true := by
    intro ch mem
    rcases List.mem_append.mp mem with mem | mem
    · exact .inl (letters ch mem)
    · exact .inr (h.digits ch mem)
  have few := h.short
  exact .of_alnum (by simp [nonempty]) plain (by rw [List.length_append, strMax]; omega)

/-- It begins no other statement. -/
theorem GateText.WellFormed.not_keyword (h : g.WellFormed r) : g.cell ++ g.number ∉ keywords := by
  obtain ⟨-, -, -, others, nonempty⟩ := h.letters
  intro mem
  apply others _ mem
  cases cell : g.cell with
  | nil => exact absurd cell nonempty
  | cons ch rest => rfl

/-- The first token of a gate in the modes 0 and 1, with the `;` behind it. -/
theorem GateText.WellFormed.token (h : g.WellFormed r) {delimiter : Char → Bool}
    (mode : delimiter = delimiter0 ∨ delimiter = delimiter1) {before : List Char}
    (isBlank : ∀ ch ∈ before, blank ch = true) (rest : List Char) : ∃ after,
      getToken delimiter (before ++ (g.text ++ rest)) = .ok (some ⟨g.cell ++ g.number, 0, after⟩) ∧
        skipStatement after = .ok rest := by
  have text : g.text ++ rest = (g.cell ++ g.number) ++ ' ' :: ((g.blanks ++ (g.name ++ (g.lead ++
      g.pins.flatMap PinText.text))) ++ ';' :: rest) := by
    simp [GateText.text]
  have plain : ';' ∉ g.blanks ++ (g.name ++ (g.lead ++ g.pins.flatMap PinText.text)) := by
    rw [List.mem_append, List.mem_append, List.mem_append, not_or, not_or, not_or]
    refine ⟨fun mem => ?_, h.name.plain (by decide), h.lead.1.plain, pins_plain h.pins.wellFormed⟩
    have := h.blanks _ mem
    cases this
  refine ⟨_, ?_, skipStatement_append plain rest⟩
  rw [text]
  rcases mode with rfl | rfl
  · exact h.word.mode0.token (fun ch => delimiter0_of_blank) isBlank (by decide) _
  · exact h.word.token (fun ch is => delimiter1_of_delimiter0 (delimiter0_of_blank is)) isBlank (by decide) _

theorem not_isAlpha_of_isDigit {ch : Char} (isDigit : ch.isDigit = true) : ch.isAlpha = false := by
  by_contra isAlpha
  have high : ch.val ≤ '9'.val := of_decide_eq_true (Bool.and_eq_true_iff.mp isDigit).2
  have letter : ch.isUpper = true ∨ ch.isLower = true :=
    Bool.or_eq_true_iff.mp ((Bool.not_eq_false _).mp isAlpha)
  rcases letter with isUpper | isLower
  · have low : 'A'.val ≤ ch.val := (of_decide_eq_true isUpper).1
    exact absurd (UInt32.le_trans low high) (by decide)
  · have low : 'a'.val ≤ ch.val := of_decide_eq_true (Bool.and_eq_true_iff.mp isLower).1
    exact absurd (UInt32.le_trans low high) (by decide)

/-- The first token in mode 2, with the number. -/
theorem GateText.WellFormed.typeToken (h : g.WellFormed r) {before : List Char}
    (isBlank : ∀ ch ∈ before, blank ch = true) (rest : List Char) : ∃ code spaces,
      (∀ ch ∈ spaces, blank ch = true) ∧ getTypeToken 0 (before ++ (g.cell ++ (g.number ++ ' ' :: rest))) =
        .ok (some (⟨g.cell, code, spaces ++ rest⟩, atoi g.number)) := by
  obtain ⟨letters, short, -, -, nonempty⟩ := h.letters
  have digits : ∀ ch ∈ g.number, ch.isAlpha = false ∧ blank ch = false ∧ ch ≠ ';' ∧ ch ≠ ' ' ∧
      ch ≠ '\t' := by
    intro ch mem
    have isDigit := h.digits ch mem
    have visible : ∀ ch' : Char, ch'.isDigit = false → ch ≠ ch' := by
      rintro ch' none rfl
      rw [none] at isDigit
      cases isDigit
    refine ⟨not_isAlpha_of_isDigit isDigit, ?_, visible _ (by decide), visible _ (by decide),
      visible _ (by decide)⟩
    unfold blank
    simp [visible ' ' (by decide), visible '\t' (by decide), visible '\n' (by decide)]
  have front : (before ++ (g.cell ++ (g.number ++ ' ' :: rest))).dropWhile blank = g.cell ++
      (g.number ++ ' ' :: rest) ∧
      (g.cell ++ (g.number ++ ' ' :: rest)).takeWhile Char.isAlpha = g.cell := by
    cases number : g.number with
    | nil => exact letters_front nonempty letters isBlank (by decide) rest
    | cons d number' =>
        exact letters_front nonempty letters isBlank (digits d (number ▸ List.mem_cons_self)).1
          (number' ++ ' ' :: rest)
  obtain ⟨body, word⟩ := front
  have filled : g.cell.isEmpty = false := List.isEmpty_eq_false_iff.mpr nonempty
  unfold getTypeToken
  dsimp only
  rw [body, word, if_neg (by simp [nonempty]), List.drop_left, if_neg (by unfold strMax; omega), filled]
  have few := h.short
  rcases number : g.number with - | ⟨d, - | ⟨e, - | ⟨_, _⟩⟩⟩
  · exact ⟨tokenCode g.cell (some ' '), [], fun ch mem => (by cases mem), rfl⟩
  · obtain ⟨-, visible, plain, -, -⟩ := digits d (number ▸ List.mem_cons_self)
    refine ⟨tokenCode g.cell (some ' '), [], fun ch mem => (by cases mem), ?_⟩
    rw [if_neg (by simp [visible, plain])]
    rfl
  · obtain ⟨-, visible, plain, -, -⟩ := digits d (number ▸ List.mem_cons_self)
    obtain ⟨-, -, -, noBlank, noTab⟩ := digits e (number ▸ List.mem_cons_of_mem _ List.mem_cons_self)
    refine ⟨tokenCode g.cell (some e), [' '], fun ch mem => (by rw [List.mem_singleton.mp mem]; rfl), ?_⟩
    have kept : (some e).filter (fun ch => ch != ' ' && ch != '\t') = some e := by
      simp [Option.filter, noBlank, noTab]
    rw [if_neg (by simp [visible, plain])]
    simp only [List.cons_append, List.head?_cons, List.tail_cons, kept]
    rfl
  · rw [number] at few
    simp at few

/-- The record of a gate before its pins. -/
theorem GateText.WellFormed.head (h : g.WellFormed r) {code : Int} {spaces : List Char}
    (isBlank : ∀ ch ∈ spaces, blank ch = true) (rest : List Char) : ∃ behind, Gap behind ∧
      readGateHead (atoi g.number) ⟨g.cell, code, spaces ++ (g.blanks ++ (g.name ++ (g.lead ++ rest)))⟩ =
        .ok (r.part [], behind ++ rest) := by
  obtain ⟨-, -, lookup, -, -⟩ := h.letters
  obtain ⟨lead, nonempty⟩ := h.lead
  cases isLead : g.lead with
  | nil => exact absurd isLead nonempty
  | cons ch behind =>
      rw [isLead] at lead
      obtain ⟨delim, plain⟩ := lead ch List.mem_cons_self
      have blanks : ∀ ch ∈ spaces ++ g.blanks, blank ch = true := by
        intro ch mem
        rcases List.mem_append.mp mem with mem | mem
        · exact isBlank ch mem
        · exact h.blanks ch mem
      have name := h.name.token (fun ch => delimiter0_of_blank) blanks delim (behind ++ rest)
      rw [if_neg plain] at name
      have type : readModuleType g.cell r.inName.length
          (spaces ++ (g.blanks ++ (g.name ++ (ch :: behind ++ rest)))) = .ok r.type := by
        unfold readModuleType
        rw [lookup]
        dsimp only
        rw [if_neg]
        rintro ⟨exor, notTwo⟩
        exact notTwo (by exact_mod_cast h.exor exor)
      have inputs : List.replicate (r.inName.length : Int).toNat (none : Option CStr) =
          (r.part []).inName := by
        refine List.ext_getElem? fun i => ?_
        simp only [GateRecord.part, List.getElem?_mapIdx, List.getElem?_replicate, List.not_mem_nil,
          if_false, Int.toNat_natCast]
        by_cases low : i < r.inName.length
        · rw [if_pos low, List.getElem?_eq_getElem low]
          rfl
        · rw [if_neg low, List.getElem?_eq_none (by omega)]
          rfl
      refine ⟨behind, fun ch mem => lead ch (List.mem_cons_of_mem _ mem), ?_⟩
      unfold readGateHead
      dsimp only
      rw [h.inputs, type]
      dsimp only
      rw [statementToken, ← List.append_assoc spaces, List.cons_append, name]
      dsimp only
      rw [h.same, inputs]
      rfl

/-- The pass of `read_2nd` over a gate. -/
theorem GateText.WellFormed.read2ndStep (h : g.WellFormed r) (nModule : Nat) (records : List ModuleRecord)
    {before : List Char} (isBlank : ∀ ch ∈ before, blank ch = true) (rest : List Char) :
    read2ndStep nModule ⟨0, records, before ++ (g.text ++ rest)⟩ =
      if nModule ≤ records.length then .error .undefined
      else .ok (some ⟨0, records ++ [r.whole], rest⟩) := by
  have text : g.text ++ rest = g.cell ++ (g.number ++ ' ' :: (g.blanks ++ (g.name ++ (g.lead ++
      (g.pins.flatMap PinText.text ++ ';' :: rest))))) := by
    simp [GateText.text]
  obtain ⟨code, spaces, isSpaces, first⟩ := h.typeToken isBlank (g.blanks ++ (g.name ++ (g.lead ++
    (g.pins.flatMap PinText.text ++ ';' :: rest))))
  obtain ⟨behind, isGap, head⟩ := @GateText.WellFormed.head g r h code spaces isSpaces
    (g.pins.flatMap PinText.text ++ ';' :: rest)
  obtain ⟨left, plain, pins⟩ := readPin_pins h.pins isGap rest
  obtain ⟨-, -, -, others, -⟩ := h.letters
  have other : ∀ k ∈ keywords, g.cell ≠ k := fun k mem same => others k mem (by rw [same])
  unfold SafRprGen.read2ndStep
  dsimp only
  rw [text, first]
  dsimp only
  rw [if_neg, if_neg (other _ (by decide)), head]
  · split
    · rfl
    · simp only [bind, Except.bind]
      rw [pins]
      dsimp only
      rw [skipStatement_append plain]
  · rintro (same | same | same | same) <;> exact other _ (by decide) same

end Gate

end SafRprGen
