/-
Module: SafRprGen.Netlist.Pins
Layer: Netlist
Purpose: What `read_pin` takes as the pins of a gate. It counts words and never looks at `;`, so a
  statement with too few pins goes on in the next one, and one with too many is not noticed. The words of
  a statement decide exactly when neither happens.
Main exports: ownWords, connect, PinsComplete, StatementChecked, readPin_checked_iff
-/
import SafRprGen.Netlist.Parse
import Mathlib.Data.List.Nodup

namespace SafRprGen

/-! ### The words of a statement -/

/-- The words in front of the next `;`, and the text at which they end. -/
def ownWordsFrom : Nat → List Char → List CStr × List Char
  | 0, text => ([], text)
  | fuel + 1, text =>
      match getToken delimiter0 text with
      | .ok (some tok) =>
          if tok.code = 0 then
            let (words, stop) := ownWordsFrom fuel tok.rest
            (tok.str :: words, stop)
          else if tok.code = 1 ∨ tok.code = 2 then ([], text)
          else ownWordsFrom fuel tok.rest
      | _ => ([], text)

def ownWords (text : List Char) : List CStr × List Char := ownWordsFrom (text.length + 1) text

/-- Words come in pairs of a pin and its signal. -/
def pinPairs : List CStr → List (CStr × CStr)
  | pin :: signal :: rest => (pin, signal) :: pinPairs rest
  | _ => []

/-- The pins named by the words; the last one may lack its signal. -/
def pinNames : List CStr → List CStr
  | pin :: _ :: rest => pin :: pinNames rest
  | [pin] => [pin]
  | [] => []

/-- The pins that get a signal, clocks aside. -/
def connectedPins (words : List CStr) : List CStr :=
  ((pinPairs words).map (·.1)).filter fun pin => !isClockPin pin

/-- The pins that are named, clocks aside. -/
def namedPins (words : List CStr) : List CStr := (pinNames words).filter fun pin => !isClockPin pin

/-- The output (`none`) or the input that a pin of the gate names. -/
def pinSlot (r : ModuleRecord) (pin : CStr) : Option (Option Nat) :=
  if isOutputPin pin then some none
  else (inputIndex r.type pin).bind fun i => if i < r.inName.length then some (some i) else none

/-- The output and the inputs of the gate. -/
def gateSlots (r : ModuleRecord) : List (Option Nat) := none :: (List.range r.inName.length).map some

/-- Every pin is one of the gate, and none is named twice. -/
def PinsDistinct (r : ModuleRecord) (pins : List CStr) : Prop :=
  (∀ pin ∈ pins, (pinSlot r pin).isSome = true) ∧ (pins.map (pinSlot r)).Nodup

/-- The words miss the output or an input, or name a pin twice or one outside the inputs. -/
def Malformed (r : ModuleRecord) (words : List CStr) : Prop :=
  (∃ slot ∈ gateSlots r, some slot ∉ (connectedPins words).map (pinSlot r)) ∨
    ¬ PinsDistinct r (namedPins words)

/-- The words connect the output and every input once and name no other pin, or the first wrong pin is
among those that are read, or too few pins end the file. -/
def PinsComplete (r : ModuleRecord) (words : List CStr) (stop : List Char) : Prop :=
  ¬ PinsDistinct r ((connectedPins words).take (gateSlots r).length) ∨
    ((connectedPins words).length = (gateSlots r).length ∧
      (namedPins words).length = (gateSlots r).length) ∨
    ((connectedPins words).length < (gateSlots r).length ∧ ∀ tok, nextWord stop ≠ .ok tok)

private theorem ownWordsFrom_eq : ∀ {fuel fuel' : Nat} {text : List Char}, text.length < fuel →
    text.length < fuel' → ownWordsFrom fuel text = ownWordsFrom fuel' text := by
  intro fuel
  induction fuel with
  | zero => intro fuel' text low; omega
  | succ fuel ih =>
      intro fuel' text low low'
      cases fuel' with
      | zero => omega
      | succ fuel' =>
          unfold ownWordsFrom
          cases got : getToken delimiter0 text with
          | error e => rfl
          | ok r =>
              cases r with
              | none => rfl
              | some tok =>
                  have less := getToken_length got
                  dsimp only
                  rw [@ih fuel' _ (by omega) (by omega)]

theorem ownWords_eq (text : List Char) : ownWords text =
    match getToken delimiter0 text with
    | .ok (some tok) =>
        if tok.code = 0 then (tok.str :: (ownWords tok.rest).1, (ownWords tok.rest).2)
        else if tok.code = 1 ∨ tok.code = 2 then ([], text)
        else ownWords tok.rest
    | _ => ([], text) := by
  conv_lhs => rw [ownWords, ownWordsFrom]
  cases got : getToken delimiter0 text with
  | error e => rfl
  | ok r =>
      cases r with
      | none => rfl
      | some tok =>
          have less := getToken_length got
          dsimp only
          rw [@ownWordsFrom_eq _ (tok.rest.length + 1) _ (by omega) (by omega)]
          rfl

theorem semicolon_length_le (text : List Char) : (semicolon text).length ≤ text.length :=
  (List.dropWhile_suffix _).length_le

/-- The first of the own words is the next word, in front of the `;`. -/
theorem ownWords_cons : ∀ {n : Nat} {text : List Char} {w : CStr} {words : List CStr}
    {stop : List Char}, text.length < n → ownWords text = (w :: words, stop) →
    ∃ tok, nextWord text = .ok tok ∧ tok.str = w ∧ ownWords tok.rest = (words, stop) ∧
      semicolon tok.rest = semicolon text := by
  intro n
  induction n with
  | zero => intro text w words stop low; omega
  | succ n ih =>
      intro text w words stop low own
      rw [ownWords_eq] at own
      rw [nextWord_eq]
      cases got : getToken delimiter0 text with
      | error e =>
          rw [got] at own
          cases own
      | ok r =>
          rw [got] at own
          cases r with
          | none => cases own
          | some tok =>
              rw [statementToken_ok.mpr got]
              obtain ⟨taken, h⟩ := getToken_spec got
              have less := h.length_lt
              have same := (h.semicolon_eq rfl).2
              dsimp only at own ⊢
              by_cases zero : tok.code = 0
              · rw [if_pos zero] at own ⊢
                rw [Prod.mk.injEq, List.cons.injEq] at own
                exact ⟨tok, rfl, own.1.1, Prod.ext own.1.2 own.2, (same (by omega)).2.symm⟩
              · rw [if_neg zero] at own ⊢
                by_cases ends : tok.code = 1 ∨ tok.code = 2
                · rw [if_pos ends] at own
                  cases own
                · rw [if_neg ends] at own
                  obtain ⟨word, run, str, rest, semi⟩ := ih (by omega) own
                  exact ⟨word, run, str, rest, semi.trans (same ends).2.symm⟩

/-- Behind the own words the next word, if there is one, stands behind the `;`. -/
theorem ownWords_nil : ∀ {n : Nat} {text stop : List Char}, text.length < n →
    ownWords text = ([], stop) → nextWord text = nextWord stop ∧
      ∀ tok, nextWord text = .ok tok → tok.rest.length < (semicolon text).length := by
  intro n
  induction n with
  | zero => intro text stop low; omega
  | succ n ih =>
      intro text stop low own
      rw [ownWords_eq] at own
      have unfolds := nextWord_eq text
      cases got : getToken delimiter0 text with
      | error e =>
          rw [got] at own
          cases own
          rw [statementToken, got] at unfolds
          refine ⟨rfl, fun tok h => ?_⟩
          rw [unfolds] at h
          cases h
      | ok r =>
          rw [got] at own
          cases r with
          | none =>
              cases own
              rw [statementToken, got] at unfolds
              refine ⟨rfl, fun tok h => ?_⟩
              rw [unfolds] at h
              cases h
          | some tok =>
              rw [statementToken_ok.mpr got] at unfolds
              obtain ⟨taken, h⟩ := getToken_spec got
              have less := h.length_lt
              obtain ⟨takes, same⟩ := h.semicolon_eq rfl
              dsimp only at own unfolds
              by_cases zero : tok.code = 0
              · rw [if_pos zero] at own
                cases own
              · rw [if_neg zero] at own unfolds
                by_cases ends : tok.code = 1 ∨ tok.code = 2
                · rw [if_pos ends] at own
                  cases own
                  refine ⟨rfl, fun word run => ?_⟩
                  rw [unfolds] at run
                  have := nextWord_length run
                  rw [(takes ends).2, List.length_cons]
                  omega
                · rw [if_neg ends] at own
                  obtain ⟨stopped, behind⟩ := ih (by omega) own
                  refine ⟨unfolds.trans stopped, fun word run => ?_⟩
                  rw [(same ends).2]
                  exact behind word (unfolds ▸ run)

/-! ### Connecting one pin -/

/-- Nothing is connected to the slot yet. -/
def SlotFree (r : ModuleRecord) : Option Nat → Prop
  | none => r.outName = none
  | some i => r.inName[i]? = some none

/-- A record of the same gate with more slots connected. -/
structure Connects (r : ModuleRecord) (slots : List (Option (Option Nat))) (r' : ModuleRecord) : Prop where
  type : r'.type = r.type
  nIn : r'.nIn = r.nIn
  length : r'.inName.length = r.inName.length
  free : ∀ slot, SlotFree r' slot ↔ SlotFree r slot ∧ some slot ∉ slots

theorem Connects.refl (r : ModuleRecord) : Connects r [] r := ⟨rfl, rfl, rfl, by simp⟩

theorem Connects.pinSlot {r r' : ModuleRecord} {slots : List (Option (Option Nat))}
    (h : Connects r slots r') (pin : CStr) : pinSlot r' pin = SafRprGen.pinSlot r pin := by
  unfold SafRprGen.pinSlot
  rw [h.type, h.length]

theorem Connects.trans {r r' r'' : ModuleRecord} {slots slots' : List (Option (Option Nat))}
    (h : Connects r slots r') (h' : Connects r' slots' r'') : Connects r (slots ++ slots') r'' := by
  refine ⟨h'.type.trans h.type, h'.nIn.trans h.nIn, h'.length.trans h.length, fun slot => ?_⟩
  rw [h'.free, h.free, List.mem_append, not_or, and_assoc]

theorem setPin_clock {pin : CStr} (clock : isClockPin pin = true) (r : ModuleRecord) (signal : CStr) :
    setPin r pin signal = .ok r := by
  have pinIs : pin = "CP".toList := of_decide_eq_true clock
  subst pinIs
  rfl

/-- A free slot is connected. -/
theorem setPin_ok {r : ModuleRecord} {pin : CStr} {slot : Option Nat} (other : isClockPin pin = false)
    (names : pinSlot r pin = some slot) (free : SlotFree r slot) (signal : CStr) :
    ∃ r', setPin r pin signal = .ok r' ∧ Connects r [pinSlot r pin] r' := by
  unfold setPin
  unfold pinSlot at names ⊢
  by_cases output : isOutputPin pin = true
  · rw [if_pos output] at names ⊢
    cases names
    have free : r.outName = none := free
    rw [free, if_pos output, if_neg (by simp)]
    refine ⟨_, rfl, rfl, rfl, rfl, fun slot => ?_⟩
    cases slot with
    | none => simp [SlotFree]
    | some i => simp [SlotFree]
  · rw [if_neg output] at names
    obtain ⟨i, index, isSlot⟩ := Option.bind_eq_some_iff.mp names
    by_cases inRange : i < r.inName.length
    · rw [if_pos inRange] at isSlot
      cases isSlot
      have free : r.inName[i]? = some none := free
      simp only [if_neg output, other, Bool.false_eq_true, if_false, index, setInputPin, free, if_true]
      refine ⟨_, rfl, rfl, rfl, by simp, fun slot => ?_⟩
      simp only [Option.bind_some, if_pos inRange, List.mem_singleton]
      cases slot with
      | none => simp [SlotFree]
      | some k =>
          by_cases here : i = k
          · subst here
            simp [SlotFree, inRange]
          · simp [SlotFree, List.getElem?_set_ne here, Ne.symm here]
    · rw [if_neg inRange] at isSlot
      cases isSlot

/-- A pin outside the gate or named twice is refused. -/
theorem setPin_error {r : ModuleRecord} {pin : CStr} (other : isClockPin pin = false)
    (taken : ∀ slot, pinSlot r pin = some slot → ¬ SlotFree r slot) (signal : CStr) :
    ∃ e, setPin r pin signal = .error e := by
  unfold setPin
  unfold pinSlot at taken
  by_cases output : isOutputPin pin = true
  · have notFree : r.outName ≠ none := taken none (by rw [if_pos output])
    refine ⟨.error 2 r.nameIns, ?_⟩
    rw [if_pos output, if_pos (by simpa [Option.isSome_iff_ne_none] using notFree)]
  · rw [if_neg output, other, if_neg Bool.false_ne_true]
    unfold setInputPin
    cases index : inputIndex r.type pin with
    | none => exact ⟨_, rfl⟩
    | some i =>
        have notFree : r.inName[i]? ≠ some none := by
          intro free
          have low : i < r.inName.length := (List.getElem?_eq_some_iff.mp free).1
          exact taken (some i) (by rw [if_neg output, index]; simp [low]) free
        refine ⟨.error 2 r.nameIns, ?_⟩
        dsimp only
        rw [if_neg notFree]

/-! ### Connecting the pins of a statement -/

/-- How connecting `need` pins ends. -/
inductive Connected where
  | refused
  | done (r : ModuleRecord)
  | short

/-- `read_pin` on a list of words. -/
def connect : ModuleRecord → Nat → List CStr → Connected
  | r, 0, _ => .done r
  | r, need + 1, pin :: signal :: words =>
      match setPin r pin signal with
      | .error _ => .refused
      | .ok r' => connect r' (if isClockPin pin then need + 1 else need) words
  | _, _ + 1, _ => .short

/-- The pins that are connected are named and free, and none is named twice. -/
def Fits (r : ModuleRecord) (pins : List CStr) : Prop :=
  (∀ pin ∈ pins, ∃ slot, pinSlot r pin = some slot ∧ SlotFree r slot) ∧ (pins.map (pinSlot r)).Nodup

/-- Connecting a pin leaves the other pins to fit. -/
theorem fits_cons {r r' : ModuleRecord} {pin : CStr} {slot : Option Nat}
    (connects : Connects r [pinSlot r pin] r') (names : pinSlot r pin = some slot) (free : SlotFree r slot)
    (pins : List CStr) : Fits r (pin :: pins) ↔ Fits r' pins := by
  have slots : pinSlot r' = pinSlot r := funext connects.pinSlot
  unfold Fits
  simp only [List.forall_mem_cons, List.map_cons, List.nodup_cons, slots, connects.free,
    List.mem_singleton]
  constructor
  · rintro ⟨⟨-, rest⟩, fresh, nodup⟩
    refine ⟨fun p mem => ?_, nodup⟩
    obtain ⟨τ, isSlot, isFree⟩ := rest p mem
    refine ⟨τ, isSlot, isFree, fun same => fresh ?_⟩
    rw [← same, ← isSlot]
    exact List.mem_map_of_mem mem
  · rintro ⟨rest, nodup⟩
    refine ⟨⟨⟨slot, names, free⟩, fun p mem => ?_⟩, fun mem => ?_, nodup⟩
    · obtain ⟨τ, isSlot, isFree, -⟩ := rest p mem
      exact ⟨τ, isSlot, isFree⟩
    · obtain ⟨p, mem, same⟩ := List.mem_map.mp mem
      obtain ⟨τ, isSlot, -, other⟩ := rest p mem
      exact other (isSlot.symm.trans same)

/-- Without a pair of words no pin is connected. -/
theorem connectedPins_few {words : List CStr}
    (few : ∀ pin signal rest, words = pin :: signal :: rest → False) : connectedPins words = [] := by
  match words with
  | [] => rfl
  | [pin] => rfl
  | pin :: signal :: rest => exact absurd rfl (few pin signal rest)

theorem connect_few {words : List CStr}
    (few : ∀ pin signal rest, words = pin :: signal :: rest → False) (r : ModuleRecord) (need : Nat) :
    connect r (need + 1) words = .short := by
  match words with
  | [] => rfl
  | [pin] => rfl
  | pin :: signal :: rest => exact absurd rfl (few pin signal rest)

/-- The result is decided by the first pins, clocks aside. -/
theorem connect_spec (words : List CStr) : ∀ (r : ModuleRecord) (need : Nat),
    (¬ Fits r ((connectedPins words).take need) → connect r need words = .refused) ∧
      (Fits r ((connectedPins words).take need) → need ≤ (connectedPins words).length →
        ∃ r', connect r need words = .done r' ∧
          Connects r (((connectedPins words).take need).map (pinSlot r)) r') ∧
      (Fits r ((connectedPins words).take need) → (connectedPins words).length < need →
        connect r need words = .short) := by
  induction words using pinPairs.induct with
  | case1 pin signal words ih =>
      intro r need
      cases need with
      | zero =>
          refine ⟨fun bad => ?_, fun _ _ => ⟨r, rfl, by simpa using Connects.refl r⟩, fun _ less => ?_⟩
          · exact absurd ⟨by simp, by simp⟩ bad
          · omega
      | succ need =>
          rw [connect]
          cases clock : isClockPin pin with
          | true =>
              have same : connectedPins (pin :: signal :: words) = connectedPins words := by
                simp [connectedPins, pinPairs, clock]
              rw [setPin_clock clock, same]
              exact ih r (need + 1)
          | false =>
              have cons : connectedPins (pin :: signal :: words) = pin :: connectedPins words := by
                simp [connectedPins, pinPairs, clock]
              rw [cons, List.take_succ_cons]
              by_cases free : ∃ slot, pinSlot r pin = some slot ∧ SlotFree r slot
              · obtain ⟨slot, names, free⟩ := free
                obtain ⟨r', run, connects⟩ := setPin_ok clock names free signal
                have slots : pinSlot r' = pinSlot r := funext connects.pinSlot
                have fits := fits_cons connects names free ((connectedPins words).take need)
                obtain ⟨bad, good, short⟩ := ih r' need
                rw [run, fits]
                dsimp only
                rw [if_neg Bool.false_ne_true]
                refine ⟨bad, fun ok le => ?_, fun ok less => short ok ?_⟩
                · obtain ⟨r'', done, connects'⟩ := good ok (by simpa using le)
                  refine ⟨r'', done, ?_⟩
                  have both := connects.trans connects'
                  rwa [slots] at both
                · simpa using less
              · have refused : ∃ e, setPin r pin signal = .error e := by
                  apply setPin_error clock
                  intro slot names isFree
                  exact free ⟨slot, names, isFree⟩
                obtain ⟨e, run⟩ := refused
                rw [run]
                have notFits : ¬ Fits r (pin :: (connectedPins words).take need) := fun fits =>
                  free (fits.1 pin List.mem_cons_self)
                exact ⟨fun _ => rfl, fun fits => absurd fits notFits, fun fits => absurd fits notFits⟩
  | case2 words few =>
      intro r need
      have none := connectedPins_few few
      rw [none]
      refine ⟨fun bad => ?_, fun _ le => ?_, fun _ less => ?_⟩
      · exact absurd ⟨by simp, by simp⟩ bad
      · have zero : need = 0 := by simpa using le
        subst zero
        exact ⟨r, by simp [connect], by simpa using Connects.refl r⟩
      · cases need with
        | zero => simp at less
        | succ need => exact connect_few few r need

/-! ### The loop of `read_pin` -/

theorem setPin_nIn {r r' : ModuleRecord} {pin signal : CStr} (run : setPin r pin signal = .ok r') :
    r'.nIn = r.nIn := by
  unfold setPin setInputPin at run
  repeat' split at run
  all_goals cases run
  all_goals rfl

theorem readPinStep_exit {s : PinState} (full : ¬ s.i < s.record.nIn + 1) : readPinStep s = .ok none := by
  rw [readPinStep, if_neg full]

theorem readPinStep_noPin {s : PinState} (more : s.i < s.record.nIn + 1) {e : Stop}
    (pin : nextWord s.text = .error e) : readPinStep s = .error e := by
  rw [readPinStep, if_pos more, pin]

theorem readPinStep_noSignal {s : PinState} (more : s.i < s.record.nIn + 1) {pin : Token} {e : Stop}
    (isPin : nextWord s.text = .ok pin) (signal : nextWord pin.rest = .error e) :
    readPinStep s = .error e := by
  rw [readPinStep, if_pos more, isPin]
  dsimp only
  rw [signal]

theorem readPinStep_error {s : PinState} (more : s.i < s.record.nIn + 1) {pin signal : Token} {e : Stop}
    (isPin : nextWord s.text = .ok pin) (isSignal : nextWord pin.rest = .ok signal)
    (refused : setPin s.record pin.str signal.str = .error e) : readPinStep s = .error e := by
  rw [readPinStep, if_pos more, isPin]
  dsimp only
  rw [isSignal]
  dsimp only
  rw [refused]

theorem readPinStep_next {s : PinState} (more : s.i < s.record.nIn + 1) {pin signal : Token}
    {r : ModuleRecord} (isPin : nextWord s.text = .ok pin) (isSignal : nextWord pin.rest = .ok signal)
    (set : setPin s.record pin.str signal.str = .ok r) :
    readPinStep s = .ok (some ⟨r, if isClockPin pin.str then s.i else s.i + 1, signal.rest⟩) := by
  rw [readPinStep, if_pos more, isPin]
  dsimp only
  rw [isSignal]
  dsimp only
  rw [set]

theorem readPinStep_length {s s' : PinState} (next : readPinStep s = .ok (some s')) :
    s'.text.length < s.text.length ∧ s'.text <:+ s.text := by
  unfold readPinStep at next
  split at next
  · cases pin : nextWord s.text with
    | error e =>
        rw [pin] at next
        cases next
    | ok tok =>
        rw [pin] at next
        dsimp only at next
        cases signal : nextWord tok.rest with
        | error e =>
            rw [signal] at next
            cases next
        | ok tok' =>
            rw [signal] at next
            dsimp only at next
            split at next
            · cases next
            · cases next
              have less := nextWord_length pin
              have less' := nextWord_length signal
              exact ⟨by dsimp only; omega, (nextWord_suffix signal).trans (nextWord_suffix pin)⟩
  · cases next

theorem nextWord_error {text : List Char} (none : ∀ tok, nextWord text ≠ .ok tok) :
    ∃ e, nextWord text = .error e := by
  cases run : nextWord text with
  | error e => exact ⟨e, rfl⟩
  | ok tok => exact absurd run (none tok)

/-- The words that a pass reads stand in front of the `;` that `semi` bytes begin with. -/
def ReadsOwn (semi : Nat) (s : PinState) : Prop :=
  s.i < s.record.nIn + 1 → ∀ pin, nextWord s.text = .ok pin → semi ≤ pin.rest.length ∧
    ∀ signal, nextWord pin.rest = .ok signal → semi ≤ signal.rest.length

/-- So do the words of the rest of the loop. -/
def TakesOwn (semi : Nat) (s : PinState) : Prop :=
  ∀ t, Loop.Reaches readPinStep s t → ReadsOwn semi t

/-- The loop stops with an error. -/
def PinsFail (s : PinState) : Prop :=
  ∃ t e, Loop.Reaches readPinStep s t ∧ readPinStep t = .error e

theorem ReadsOwn.of_noPin {semi : Nat} {s : PinState} {e : Stop} (none : nextWord s.text = .error e) :
    ReadsOwn semi s := by
  intro _ pin isPin
  rw [none] at isPin
  cases isPin

theorem ReadsOwn.of_noSignal {semi : Nat} {s : PinState} {pin : Token} {e : Stop}
    (isPin : nextWord s.text = .ok pin) (own : semi ≤ pin.rest.length)
    (none : nextWord pin.rest = .error e) : ReadsOwn semi s := by
  intro _ pin' isPin'
  obtain rfl : pin = pin' := by simpa only [isPin, Except.ok.injEq] using isPin'
  refine ⟨own, fun signal isSignal => ?_⟩
  rw [none] at isSignal
  cases isSignal

theorem ReadsOwn.of_words {semi : Nat} {s : PinState} {pin signal : Token}
    (isPin : nextWord s.text = .ok pin) (isSignal : nextWord pin.rest = .ok signal)
    (own : semi ≤ pin.rest.length) (own' : semi ≤ signal.rest.length) : ReadsOwn semi s := by
  intro _ pin' isPin'
  obtain rfl : pin = pin' := by simpa only [isPin, Except.ok.injEq] using isPin'
  refine ⟨own, fun signal' isSignal' => ?_⟩
  obtain rfl : signal = signal' := by simpa only [isSignal, Except.ok.injEq] using isSignal'
  exact own'

theorem takesOwn_last {semi : Nat} {s : PinState} (last : ∀ s', readPinStep s ≠ .ok (some s')) :
    TakesOwn semi s ↔ ReadsOwn semi s := by
  refine ⟨fun h => h s .refl, fun h t reached => ?_⟩
  rcases reached.cases_head with rfl | ⟨s', next, -⟩
  · exact h
  · exact absurd next (last s')

theorem takesOwn_step {semi : Nat} {s s' : PinState} (next : readPinStep s = .ok (some s')) :
    TakesOwn semi s ↔ ReadsOwn semi s ∧ TakesOwn semi s' := by
  constructor
  · exact fun h => ⟨h s .refl, fun t reached => h t (.head next reached)⟩
  · rintro ⟨here, rest⟩ t reached
    rcases reached.cases_head with rfl | ⟨s'', next', reached'⟩
    · exact here
    · rw [next] at next'
      cases next'
      exact rest t reached'

/-- A loop that has its pins stops without a further word. -/
theorem takesOwn_exit {semi : Nat} {s : PinState} (full : ¬ s.i < s.record.nIn + 1) :
    TakesOwn semi s ∧ ∃ t, Loop.Reaches readPinStep s t ∧ readPinStep t = .ok none ∧ t.record = s.record := by
  have exit := readPinStep_exit full
  refine ⟨(takesOwn_last fun s' => by rw [exit]; simp).mpr ?_, s, .refl, exit, rfl⟩
  intro more
  exact absurd more full

theorem takesOwn_error {semi : Nat} {s : PinState} {e : Stop} (fails : readPinStep s = .error e)
    (reads : ReadsOwn semi s) : TakesOwn semi s ∧ PinsFail s :=
  ⟨(takesOwn_last fun s' => by rw [fails]; simp).mpr reads, s, e, .refl, fails⟩

/-- A pass with no own word for its pin looks for one behind the `;`. -/
theorem takesOwn_noPin {s : PinState} {stop : List Char} (more : s.i < s.record.nIn + 1)
    (own : ownWords s.text = ([], stop)) :
    ((∃ tok, nextWord stop = .ok tok) → ¬ TakesOwn (semicolon s.text).length s) ∧
      ((∀ tok, nextWord stop ≠ .ok tok) → TakesOwn (semicolon s.text).length s ∧ PinsFail s) := by
  obtain ⟨stopped, behind⟩ := ownWords_nil (Nat.lt_succ_self _) own
  rw [← stopped]
  constructor
  · rintro ⟨tok, run⟩ takes
    have before := (takes s .refl more tok run).1
    have after := behind tok run
    omega
  · intro none
    obtain ⟨e, run⟩ := nextWord_error none
    exact takesOwn_error (readPinStep_noPin more run) (.of_noPin run)

/-- So does one with an own word for its pin and none for its signal. -/
theorem takesOwn_noSignal {s : PinState} {w : CStr} {stop : List Char} (more : s.i < s.record.nIn + 1)
    (own : ownWords s.text = ([w], stop)) :
    ((∃ tok, nextWord stop = .ok tok) → ¬ TakesOwn (semicolon s.text).length s) ∧
      ((∀ tok, nextWord stop ≠ .ok tok) → TakesOwn (semicolon s.text).length s ∧ PinsFail s) := by
  obtain ⟨pin, isPin, rfl, own', semi⟩ := ownWords_cons (Nat.lt_succ_self _) own
  obtain ⟨stopped, behind⟩ := ownWords_nil (Nat.lt_succ_self _) own'
  rw [← stopped, ← semi]
  constructor
  · rintro ⟨tok, run⟩ takes
    have before := (takes s .refl more pin isPin).2 tok run
    have after := behind tok run
    omega
  · intro none
    obtain ⟨e, run⟩ := nextWord_error none
    exact takesOwn_error (readPinStep_noSignal more isPin run)
      (.of_noSignal isPin (semicolon_length_le _) run)

/-- The loop does what `connect` does with the own words; when they are too few it goes on behind the
`;`. -/
theorem readPin_connect (words : List CStr) : ∀ (s : PinState) (stop : List Char) (need : Nat),
    ownWords s.text = (words, stop) → s.i + need = s.record.nIn + 1 →
    match connect s.record need words with
    | .refused => TakesOwn (semicolon s.text).length s ∧ PinsFail s
    | .done r => TakesOwn (semicolon s.text).length s ∧
        ∃ t, Loop.Reaches readPinStep s t ∧ readPinStep t = .ok none ∧ t.record = r
    | .short => ((∃ tok, nextWord stop = .ok tok) → ¬ TakesOwn (semicolon s.text).length s) ∧
        ((∀ tok, nextWord stop ≠ .ok tok) → TakesOwn (semicolon s.text).length s ∧ PinsFail s) := by
  induction words using pinPairs.induct with
  | case1 pin signal words ih =>
      intro s stop need own count
      cases need with
      | zero => exact takesOwn_exit (by omega)
      | succ need =>
          have more : s.i < s.record.nIn + 1 := by omega
          obtain ⟨tok, run, rfl, own', semi⟩ := ownWords_cons (Nat.lt_succ_self _) own
          obtain ⟨tok', run', rfl, own'', semi'⟩ := ownWords_cons (Nat.lt_succ_self _) own'
          have reads : ReadsOwn (semicolon s.text).length s := by
            apply ReadsOwn.of_words run run'
            · rw [← semi]
              exact semicolon_length_le _
            · rw [← semi, ← semi']
              exact semicolon_length_le _
          rw [connect]
          cases set : setPin s.record tok.str tok'.str with
          | error e => exact takesOwn_error (readPinStep_error more run run' set) reads
          | ok r' =>
              have next := readPinStep_next more run run' set
              have later := ih ⟨r', if isClockPin tok.str then s.i else s.i + 1, tok'.rest⟩ stop
                (if isClockPin tok.str then need + 1 else need) own'' (by
                  dsimp only
                  rw [setPin_nIn set]
                  split <;> push_cast at count ⊢ <;> omega)
              dsimp only at later ⊢
              rw [semi', semi] at later
              rw [takesOwn_step next]
              generalize connect r' (if isClockPin tok.str then need + 1 else need) words = result at later
              have fails : PinsFail ⟨r', if isClockPin tok.str then s.i else s.i + 1, tok'.rest⟩ →
                  PinsFail s := fun ⟨t, e, reached, error⟩ => ⟨t, e, .head next reached, error⟩
              cases result with
              | refused => exact ⟨⟨reads, later.1⟩, fails later.2⟩
              | done r =>
                  obtain ⟨takes, t, reached, exit, record⟩ := later
                  exact ⟨⟨reads, takes⟩, t, .head next reached, exit, record⟩
              | short =>
                  exact ⟨fun more h => later.1 more h.2, fun none =>
                    ⟨⟨reads, (later.2 none).1⟩, fails (later.2 none).2⟩⟩
  | case2 words few =>
      intro s stop need own count
      cases need with
      | zero =>
          have done : connect s.record 0 words = .done s.record := by simp [connect]
          rw [done]
          exact takesOwn_exit (by omega)
      | succ need =>
          have more : s.i < s.record.nIn + 1 := by omega
          match words with
          | [] => exact takesOwn_noPin more own
          | [w] => exact takesOwn_noSignal more own
          | w :: signal :: words => exact absurd rfl (few w signal words)

/-! ### Records that nothing is connected to yet -/

/-- The record of a gate before its pins are read. -/
structure Fresh (r : ModuleRecord) : Prop where
  outName : r.outName = none
  inName : r.inName = List.replicate r.nIn.toNat none

theorem Fresh.length {r : ModuleRecord} (fresh : Fresh r) : r.inName.length = r.nIn.toNat := by
  rw [fresh.inName, List.length_replicate]

theorem mem_gateSlots {r : ModuleRecord} {slot : Option Nat} :
    slot ∈ gateSlots r ↔ slot = none ∨ ∃ i, i < r.inName.length ∧ slot = some i := by
  simp only [gateSlots, List.mem_cons, List.mem_map, List.mem_range, eq_comm]

theorem gateSlots_nodup (r : ModuleRecord) : (gateSlots r).Nodup := by
  refine List.nodup_cons.mpr ⟨by simp, ?_⟩
  exact List.Nodup.map (fun _ _ same => Option.some.inj same) List.nodup_range

theorem gateSlots_length (r : ModuleRecord) : (gateSlots r).length = r.inName.length + 1 := by
  simp [gateSlots]

theorem pinSlot_mem {r : ModuleRecord} {pin : CStr} {slot : Option Nat}
    (names : pinSlot r pin = some slot) : slot ∈ gateSlots r := by
  rw [mem_gateSlots]
  unfold pinSlot at names
  split at names
  · cases names
    exact .inl rfl
  · obtain ⟨i, -, isSlot⟩ := Option.bind_eq_some_iff.mp names
    split at isSlot
    · rename_i low
      cases isSlot
      exact .inr ⟨i, low, rfl⟩
    · cases isSlot

theorem Fresh.free {r : ModuleRecord} (fresh : Fresh r) {slot : Option Nat}
    (isSlot : slot ∈ gateSlots r) : SlotFree r slot := by
  rcases mem_gateSlots.mp isSlot with rfl | ⟨i, low, rfl⟩
  · exact fresh.outName
  · have low' : i < r.nIn.toNat := fresh.length ▸ low
    change r.inName[i]? = some none
    rw [fresh.inName, List.getElem?_replicate, if_pos low']

theorem Fresh.fits_iff {r : ModuleRecord} (fresh : Fresh r) (pins : List CStr) :
    Fits r pins ↔ PinsDistinct r pins := by
  unfold Fits PinsDistinct
  refine and_congr_left fun _ => forall₂_congr fun pin _ => ?_
  rw [Option.isSome_iff_exists]
  constructor
  · rintro ⟨slot, names, -⟩
    exact ⟨slot, names⟩
  · rintro ⟨slot, names⟩
    exact ⟨slot, names, fresh.free (pinSlot_mem names)⟩

/-- Distinct pins of a gate are at most as many as it has, and if they are as many they are all. -/
theorem PinsDistinct.count {r : ModuleRecord} {pins : List CStr} (distinct : PinsDistinct r pins) :
    pins.length ≤ (gateSlots r).length ∧ (pins.length = (gateSlots r).length →
      ∀ slot ∈ gateSlots r, some slot ∈ pins.map (pinSlot r)) := by
  have sub : pins.map (pinSlot r) ⊆ (gateSlots r).map some := by
    intro slot mem
    obtain ⟨pin, isPin, rfl⟩ := List.mem_map.mp mem
    obtain ⟨slot, names⟩ := Option.isSome_iff_exists.mp (distinct.1 pin isPin)
    rw [names]
    exact List.mem_map_of_mem (pinSlot_mem names)
  have perm := distinct.2.subperm sub
  constructor
  · simpa using perm.length_le
  · intro same slot isSlot
    have all := perm.perm_of_length_le (by simp [same])
    exact all.mem_iff.mpr (List.mem_map_of_mem isSlot)

theorem PinsDistinct.take {r : ModuleRecord} {pins : List CStr} (distinct : PinsDistinct r pins)
    (n : Nat) : PinsDistinct r (pins.take n) := by
  refine ⟨fun pin mem => distinct.1 pin (List.mem_of_mem_take mem), ?_⟩
  rw [List.map_take]
  exact distinct.2.sublist (List.take_sublist _ _)

/-- The pins that get a signal are the first ones of those that are named. -/
theorem connectedPins_isPrefixOf (words : List CStr) : connectedPins words <+: namedPins words := by
  have pairs : (pinPairs words).map (·.1) <+: pinNames words := by
    induction words using pinPairs.induct with
    | case1 pin signal words ih =>
        rw [pinPairs, pinNames, List.map_cons]
        exact (List.prefix_cons_inj pin).mpr ih
    | case2 words few =>
        have none : pinPairs words = [] := by
          cases words with
          | nil => rfl
          | cons pin words =>
              cases words with
              | nil => rfl
              | cons signal words => exact absurd rfl (few pin signal words)
        rw [none]
        exact List.nil_prefix
  exact pairs.filter _

/-- Complete pins are not malformed. -/
theorem not_malformed {r : ModuleRecord} {words : List CStr}
    (distinct : PinsDistinct r ((connectedPins words).take (gateSlots r).length))
    (connected : (connectedPins words).length = (gateSlots r).length)
    (named : (namedPins words).length = (gateSlots r).length) : ¬ Malformed r words := by
  rw [← connected, List.take_length] at distinct
  have same : connectedPins words = namedPins words :=
    (connectedPins_isPrefixOf words).eq_of_length (connected.trans named.symm)
  rintro (⟨slot, isSlot, missing⟩ | wrong)
  · exact missing (distinct.count.2 connected slot isSlot)
  · rw [← same] at wrong
    exact wrong distinct

/-- A word behind the last pin that fits in is malformed. -/
theorem malformed_of_more {r : ModuleRecord} {words : List CStr}
    (more : (gateSlots r).length < (namedPins words).length) : Malformed r words := by
  right
  intro distinct
  have := distinct.count.1
  omega

/-! ### `read_pin` on a gate statement -/

/-- `stmt` is the text of a gate statement that `read_2nd` reaches; `r` is its record, one of those that
`read_1st` has counted, and `pins` the text at which `read_pin` begins. -/
def GateStatement (text stmt : List Char) (r : ModuleRecord) (pins : List Char) : Prop :=
  ∃ counts s tok inNum, read1st text = .ok counts ∧
    Loop.Reaches (read2ndStep counts.nModule) ⟨0, [], text⟩ s ∧ s.text = stmt ∧
    getTypeToken s.inNum s.text = .ok (some (tok, inNum)) ∧
    tok.str ∉ ["module".toList, "input".toList, "output".toList, "wire".toList, "endmodule".toList] ∧
    s.records.length < counts.nModule ∧ readGateHead inNum tok = .ok (r, pins)

/-- The words behind the instance name in front of the statement's `;`. -/
def statementWords (stmt pins : List Char) : List CStr × List Char :=
  if (semicolon stmt).length ≤ pins.length then ownWords pins else ([], pins)

/-- `read_2nd` stops with this error. -/
def ReadFails (text : List Char) (e : Stop) : Prop :=
  ∃ counts, read1st text = .ok counts ∧ read2nd counts.nModule text = .error e

/-- `read_pin` takes nothing from behind the statement's `;`, and a malformed statement makes it and with
it `read_2nd` stop with an error. -/
def StatementChecked (text stmt : List Char) (r : ModuleRecord) (pins : List Char) : Prop :=
  TakesOwn (semicolon stmt).length ⟨r, 0, pins⟩ ∧
    (Malformed r (statementWords stmt pins).1 →
      ∃ e, readPin r pins = .error e ∧ ReadFails text e)

theorem readGateHead_fresh {inNum : Int} {tok : Token} {r : ModuleRecord} {pins : List Char}
    (head : readGateHead inNum tok = .ok (r, pins)) : Fresh r ∧ pins <:+ tok.rest := by
  unfold readGateHead at head
  dsimp only at head
  split at head
  · cases head
  · split at head
    · cases head
    · rename_i ins run
      cases head
      exact ⟨⟨rfl, rfl⟩, statementToken_suffix run⟩

theorem reaches_suffix {s t : PinState} (reached : Loop.Reaches readPinStep s t) :
    t.text <:+ s.text := by
  induction reached with
  | refl => exact List.suffix_rfl
  | step _ next ih => exact (readPinStep_length next).2.trans ih

theorem readPin_suffix {r r' : ModuleRecord} {pins rest : List Char}
    (run : readPin r pins = .ok (r', rest)) : rest <:+ pins := by
  unfold readPin at run
  split at run
  · cases run
  · rename_i s loop
    split at run
    · cases run
    · cases run
      exact reaches_suffix (Loop.exceptLoop_ok loop).1

theorem read2ndStep_length {nModule : Nat} {s s' : SecondState}
    (next : read2ndStep nModule s = .ok (some s')) :
    s'.text.length < s.text.length := by
  unfold read2ndStep at next
  split at next
  · cases next
  · cases next
  · rename_i tok inNum got
    obtain ⟨-, less⟩ := getTypeToken_suffix got
    split at next
    · cases skip : skipStatement tok.rest with
      | error e =>
          rw [skip] at next
          cases next
      | ok rest =>
          rw [skip] at next
          cases next
          have := (skipStatement_suffix skip).2
          dsimp only
          omega
    · split at next
      · cases next
        exact less
      · split at next
        · cases next
        obtain ⟨⟨r, pins⟩, head, next⟩ := Loop.bind_eq_ok.mp next
        obtain ⟨⟨r', text⟩, run, next⟩ := Loop.bind_eq_ok.mp next
        obtain ⟨rest, skip, next⟩ := Loop.bind_eq_ok.mp next
        cases next
        have pinsLe := (readGateHead_fresh head).2.length_le
        have textLe := (readPin_suffix run).length_le
        have := (skipStatement_suffix skip).2
        dsimp only
        omega

/-- An error of `read_pin` is one of `read_2nd`. -/
theorem GateStatement.read2nd_error {text stmt pins : List Char} {r : ModuleRecord}
    (gate : GateStatement text stmt r pins) {e : Stop} (fails : readPin r pins = .error e) :
    ReadFails text e := by
  obtain ⟨counts, s, tok, inNum, first, reached, rfl, got, other, room, head⟩ := gate
  have step : read2ndStep counts.nModule s = .error e := by
    unfold read2ndStep
    rw [got]
    simp only [List.mem_cons, List.not_mem_nil, or_false, not_or] at other
    obtain ⟨module, input, output, wire, endmodule⟩ := other
    simp only [module, input, output, wire, endmodule, or_false, if_false]
    rw [if_neg (Nat.not_le.mpr room), head]
    change (readPin r pins >>= _) = _
    rw [fails]
    rfl
  have loop : Loop.exceptLoop .undefined (read2ndStep counts.nModule) (fuelFor text) ⟨0, [], text⟩ =
      .error e :=
    Loop.exceptLoop_of_error (fun s => s.text.length) (fun _ _ => read2ndStep_length) reached step
      (Nat.lt_succ_self _)
  refine ⟨counts, first, ?_⟩
  rw [read2nd, loop]
  rfl

/-- What stands behind the instance name ends at the same `;`, or that `;` is already taken. -/
theorem GateStatement.suffix {text stmt pins : List Char} {r : ModuleRecord}
    (gate : GateStatement text stmt r pins) : Fresh r ∧ pins <:+ stmt := by
  obtain ⟨counts, s, tok, inNum, -, -, rfl, got, -, -, head⟩ := gate
  obtain ⟨fresh, behind⟩ := readGateHead_fresh head
  exact ⟨fresh, behind.trans (getTypeToken_suffix got).1⟩

theorem readPin_error {r : ModuleRecord} {pins : List Char} (fails : PinsFail ⟨r, 0, pins⟩) :
    ∃ e, readPin r pins = .error e := by
  obtain ⟨t, e, reached, step⟩ := fails
  refine ⟨e, ?_⟩
  have loop : Loop.exceptLoop .undefined readPinStep (fuelFor pins) ⟨r, 0, pins⟩ = .error e :=
    Loop.exceptLoop_of_error (fun s => s.text.length) (fun _ _ next => (readPinStep_length next).1)
      reached step (Nat.lt_succ_self _)
  rw [readPin, loop]

/-- When every slot is connected, `read_pin` accepts the record. -/
theorem readPin_ok {r r' : ModuleRecord} {pins : List Char} {slots : List (Option (Option Nat))}
    {t : PinState} (reached : Loop.Reaches readPinStep ⟨r, 0, pins⟩ t) (exit : readPinStep t = .ok none)
    (connects : Connects r slots r') (record : t.record = r')
    (all : ∀ slot ∈ gateSlots r, some slot ∈ slots) : readPin r pins = .ok (r', t.text) := by
  have used : ∀ slot ∈ gateSlots r, ¬ SlotFree r' slot := fun slot isSlot free =>
    ((connects.free slot).mp free).2 (all slot isSlot)
  have output : r'.outName ≠ none := used none (mem_gateSlots.mpr (.inl rfl))
  have inputs : r'.inName.any (·.isNone) = false := by
    rw [List.any_eq_false]
    intro name mem isNone
    obtain ⟨i, low, rfl⟩ := List.getElem_of_mem mem
    apply used (some i) (mem_gateSlots.mpr (.inr ⟨i, connects.length ▸ low, rfl⟩))
    change r'.inName[i]? = some none
    rw [List.getElem?_eq_getElem low, Option.isNone_iff_eq_none.mp isNone]
  have loop : Loop.exceptLoop .undefined readPinStep (fuelFor pins) ⟨r, 0, pins⟩ = .ok t :=
    Loop.exceptLoop_of_exit (fun s => s.text.length) (fun _ _ next => (readPinStep_length next).1)
      reached exit (Nat.lt_succ_self _)
  rw [readPin, loop]
  dsimp only
  rw [record, inputs, Bool.or_false, if_neg (by simpa [Option.isNone_iff_eq_none] using output)]

/-- `readPin_connect` for a gate statement, also when its `;` ends the instance name. -/
theorem statementWords_connect {stmt pins : List Char} {r : ModuleRecord} (suffix : pins <:+ stmt)
    (fresh : Fresh r) (natural : 0 ≤ r.nIn) :
    match connect r (gateSlots r).length (statementWords stmt pins).1 with
    | .refused => TakesOwn (semicolon stmt).length ⟨r, 0, pins⟩ ∧ PinsFail ⟨r, 0, pins⟩
    | .done r' => TakesOwn (semicolon stmt).length ⟨r, 0, pins⟩ ∧
        ∃ t, Loop.Reaches readPinStep ⟨r, 0, pins⟩ t ∧ readPinStep t = .ok none ∧ t.record = r'
    | .short => ((∃ tok, nextWord (statementWords stmt pins).2 = .ok tok) →
          ¬ TakesOwn (semicolon stmt).length ⟨r, 0, pins⟩) ∧
        ((∀ tok, nextWord (statementWords stmt pins).2 ≠ .ok tok) →
          TakesOwn (semicolon stmt).length ⟨r, 0, pins⟩ ∧ PinsFail ⟨r, 0, pins⟩) := by
  have count : (0 : Int) + (gateSlots r).length = r.nIn + 1 := by
    rw [gateSlots_length, fresh.length]
    omega
  by_cases before : (semicolon stmt).length ≤ pins.length
  · rw [statementWords, if_pos before]
    have loop := readPin_connect (ownWords pins).1 ⟨r, 0, pins⟩ (ownWords pins).2 _ rfl count
    dsimp only at loop
    rwa [semicolon_of_suffix suffix before] at loop
  · rw [statementWords, if_neg before]
    have short : connect r (gateSlots r).length [] = .short := by
      rw [gateSlots_length]
      rfl
    rw [short]
    refine ⟨fun ⟨tok, run⟩ takes => ?_, fun none => ?_⟩
    · have left := (takes _ .refl (by dsimp only; omega) tok run).1
      have less : tok.rest.length < pins.length := nextWord_length run
      omega
    · obtain ⟨e, run⟩ := nextWord_error none
      exact takesOwn_error (readPinStep_noPin (by dsimp only; omega) run) (.of_noPin run)

/-- A record with a negative number of inputs has no output pin either. -/
theorem readPin_negative {r : ModuleRecord} (fresh : Fresh r) (negative : r.nIn < 0)
    (pins : List Char) (semi : Nat) :
    TakesOwn semi ⟨r, 0, pins⟩ ∧ ∃ e, readPin r pins = .error e := by
  have full : ¬ (0 : Int) < r.nIn + 1 := by omega
  refine ⟨(takesOwn_exit full).1, .error 2 r.nameIns, ?_⟩
  rw [readPin, fuelFor, Loop.exceptLoop, readPinStep_exit full]
  simp [fresh.outName]

/-- A gate statement is checked exactly when its own words are complete, or a wrong pin is among the
first ones, or nothing follows that could stand for the missing pins. -/
theorem readPin_checked_iff {text stmt pins : List Char} {r : ModuleRecord}
    (gate : GateStatement text stmt r pins) : StatementChecked text stmt r pins ↔
      r.nIn < 0 ∨ PinsComplete r (statementWords stmt pins).1 (statementWords stmt pins).2 := by
  obtain ⟨fresh, suffix⟩ := gate.suffix
  have stops : (∃ e, readPin r pins = .error e) →
      ∃ e, readPin r pins = .error e ∧ ReadFails text e :=
    fun ⟨e, fails⟩ => ⟨e, fails, gate.read2nd_error fails⟩
  by_cases negative : r.nIn < 0
  · obtain ⟨takes, fails⟩ := readPin_negative fresh negative pins (semicolon stmt).length
    exact ⟨fun _ => .inl negative, fun _ => ⟨takes, fun _ => stops fails⟩⟩
  · have loop := statementWords_connect suffix fresh (by omega)
    obtain ⟨refused, done, short⟩ :=
      connect_spec (statementWords stmt pins).1 r (gateSlots r).length
    unfold StatementChecked PinsComplete
    generalize (statementWords stmt pins).1 = words at *
    generalize (statementWords stmt pins).2 = stop at *
    rw [or_iff_right negative]
    by_cases distinct : PinsDistinct r ((connectedPins words).take (gateSlots r).length)
    · rw [or_iff_right (not_not_intro distinct)]
      have fits := (fresh.fits_iff _).mpr distinct
      by_cases enough : (gateSlots r).length ≤ (connectedPins words).length
      · obtain ⟨r', run, connects⟩ := done fits enough
        rw [run] at loop
        obtain ⟨takes, t, reached, exit, record⟩ := loop
        have taken : ((connectedPins words).take (gateSlots r).length).length =
            (gateSlots r).length := by
          rw [List.length_take]
          omega
        have accepted := readPin_ok reached exit connects record (distinct.count.2 taken)
        have le := (connectedPins_isPrefixOf words).length_le
        have noFewer : ¬ (connectedPins words).length < (gateSlots r).length := by omega
        rw [or_iff_left fun few => noFewer few.1]
        constructor
        · rintro ⟨-, checked⟩
          have wellFormed : ¬ Malformed r words := by
            intro malformed
            obtain ⟨e, fails, -⟩ := checked malformed
            rw [accepted] at fails
            cases fails
          have notMore : ¬ (gateSlots r).length < (namedPins words).length := fun more =>
            wellFormed (malformed_of_more more)
          omega
        · rintro ⟨connected, named⟩
          exact ⟨takes, fun malformed => absurd malformed (not_malformed distinct connected named)⟩
      · rw [short fits (by omega)] at loop
        constructor
        · rintro ⟨takes, -⟩
          refine .inr ⟨by omega, fun tok run => loop.1 ⟨tok, run⟩ takes⟩
        · rintro (⟨connected, -⟩ | ⟨-, none⟩)
          · omega
          · obtain ⟨takes, fails⟩ := loop.2 none
            exact ⟨takes, fun _ => stops (readPin_error fails)⟩
    · rw [refused (mt (fresh.fits_iff _).mp distinct)] at loop
      exact ⟨fun _ => .inl distinct, fun _ => ⟨loop.1, fun _ => stops (readPin_error loop.2)⟩⟩

/-- A gate that lacks a pin, in front of one whose name begins like that pin. -/
def missingPinText : List Char :=
  ("module m (a, b, z);\ninput a, b;\noutput z;\nAND2 U1 (.A(a));\n" ++
    "BUF U2 (.Z(z), .A(b));\nendmodule\n").toList

/-- A gate with its pins and one with a pin too many. -/
def extraPinText : List Char :=
  ("module m (a, b, z);\ninput a, b;\noutput z;\nAND2 U1 (.A(a), .B(b), .Z(y));\n" ++
    "AND2 U2 (.A(y), .B(b), .Z(z), .C(a));\nendmodule\n").toList

/-- The record of a two-input AND gate. -/
def and2Record (nameIns : String) : ModuleRecord := ⟨nameIns.toList, .AND, 2, none, [none, none]⟩

theorem missingPinText_gate : GateStatement missingPinText (missingPinText.drop 41) (and2Record "U1")
    (missingPinText.drop 50) := by
  have afterModule : read2ndStep 2 ⟨0, [], missingPinText⟩ =
      .ok (some ⟨0, [], missingPinText.drop 19⟩) := by decide +kernel
  have afterInput : read2ndStep 2 ⟨0, [], missingPinText.drop 19⟩ =
      .ok (some ⟨0, [], missingPinText.drop 31⟩) := by decide +kernel
  have afterOutput : read2ndStep 2 ⟨0, [], missingPinText.drop 31⟩ =
      .ok (some ⟨0, [], missingPinText.drop 41⟩) := by decide +kernel
  have reached := ((Loop.Reaches.refl.step afterModule).step afterInput).step afterOutput
  refine ⟨⟨2, 2, 1⟩, _, ⟨"AND".toList, 0, missingPinText.drop 47⟩, 2, ?_, reached, rfl, ?_, ?_, ?_, ?_⟩
  all_goals decide +kernel

theorem extraPinText_gates :
    GateStatement extraPinText (extraPinText.drop 41) (and2Record "U1") (extraPinText.drop 50) ∧
      GateStatement extraPinText (extraPinText.drop 72) (and2Record "U2") (extraPinText.drop 81) := by
  have afterModule : read2ndStep 2 ⟨0, [], extraPinText⟩ =
      .ok (some ⟨0, [], extraPinText.drop 19⟩) := by decide +kernel
  have afterInput : read2ndStep 2 ⟨0, [], extraPinText.drop 19⟩ =
      .ok (some ⟨0, [], extraPinText.drop 31⟩) := by decide +kernel
  have afterOutput : read2ndStep 2 ⟨0, [], extraPinText.drop 31⟩ =
      .ok (some ⟨0, [], extraPinText.drop 41⟩) := by decide +kernel
  have afterGate : read2ndStep 2 ⟨0, [], extraPinText.drop 41⟩ =
      .ok (some ⟨0, [⟨"U1".toList, .AND, 2, some "y".toList, [some "a".toList, some "b".toList]⟩],
        extraPinText.drop 72⟩) := by decide +kernel
  have reached := ((Loop.Reaches.refl.step afterModule).step afterInput).step afterOutput
  have counted : read1st extraPinText = .ok ⟨2, 2, 1⟩ := by decide +kernel
  constructor
  · refine ⟨⟨2, 2, 1⟩, _, ⟨"AND".toList, 0, extraPinText.drop 47⟩, 2, counted, reached,
      by dsimp only, ?_, ?_, ?_, ?_⟩
    all_goals decide +kernel
  · refine ⟨⟨2, 2, 1⟩, _, ⟨"AND".toList, 0, extraPinText.drop 78⟩, 2, counted, reached.step afterGate,
      by dsimp only, ?_, ?_, ?_, ?_⟩
    all_goals decide +kernel

/-- The second gate of the first text stands for the missing pin of the first one, and the pin too many
of the second text is not noticed. -/
theorem readPin_not_checked :
    (∃ stmt r pins, GateStatement missingPinText stmt r pins ∧
      ¬ StatementChecked missingPinText stmt r pins) ∧
    ∃ stmt r pins, GateStatement extraPinText stmt r pins ∧
      ¬ StatementChecked extraPinText stmt r pins := by
  constructor
  · refine ⟨_, _, _, missingPinText_gate, fun checked => ?_⟩
    have malformed : Malformed (and2Record "U1")
        (statementWords (missingPinText.drop 41) (missingPinText.drop 50)).1 := by
      unfold Malformed PinsDistinct
      decide +kernel
    obtain ⟨e, fails, -⟩ := checked.2 malformed
    have accepted : (readPin (and2Record "U1") (missingPinText.drop 50)).isOk = true := by
      decide +kernel
    rw [fails] at accepted
    cases accepted
  · refine ⟨_, _, _, extraPinText_gates.2, fun checked => ?_⟩
    have malformed : Malformed (and2Record "U2")
        (statementWords (extraPinText.drop 72) (extraPinText.drop 81)).1 := by
      unfold Malformed PinsDistinct
      decide +kernel
    obtain ⟨e, fails, -⟩ := checked.2 malformed
    have accepted : (readPin (and2Record "U2") (extraPinText.drop 81)).isOk = true := by
      decide +kernel
    rw [fails] at accepted
    cases accepted

/-- The first gate of the second text has exactly its pins. -/
theorem readPin_checked_and2 :
    GateStatement extraPinText (extraPinText.drop 41) (and2Record "U1") (extraPinText.drop 50) ∧
      StatementChecked extraPinText (extraPinText.drop 41) (and2Record "U1") (extraPinText.drop 50) := by
  have complete : PinsComplete (and2Record "U1")
      (statementWords (extraPinText.drop 41) (extraPinText.drop 50)).1
      (statementWords (extraPinText.drop 41) (extraPinText.drop 50)).2 := by
    right
    left
    decide +kernel
  exact ⟨extraPinText_gates.1, (readPin_checked_iff extraPinText_gates.1).mpr (.inr complete)⟩

end SafRprGen
