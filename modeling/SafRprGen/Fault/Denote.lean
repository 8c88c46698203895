/-
Module: SafRprGen.Fault.Denote
Layer: Fault
Purpose: The fault that a line denotes. A line is normalised by `sscanf` and split by `strtok_r`, which do
  not stop at the same characters, and the name is looked up again. The line that `ReadFault` generates for a
  fault denotes that fault exactly when the name passes both and no other net is found by it.
Main exports: Plain, Legible, Denotes, normalise_words, createFaultNode_words, denotes_faultLine_iff
-/
import SafRprGen.Fault.FaultList

namespace SafRprGen

open CText

/-- What ends the name in `CreateFaultNode`. -/
def endsName (ch : Char) : Bool := ch ∈ [' ', '\t', '\r', '\n']

/-- What ends the type in `CreateFaultNode`. -/
def endsType (ch : Char) : Bool := ch ∈ [' ', '\n']

theorem isSpace_of_endsName {ch : Char} (ends : endsName ch = true) : isSpace ch = true := by
  have known : ch ∈ [' ', '\t', '\r', '\n'] := of_decide_eq_true ends
  simp only [List.mem_cons, List.not_mem_nil, or_false] at known
  rcases known with rfl | rfl | rfl | rfl <;> rfl

theorem isSpace_of_endsType {ch : Char} (ends : endsType ch = true) : isSpace ch = true := by
  have known : ch ∈ [' ', '\n'] := of_decide_eq_true ends
  simp only [List.mem_cons, List.not_mem_nil, or_false] at known
  rcases known with rfl | rfl <;> rfl

/-- A name without white space that `sscanf` reads in one piece. -/
structure Plain (name : CStr) : Prop where
  some : name ≠ []
  solid : ∀ ch ∈ name, isSpace ch = false
  short : name.length ≤ 499990

/-- A name that is read back: it is plain, or all of it is white space that `strtok_r` does not stop at, so
that `sscanf` leaves the line as it is. -/
def Legible (name : CStr) : Prop :=
  Plain name ∨ (name ≠ [] ∧ (∀ ch ∈ name, isSpace ch = true ∧ endsName ch = false) ∧ name.length ≤ 499995)

theorem Plain.of_endsName {name : CStr} (plain : Plain name) {ch : Char} (mem : ch ∈ name) :
    endsName ch = false := by
  cases ends : endsName ch with
  | false => rfl
  | true => exact (isSpace_of_endsName ends).symm.trans (plain.solid ch mem)

/-! ### Types -/

theorem parseFaultType_faultTypeName (m : FaultModel) (type : FaultType) :
    parseFaultType m (faultTypeName m type) = some type := by
  cases m <;> cases type <;> decide

theorem parseFaultType_eq_some {m : FaultModel} {token : CStr} {type : FaultType}
    (parsed : parseFaultType m token = some type) : token = faultTypeName m type := by
  unfold parseFaultType at parsed
  cases m with
  | SAF =>
      dsimp only at parsed
      split at parsed
      · cases parsed
        assumption
      · split at parsed
        · cases parsed
          assumption
        · cases parsed
  | TDF =>
      dsimp only at parsed
      split at parsed
      · cases parsed
        assumption
      · split at parsed
        · cases parsed
          assumption
        · cases parsed

theorem length_faultTypeName (m : FaultModel) (type : FaultType) : (faultTypeName m type).length = 3 := by
  cases m <;> cases type <;> rfl

theorem faultTypeName_solid (m : FaultModel) (type : FaultType) :
    ∀ ch ∈ faultTypeName m type, isSpace ch = false := by
  cases m <;> cases type <;> exact @of_decide_eq_true _ (List.decidableBAll _ _) (by decide)

theorem faultTypeName_endsType (m : FaultModel) (type : FaultType) :
    ∀ ch ∈ faultTypeName m type, endsType ch = false := by
  cases m <;> cases type <;> exact @of_decide_eq_true _ (List.decidableBAll _ _) (by decide)

theorem faultTypeName_ne_nil (m : FaultModel) (type : FaultType) : faultTypeName m type ≠ [] := by
  cases m <;> cases type <;> decide

/-! ### Lines -/

/-- Two words are put together with a tab. -/
theorem normalise_words {line name token rest rest' : CStr} (isName : FirstWord 499990 line name rest)
    (isToken : FirstWord 7 rest token rest') (someName : name ≠ []) (someToken : token ≠ []) :
    normalise line = name ++ '\t' :: (token ++ ['\n']) := by
  have first := (scanWord_eq_iff (by decide)).mpr isName
  have second := (scanWord_eq_iff (by decide)).mpr isToken
  have short : (name ++ '\t' :: token ++ ['\n']).length ≤ maxsizeBuffer - 1 := by
    have := isName.fits
    have := isToken.fits
    have size : maxsizeBuffer - 1 = 499999 := rfl
    simp only [List.length_append, List.length_cons, List.length_nil]
    omega
  have noEmpty : (name.isEmpty || token.isEmpty) = false := by
    cases name with
    | nil => exact absurd rfl someName
    | cons ch name =>
        cases token with
        | nil => exact absurd rfl someToken
        | cons ch' token => rfl
  unfold normalise
  rw [first]
  dsimp only
  rw [second]
  dsimp only
  rw [noEmpty, if_neg Bool.false_ne_true, List.take_of_length_le short, List.append_assoc, List.cons_append]

/-- Any other line is left as it is. -/
theorem normalise_unchanged {line name token rest rest' : CStr} (isName : FirstWord 499990 line name rest)
    (isToken : FirstWord 7 rest token rest') (none : name = [] ∨ token = []) : normalise line = line := by
  have first := (scanWord_eq_iff (by decide)).mpr isName
  have second := (scanWord_eq_iff (by decide)).mpr isToken
  have oneEmpty : (name.isEmpty || token.isEmpty) = true := by
    rcases none with rfl | rfl
    · rfl
    · rw [List.isEmpty_nil, Bool.or_true]
  unfold normalise
  rw [first]
  dsimp only
  rw [second]
  dsimp only
  rw [oneEmpty, if_pos rfl]

/-- The words of a line. -/
theorem exists_firstWord (width : Nat) (pos : 0 < width) (text : CStr) :
    ∃ word rest, FirstWord width text word rest :=
  ⟨_, _, (scanWord_eq_iff pos).mp rfl⟩

namespace Netlist

variable {c : Netlist} {m : FaultModel}

/-- The fault that a line denotes. -/
def Denotes (c : Netlist) (m : FaultModel) (line : CStr) (net : Nat) (type : FaultType) : Prop :=
  ∃ node, c.createFaultNode m (normalise line) = some node ∧ node.netptr = net ∧ node.type = type

/-- What `CreateFaultNode` makes of a name and a type. -/
theorem createFaultNode_words {name token after : CStr} (someName : name ≠ [])
    (solid : ∀ ch ∈ name, endsName ch = false) (someToken : token ≠ [])
    (solid' : ∀ ch ∈ token, endsType ch = false) (ends : ∀ ch ∈ after.head?, endsType ch = true) :
    c.createFaultNode m (name ++ '\t' :: (token ++ after)) =
      (parseFaultType m token).bind fun type => (c.findNetByName name).bind fun net =>
        match m with
        | .SAF => some ⟨name ++ '\t' :: (token ++ after), name, type, net, none⟩
        | .TDF => (c.peer1t net).map fun peer =>
            ⟨name ++ '\t' :: (token ++ after), name, type, net, some peer⟩ := by
  have first : strtok endsName (name ++ '\t' :: (token ++ after)) = some (name, token ++ after) :=
    strtok_eq_some_iff.mpr ⟨someName, solid, [], _, rfl, fun _ mem => (by cases mem), .inr ⟨'\t', rfl, rfl⟩⟩
  have second : ∃ rest, strtok endsType (token ++ after) = some (token, rest) := by
    cases after with
    | nil => exact ⟨[], strtok_eq_some_iff.mpr ⟨someToken, solid', [], [], rfl,
        fun _ mem => (by cases mem), .inl ⟨rfl, rfl⟩⟩⟩
    | cons d rest => exact ⟨rest, strtok_eq_some_iff.mpr ⟨someToken, solid', [], _, rfl,
        fun _ mem => (by cases mem), .inr ⟨d, ends d rfl, rfl⟩⟩⟩
  obtain ⟨rest, second⟩ := second
  have found : ∀ after' : CStr × CStr → Option FNODE,
      (strtok endsType (token ++ after)).bind after' = after' (token, rest) :=
    fun _ => second ▸ rfl
  unfold createFaultNode
  change (strtok endsName _).bind _ = _
  rw [first, Option.bind_some]
  exact found _

/-- The tokens of the line of a node. -/
theorem createFaultNode_tokens {buffer : CStr} {node : FNODE}
    (created : c.createFaultNode m buffer = some node) : ∃ context rest,
      strtok endsName buffer = some (node.name, context) ∧
      strtok endsType context = some (faultTypeName m node.type, rest) := by
  unfold createFaultNode at created
  obtain ⟨⟨name, context⟩, first, created⟩ := Option.bind_eq_some_iff.mp created
  obtain ⟨⟨token, rest⟩, second, created⟩ := Option.bind_eq_some_iff.mp created
  obtain ⟨type, parsed, created⟩ := Option.bind_eq_some_iff.mp created
  obtain ⟨net, -, created⟩ := Option.bind_eq_some_iff.mp created
  rw [parseFaultType_eq_some parsed] at second
  cases m with
  | SAF =>
      cases created
      exact ⟨context, rest, first, second⟩
  | TDF =>
      obtain ⟨peer, -, rfl⟩ := Option.map_eq_some_iff.mp created
      exact ⟨context, rest, first, second⟩

/-! ### The lines that are generated -/

/-- The line of a plain name is the name and the type. -/
theorem faultLine_plain {net : Nat} (plain : Plain (c.name net)) (type : FaultType) :
    c.faultLine m net type = c.name net ++ '\t' :: (faultTypeName m type ++ ['\n']) := by
  have short : (c.name net ++ '\t' :: faultTypeName m type ++ ['\n']).length ≤ maxsizeBuffer - 1 := by
    have := plain.short
    have size : maxsizeBuffer - 1 = 499999 := rfl
    simp only [List.length_append, List.length_cons, List.length_nil, length_faultTypeName]
    omega
  rw [faultLine, List.take_of_length_le short, List.append_assoc, List.cons_append]

/-- Words that are a plain name and a type, with white space before, between and behind them, are put
together as in the line that is generated. -/
theorem normalise_eq_faultLine {net : Nat} (plain : Plain (c.name net)) (type : FaultType)
    {before gap after : CStr} (isBefore : ∀ ch ∈ before, isSpace ch = true)
    (isGap : ∀ ch ∈ gap, isSpace ch = true) (someGap : gap ≠ [])
    (isAfter : ∀ ch ∈ after.head?, isSpace ch = true) :
    normalise (before ++ (c.name net ++ (gap ++ (faultTypeName m type ++ after)))) =
      c.faultLine m net type := by
  rw [faultLine_plain plain]
  have isName : FirstWord 499990 (before ++ (c.name net ++ (gap ++ (faultTypeName m type ++ after))))
      (c.name net) (gap ++ (faultTypeName m type ++ after)) := by
    refine ⟨⟨before, rfl, isBefore⟩, plain.solid, plain.short, fun _ ch first => ?_,
      fun none => absurd none plain.some⟩
    cases gap with
    | nil => exact absurd rfl someGap
    | cons x gap =>
        cases first
        exact isGap _ List.mem_cons_self
  have isToken : FirstWord 7 (gap ++ (faultTypeName m type ++ after)) (faultTypeName m type) after :=
    ⟨⟨gap, rfl, isGap⟩, faultTypeName_solid m type, by rw [length_faultTypeName]; decide,
      fun _ => isAfter, fun none => absurd none (faultTypeName_ne_nil m type)⟩
  exact normalise_words isName isToken plain.some (faultTypeName_ne_nil m type)

theorem normalise_faultLine {net : Nat} (plain : Plain (c.name net)) (type : FaultType) :
    normalise (c.faultLine m net type) = c.faultLine m net type := by
  have same : normalise ([] ++ (c.name net ++ (['\t'] ++ (faultTypeName m type ++ ['\n'])))) =
      c.faultLine m net type :=
    normalise_eq_faultLine plain type (fun _ mem => by cases mem) (List.forall_mem_singleton.mpr rfl)
      (List.cons_ne_nil _ _) (fun _ first => by cases first; rfl)
  rw [faultLine_plain plain] at same ⊢
  exact same

/-- In a line that is long enough the type is whole. -/
theorem faultLine_whole {net : Nat} (type : FaultType) (short : (c.name net).length ≤ 499995) :
    ∃ after, (∀ ch ∈ after, ch = '\n') ∧
      c.faultLine m net type = c.name net ++ '\t' :: (faultTypeName m type ++ after) := by
  have fits : (c.name net ++ '\t' :: faultTypeName m type).length ≤ maxsizeBuffer - 1 := by
    have size : maxsizeBuffer - 1 = 499999 := rfl
    simp only [List.length_append, List.length_cons, length_faultTypeName]
    omega
  refine ⟨['\n'].take (maxsizeBuffer - 1 - (c.name net ++ '\t' :: faultTypeName m type).length),
    fun ch mem => List.mem_singleton.mp (List.mem_of_mem_take mem), ?_⟩
  rw [faultLine, List.take_append, List.take_of_length_le fits, List.append_assoc, List.cons_append]

/-- White space at which the name does not end and a type behind it: the line is left as it is. -/
theorem normalise_white {net : Nat} {type : FaultType}
    (white : ∀ ch ∈ c.name net, isSpace ch = true ∧ endsName ch = false)
    (short : (c.name net).length ≤ 499995) : ∃ after, (∀ ch ∈ after, ch = '\n') ∧
      c.faultLine m net type = c.name net ++ '\t' :: (faultTypeName m type ++ after) ∧
      normalise (c.faultLine m net type) = c.faultLine m net type := by
  obtain ⟨after, newlines, line⟩ := faultLine_whole (m := m) type short
  have spaces : ∀ ch ∈ c.name net ++ ['\t'], isSpace ch = true := by
    intro ch mem
    rcases List.mem_append.mp mem with mem | mem
    · exact (white ch mem).1
    · rw [List.mem_singleton.mp mem]
      rfl
  have spaceAfter : ∀ ch ∈ after, isSpace ch = true := fun ch mem => by rw [newlines ch mem]; rfl
  refine ⟨after, newlines, line, ?_⟩
  have isName : FirstWord 499990 (c.faultLine m net type) (faultTypeName m type) after :=
    ⟨⟨c.name net ++ ['\t'], by rw [line]; simp, spaces⟩, faultTypeName_solid m type,
      by rw [length_faultTypeName]; decide, fun _ ch first => spaceAfter ch (List.mem_of_mem_head? first),
      fun none => absurd none (faultTypeName_ne_nil m type)⟩
  have isToken : FirstWord 7 after [] [] :=
    ⟨⟨after, by simp, spaceAfter⟩, fun _ mem => (by cases mem), Nat.zero_le _,
      fun _ _ first => (by cases first), fun _ => rfl⟩
  exact normalise_unchanged isName isToken (.inr rfl)

/-- The line of a legible name denotes the fault, if the name is found. -/
theorem denotes_faultLine {net : Nat} (legible : Legible (c.name net))
    (found : c.findNetByName (c.name net) = some net) (peer : m = .TDF → (c.peer1t net).isSome = true)
    (type : FaultType) : Denotes c m (c.faultLine m net type) net type := by
  have read : ∃ after, (∀ ch ∈ after.head?, endsType ch = true) ∧ c.name net ≠ [] ∧
      (∀ ch ∈ c.name net, endsName ch = false) ∧
      normalise (c.faultLine m net type) = c.name net ++ '\t' :: (faultTypeName m type ++ after) := by
    rcases legible with plain | ⟨someName, white, short⟩
    · refine ⟨['\n'], fun _ first => (by cases first; rfl), plain.some, fun ch => plain.of_endsName, ?_⟩
      rw [normalise_faultLine plain, faultLine_plain plain]
    · obtain ⟨after, newlines, line, same⟩ := @normalise_white c m net type white short
      refine ⟨after, fun ch first => ?_, someName, fun ch mem => (white ch mem).2, same.trans line⟩
      rw [newlines ch (List.mem_of_mem_head? first)]
      rfl
  obtain ⟨after, ends, someName, solid, line⟩ := read
  unfold Denotes
  rw [line, createFaultNode_words someName solid (faultTypeName_ne_nil m type)
    (faultTypeName_endsType m type) ends, parseFaultType_faultTypeName, Option.bind_some, found,
    Option.bind_some]
  cases m with
  | SAF => exact ⟨_, rfl, rfl, rfl⟩
  | TDF =>
      obtain ⟨first, isPeer⟩ := Option.isSome_iff_exists.mp (peer rfl)
      rw [isPeer]
      exact ⟨_, rfl, rfl, rfl⟩

/-- A line that denotes the fault it was generated for was read back from a legible name. -/
theorem Denotes.legible {net : Nat} {type : FaultType}
    (denotes : Denotes c m (c.faultLine m net type) net type) : Legible (c.name net) := by
  obtain ⟨node, created, rfl, rfl⟩ := denotes
  obtain ⟨-, named, -⟩ := createFaultNode_spec created
  obtain ⟨context, rest, isName, isType⟩ := createFaultNode_tokens created
  rw [← named] at isName
  obtain ⟨name, tail, firstName⟩ := exists_firstWord 499990 (by decide) (c.faultLine m node.netptr node.type)
  obtain ⟨token, tail', firstToken⟩ := exists_firstWord 7 (by decide) tail
  by_cases some : name ≠ [] ∧ token ≠ []
  · -- the name is the first word
    rw [normalise_words firstName firstToken some.1 some.2] at isName
    have first : strtok endsName (name ++ '\t' :: (token ++ ['\n'])) = .some (name, token ++ ['\n']) := by
      refine strtok_eq_some_iff.mpr ⟨some.1, fun ch mem => ?_, [], _, rfl, fun _ mem => (by cases mem),
        .inr ⟨'\t', rfl, rfl⟩⟩
      cases ends : endsName ch with
      | false => rfl
      | true => exact (isSpace_of_endsName ends).symm.trans (firstName.solid ch mem)
    rw [first, Option.some.injEq, Prod.mk.injEq] at isName
    left
    rw [← isName.1]
    exact ⟨some.1, firstName.solid, firstName.fits⟩
  · -- the line is not changed, and is one word in white space
    have one : name = [] ∨ token = [] := by
      rw [not_and_or, not_not, not_not] at some
      exact some
    rw [normalise_unchanged firstName firstToken one] at isName
    obtain ⟨someName, solid, before, after, line, delims, ends⟩ := strtok_eq_some_iff.mp isName
    obtain ⟨-, -, before', after', isContext, -, -⟩ := strtok_eq_some_iff.mp isType
    have long : (c.faultLine m node.netptr node.type).length ≤ maxsizeBuffer - 1 := List.length_take_le _ _
    have short : (c.name node.netptr).length ≤ 499995 := by
      have size : maxsizeBuffer - 1 = 499999 := rfl
      have typeLength := length_faultTypeName m node.type
      have contextLength := congrArg List.length isContext
      have lineLength := congrArg List.length line
      simp only [List.length_append] at contextLength lineLength
      rcases ends with ⟨rfl, rfl⟩ | ⟨d, -, rfl⟩
      · simp only [List.length_nil] at contextLength
        omega
      · simp only [List.length_cons] at lineLength
        omega
    obtain ⟨newline, -, whole⟩ := faultLine_whole (m := m) node.type short
    have spaces : ∀ ch ∈ tail, isSpace ch = true := by
      rcases one with rfl | rfl
      · rw [firstName.empty rfl]
        exact fun ch mem => by cases mem
      · obtain ⟨blanks, isTail, allBlank⟩ := firstToken.split
        rw [isTail, firstToken.empty rfl, List.append_nil, List.append_nil]
        exact allBlank
    have more : ∃ ch ∈ faultTypeName m node.type ++ newline, isSpace ch = false := by
      obtain ⟨ch, mem⟩ := List.exists_mem_of_ne_nil _ (faultTypeName_ne_nil m node.type)
      exact ⟨ch, List.mem_append_left _ mem, faultTypeName_solid m node.type ch mem⟩
    have white := firstName.white spaces '\t' rfl whole more
    exact .inr ⟨someName, fun ch mem => ⟨white ch mem, solid ch mem⟩, short⟩

end Netlist

end SafRprGen
