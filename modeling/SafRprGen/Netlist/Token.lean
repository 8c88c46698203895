/-
Module: SafRprGen.Netlist.Token
Layer: Netlist
Purpose: The tokens of a netlist file (`get_token` of `netlist.c`). What is left of the file is a list of
  bytes. The three passes over the file use three modes with different delimiters, and mode 2 also looks
  for the number of inputs behind a gate name.
Main exports: Stop, Token, getToken, getTypeToken, statementToken, skipStatement, nextWord
-/
import SafRprGen.Lib.CText
import SafRprGen.Netlist.Basic

namespace SafRprGen

open CText

/-- How reading a netlist stops: through `error`, at a token that is too long, or where the source uses a
pointer that nothing has set. -/
inductive Stop where
  | error (code : Nat) (s : CStr)
  | tokenTooLong
  | undefined
deriving DecidableEq, Repr

/-- `STR_MAX`. -/
def strMax : Nat := 1024

/-- The bytes skipped before a token. -/
def blank (ch : Char) : Bool := ch = ' ' || ch = '\t' || ch = '\n'

/-- What ends a token in mode 0. -/
def delimiter0 (ch : Char) : Bool :=
  ch ∈ ['\t', '\n', ' ', ';', '(', ')', ',', ':', '=', '.']

/-- What ends a token in mode 1. -/
def delimiter1 (ch : Char) : Bool := delimiter0 ch || ch = '[' || ch = ']'

/-- A token as a string, the result of `get_token`, and the rest of the file. -/
structure Token where
  str : CStr
  code : Int
  rest : List Char
deriving DecidableEq, Repr

/-- The result of `get_token` for a token of bytes `word` that `stop` ends. -/
def tokenCode (word : CStr) (stop : Option Char) : Int :=
  if stop = some ';' then if word.isEmpty then 2 else 1
  else if (word.takeWhile (· != Char.ofNat 0)).isEmpty then -2
  else 0

/-- `get_token` in mode 0 or 1; `none` is `EOF`. -/
def getToken (delimiter : Char → Bool) (text : List Char) : Except Stop (Option Token) :=
  let text := text.dropWhile blank
  if text.isEmpty then .ok none
  else
    let word := text.takeWhile fun ch => !delimiter ch
    let after := text.drop word.length
    if strMax ≤ word.length then .error .tokenTooLong
    else .ok (some ⟨word.takeWhile (· != Char.ofNat 0), tokenCode word after.head?, after.tail⟩)

/-- `get_token` in mode 2, with the number it leaves in `in_num`. Any byte but a blank or `;` behind the
letters is taken together with the one after it. -/
def getTypeToken (inNum : Int) (text : List Char) : Except Stop (Option (Token × Int)) :=
  let text := text.dropWhile blank
  if text.isEmpty then .ok none
  else
    let word := text.takeWhile Char.isAlpha
    let after := text.drop word.length
    if strMax ≤ word.length then .error .tokenTooLong
    else if !word.isEmpty && (after.head?.all fun ch => blank ch || ch = ';') then
      .ok (some (⟨word, tokenCode word after.head?, after.tail⟩, inNum))
    else
      let number := after.head?.toList ++
        (after.tail.head?.filter fun ch => ch != ' ' && ch != '\t').toList
      .ok (some (⟨word, tokenCode word after.tail.head?, after.tail.tail⟩, atoi number))

/-- `statement_token`. -/
def statementToken (delimiter : Char → Bool) (text : List Char) : Except Stop Token :=
  match getToken delimiter text with
  | .error e => .error e
  | .ok none => .error (.error 7 [])
  | .ok (some tok) => .ok tok

/-- `skip_statement`. -/
def skipStatement : List Char → Except Stop (List Char)
  | [] => .error (.error 7 [])
  | ch :: rest => if ch = ';' then .ok rest else skipStatement rest

/-- The loop `while (statement_token(..) != 0)`. -/
def nextWordFrom : Nat → List Char → Except Stop Token
  | 0, _ => .error .undefined
  | fuel + 1, text =>
      match statementToken delimiter0 text with
      | .error e => .error e
      | .ok tok => if tok.code = 0 then .ok tok else nextWordFrom fuel tok.rest

/-- The next token with code 0. -/
def nextWord (text : List Char) : Except Stop Token := nextWordFrom (text.length + 1) text

/-- The file from its first `;` on. -/
def semicolon (text : List Char) : List Char := text.dropWhile (· != ';')

/-! ### Tokens take something off the file -/

theorem semicolon_append {taken : List Char} (none : ';' ∉ taken) (rest : List Char) :
    semicolon (taken ++ rest) = semicolon rest := by
  unfold semicolon
  rw [List.dropWhile_append, List.dropWhile_eq_nil_iff.mpr]
  · rfl
  · intro ch mem
    simp only [bne_iff_ne, ne_eq]
    rintro rfl
    exact none mem

/-- A token is what stands between blanks and the next delimiter. -/
structure TokenAt (delimiter : Char → Bool) (text : List Char) (tok : Token) (taken : List Char) :
    Prop where
  split : text = taken ++ tok.rest
  nonempty : taken ≠ []
  word : ∃ blanks word stop, taken = blanks ++ word ++ stop.toList ∧ (∀ ch ∈ blanks, blank ch = true) ∧
    (∀ ch ∈ word, delimiter ch = false) ∧ (∀ ch ∈ stop, delimiter ch = true) ∧
    tok.str = word.takeWhile (· != Char.ofNat 0) ∧ tok.code = tokenCode word stop ∧ word.length < strMax

private theorem drop_takeWhile (p : Char → Bool) (text : List Char) :
    text.drop (text.takeWhile p).length = text.dropWhile p := by
  induction text with
  | nil => rfl
  | cons ch rest ih => by_cases here : p ch = true <;> simp [here, ih]

theorem getToken_spec {delimiter : Char → Bool} {text : List Char} {tok : Token}
    (got : getToken delimiter text = .ok (some tok)) : ∃ taken, TokenAt delimiter text tok taken := by
  unfold getToken at got
  dsimp only at got
  generalize here : text.dropWhile blank = body at got
  have front : text = text.takeWhile blank ++ body := by
    rw [← here, List.takeWhile_append_dropWhile]
  split at got
  · cases got
  · rename_i ne
    split at got
    · cases got
    · rename_i short
      cases got
      rw [drop_takeWhile]
      generalize rest : body.dropWhile (fun ch => !delimiter ch) = after
      have word : body = body.takeWhile (fun ch => !delimiter ch) ++ after := by
        rw [← rest, List.takeWhile_append_dropWhile]
      have stops : after = after.head?.toList ++ after.tail := by
        cases after <;> rfl
      refine ⟨text.takeWhile blank ++ body.takeWhile (fun ch => !delimiter ch) ++ after.head?.toList,
        ⟨?_, ?_, text.takeWhile blank, body.takeWhile (fun ch => !delimiter ch), after.head?, rfl,
          fun ch mem => List.mem_takeWhile_imp mem, fun ch mem => ?_, fun ch mem => ?_, rfl, rfl,
          by omega⟩⟩
      · conv_lhs => rw [front, word, stops]
        simp
      · intro empty
        rw [List.append_eq_nil_iff, List.append_eq_nil_iff] at empty
        have none : after = [] := by
          cases after with
          | nil => rfl
          | cons ch after => cases empty.2
        rw [word, empty.1.2, none] at ne
        exact ne rfl
      · have := List.mem_takeWhile_imp mem
        simpa using this
      · have first := List.head?_dropWhile_not (fun ch => !delimiter ch) body
        rw [rest, Option.mem_def.mp mem] at first
        simpa using first

theorem TokenAt.length_lt {delimiter : Char → Bool} {text taken : List Char} {tok : Token}
    (h : TokenAt delimiter text tok taken) : tok.rest.length < text.length := by
  have split := congrArg List.length h.split
  rw [List.length_append] at split
  have nonempty := List.length_pos_iff.mpr h.nonempty
  omega

theorem getToken_length {delimiter : Char → Bool} {text : List Char} {tok : Token}
    (got : getToken delimiter text = .ok (some tok)) : tok.rest.length < text.length := by
  obtain ⟨taken, h⟩ := getToken_spec got
  exact h.length_lt

/-- A token with result 1 or 2 takes the next `;`; any other token stays in front of it. -/
theorem TokenAt.semicolon_eq {delimiter : Char → Bool} (ends : delimiter ';' = true)
    {text taken : List Char} {tok : Token} (h : TokenAt delimiter text tok taken) :
    (tok.code = 1 ∨ tok.code = 2 → ';' ∈ taken ∧ semicolon text = ';' :: tok.rest) ∧
      (¬ (tok.code = 1 ∨ tok.code = 2) → ';' ∉ taken ∧ semicolon text = semicolon tok.rest) := by
  obtain ⟨split, -, blanks, word, stop, rfl, isBlank, inWord, isStop, -, code, -⟩ := h
  have before : ';' ∉ blanks ++ word := by
    intro mem
    rcases List.mem_append.mp mem with mem | mem
    · have := isBlank _ mem
      simp [blank] at this
    · rw [inWord _ mem] at ends
      cases ends
  have isCode : (tok.code = 1 ∨ tok.code = 2) ↔ stop = some ';' := by
    rw [code]
    unfold tokenCode
    by_cases here : stop = some ';'
    · rw [if_pos here]
      split <;> simp [here]
    · rw [if_neg here]
      split <;> simp [here]
  rw [isCode, split]
  constructor
  · rintro rfl
    refine ⟨by simp, ?_⟩
    rw [List.append_assoc (blanks ++ word), semicolon_append before]
    rfl
  · intro other
    have all : ';' ∉ blanks ++ word ++ stop.toList := by
      rw [List.mem_append, not_or]
      refine ⟨before, ?_⟩
      cases stop with
      | none => exact List.not_mem_nil
      | some ch =>
          simp only [Option.toList_some, List.mem_singleton]
          rintro rfl
          exact other rfl
    exact ⟨all, semicolon_append all _⟩

theorem statementToken_ok {delimiter : Char → Bool} {text : List Char} {tok : Token} :
    statementToken delimiter text = .ok tok ↔ getToken delimiter text = .ok (some tok) := by
  unfold statementToken
  cases got : getToken delimiter text with
  | error e => simp
  | ok r =>
      cases r with
      | none => simp
      | some t => simp

/-! ### Words -/

private theorem nextWordFrom_eq : ∀ {fuel fuel' : Nat} {text : List Char}, text.length < fuel →
    text.length < fuel' → nextWordFrom fuel text = nextWordFrom fuel' text := by
  intro fuel
  induction fuel with
  | zero => intro fuel' text low; omega
  | succ fuel ih =>
      intro fuel' text low low'
      cases fuel' with
      | zero => omega
      | succ fuel' =>
          unfold nextWordFrom
          cases got : statementToken delimiter0 text with
          | error e => rfl
          | ok tok =>
              have less := getToken_length (statementToken_ok.mp got)
              dsimp only
              split
              · rfl
              · exact ih (by omega) (by omega)

/-- `nextWord` skips a token whose result is not 0. -/
theorem nextWord_eq (text : List Char) : nextWord text =
    match statementToken delimiter0 text with
    | .error e => .error e
    | .ok tok => if tok.code = 0 then .ok tok else nextWord tok.rest := by
  conv_lhs => rw [nextWord, nextWordFrom]
  cases got : statementToken delimiter0 text with
  | error e => rfl
  | ok tok =>
      have less := getToken_length (statementToken_ok.mp got)
      dsimp only
      split
      · rfl
      · exact nextWordFrom_eq (by omega) (by omega)

/-- A word is a token of the text with result 0. -/
theorem nextWord_ok : ∀ {n : Nat} {text : List Char} {tok : Token}, text.length < n →
    nextWord text = .ok tok → tok.code = 0 ∧ tok.rest.length < text.length ∧
      ∃ taken, text = taken ++ tok.rest := by
  intro n
  induction n with
  | zero => intro text tok low; omega
  | succ n ih =>
      intro text tok low run
      rw [nextWord_eq] at run
      cases got : statementToken delimiter0 text with
      | error e =>
          rw [got] at run
          cases run
      | ok first =>
          rw [got] at run
          dsimp only at run
          obtain ⟨taken, h⟩ := getToken_spec (statementToken_ok.mp got)
          have less := h.length_lt
          split at run
          · rename_i zero
            cases run
            exact ⟨zero, less, taken, h.split⟩
          · obtain ⟨zero, less', taken', split'⟩ := ih (by omega) run
            refine ⟨zero, by omega, taken ++ taken', ?_⟩
            rw [List.append_assoc, ← split', ← h.split]

theorem nextWord_length {text : List Char} {tok : Token} (run : nextWord text = .ok tok) :
    tok.rest.length < text.length :=
  (nextWord_ok (Nat.lt_succ_self _) run).2.1

/-! ### Suffixes -/

theorem nextWord_suffix {text : List Char} {tok : Token} (run : nextWord text = .ok tok) :
    tok.rest <:+ text := by
  obtain ⟨taken, split⟩ := (nextWord_ok (Nat.lt_succ_self _) run).2.2
  exact ⟨taken, split.symm⟩

theorem statementToken_suffix {delimiter : Char → Bool} {text : List Char} {tok : Token}
    (run : statementToken delimiter text = .ok tok) : tok.rest <:+ text := by
  obtain ⟨taken, h⟩ := getToken_spec (statementToken_ok.mp run)
  exact ⟨taken, h.split.symm⟩

theorem getTypeToken_suffix {inNum inNum' : Int} {text : List Char} {tok : Token}
    (run : getTypeToken inNum text = .ok (some (tok, inNum'))) :
    tok.rest <:+ text ∧ tok.rest.length < text.length := by
  unfold getTypeToken at run
  dsimp only at run
  have blanks : text.dropWhile blank <:+ text := List.dropWhile_suffix _
  generalize text.dropWhile blank = body at run blanks
  split at run
  · cases run
  · rename_i nonempty
    split at run
    · cases run
    · have le := blanks.length_le
      have some : 0 < body.length := List.length_pos_iff.mpr (by simpa using nonempty)
      split at run
      · rename_i plain
        cases run
        refine ⟨(List.tail_suffix _).trans ((List.drop_suffix _ _).trans blanks), ?_⟩
        simp only [Bool.and_eq_true, Bool.not_eq_true', List.isEmpty_eq_false_iff] at plain
        have word := List.length_pos_iff.mpr plain.1
        rw [List.length_tail, List.length_drop]
        omega
      · cases run
        refine ⟨(List.tail_suffix _).trans
          ((List.tail_suffix _).trans ((List.drop_suffix _ _).trans blanks)), ?_⟩
        rw [List.length_tail, List.length_tail, List.length_drop]
        omega

theorem skipStatement_spec : ∀ {text rest : List Char}, skipStatement text = .ok rest →
    semicolon text = ';' :: rest := by
  intro text
  induction text with
  | nil => intro rest run; cases run
  | cons ch text ih =>
      intro rest run
      unfold skipStatement at run
      split at run
      · rename_i here
        subst here
        cases run
        rfl
      · rename_i other
        have skip : semicolon (ch :: text) = semicolon text := by simp [semicolon, other]
        rw [skip]
        exact ih run

theorem skipStatement_suffix {text rest : List Char} (run : skipStatement text = .ok rest) :
    rest <:+ text ∧ rest.length < text.length := by
  have found := skipStatement_spec run
  have suffix : semicolon text <:+ text := List.dropWhile_suffix _
  rw [found] at suffix
  refine ⟨(List.suffix_cons _ _).trans suffix, ?_⟩
  have := suffix.length_le
  rw [List.length_cons] at this
  omega

/-- Text that is cut off in front of the `;` has the same `;`. -/
theorem semicolon_of_suffix {text rest : List Char} (suffix : rest <:+ text)
    (before : (semicolon text).length ≤ rest.length) : semicolon rest = semicolon text := by
  obtain ⟨taken, rfl⟩ := suffix
  have none : ';' ∉ taken := by
    intro mem
    have longer : (semicolon (taken ++ rest)).length > rest.length := by
      unfold semicolon
      rw [List.dropWhile_append]
      split
      · rename_i empty
        have all := List.dropWhile_eq_nil_iff.mp (List.isEmpty_iff.mp empty) _ mem
        simp at all
      · rename_i some
        have := List.length_pos_iff.mpr (by simpa using some :
          taken.dropWhile (fun ch => ch != ';') ≠ [])
        rw [List.length_append]
        omega
    omega
  exact (semicolon_append none rest).symm

end SafRprGen
