/-
Module: SafRprGen.Cli.SetFile
Layer: Cli
Purpose: A setting file and the arguments set the same options. The lines are cut at blanks by `strtok_r`,
  the arguments come one by one; for every file of the shape below, `OPTread` ends as `OPTset` on the
  options of its lines, with the same options or the same error.
Main exports: SetLine, SetLine.WellFormed, optRead_lines
-/
import SafRprGen.Cli.Options

namespace SafRprGen.Cli

open CText

/-! ### Lines -/

/-- A line of a setting file: one that is passed over, an option without a value, or an option, blanks,
the value and what follows it. -/
inductive SetLine where
  | comment (text : CStr)
  | flag (name tail : CStr)
  | setting (name gap value tail : CStr)

namespace SetLine

/-- The line without its newline. -/
def body : SetLine → CStr
  | .comment text => text
  | .flag name tail => name ++ tail
  | .setting name gap value tail => name ++ (gap ++ (value ++ tail))

/-- The line in the file. -/
def text (line : SetLine) : CStr := line.body ++ ['\n']

/-- The arguments that stand for the line. -/
def arguments : SetLine → List CStr
  | .comment _ => []
  | .flag name _ => [name]
  | .setting name _ value _ => [name, value]

end SetLine

/-- A text without white space. -/
structure Word (word : CStr) : Prop where
  some : word ≠ []
  solid : ∀ ch ∈ word, isSpace ch = false

/-- Blanks between an option and its value. A tab in front of a space would hide the name of a netlist. -/
def Gap (gap : CStr) : Prop :=
  ∃ spaces tabs, gap = List.replicate spaces ' ' ++ List.replicate tabs '\t' ∧ 0 < spaces + tabs

/-- What may follow: nothing, or a blank and anything. -/
def Tail (tail : CStr) : Prop := ∀ ch ∈ tail.head?, isDelim ch = true

theorem Tail.newline {tail : CStr} (ends : Tail tail) : Tail (tail ++ ['\n']) := by
  intro ch head
  cases tail with
  | nil =>
      cases head
      rfl
  | cons x tail =>
      cases head
      exact ends _ rfl

/-- The shape of a line. -/
def SetLine.Shape : SetLine → Prop
  | .comment text => text.head? ≠ some '-'
  | .flag name tail => (name = "-saf".toList ∨ name = "-tdf".toList) ∧ Tail tail
  | .setting name gap value tail => name.head? = some '-' ∧ Word name ∧ name ≠ "-saf".toList ∧
      name ≠ "-tdf".toList ∧ name ≠ "-set".toList ∧ Gap gap ∧ Word value ∧ Tail tail

/-- A line of the shape that fits into the buffer. -/
structure SetLine.WellFormed (line : SetLine) : Prop where
  shape : line.Shape
  whole : ∀ ch ∈ line.body, ch ≠ '\n' ∧ ch ≠ Char.ofNat 0
  fits : line.text.length < maxsizeBuffer

/-! ### `fgets` -/

theorem fgetsPieces_line {size room : Nat} {body : CStr} (whole : '\n' ∉ body) (fits : body.length < room)
    (rest : CStr) :
    fgetsPieces size room (body ++ '\n' :: rest) = (body ++ ['\n']) :: fgetsPieces size (size - 1) rest := by
  induction body generalizing room with
  | nil => simp [fgetsPieces]
  | cons ch body ih =>
      obtain ⟨ne, whole⟩ := not_or.mp fun h => whole (List.mem_cons.mpr h)
      rw [List.length_cons] at fits
      have more : ¬ room ≤ 1 := by omega
      have next := @ih (room - 1) whole (by omega)
      simp [fgetsPieces, next, more, Ne.symm ne]

/-- The lines come one by one. -/
theorem fgetsAll_lines {lines : List SetLine} (wf : ∀ line ∈ lines, line.WellFormed) :
    fgetsAll maxsizeBuffer (lines.flatMap SetLine.text) = lines.map SetLine.text := by
  have pieces : fgetsPieces maxsizeBuffer (maxsizeBuffer - 1) (lines.flatMap SetLine.text) =
      lines.map SetLine.text := by
    induction lines with
    | nil => rfl
    | cons line lines ih =>
        obtain ⟨first, rest⟩ := List.forall_mem_cons.mp wf
        have fits := first.fits
        rw [SetLine.text, List.length_append, List.length_singleton] at fits
        rw [List.flatMap_cons, List.map_cons, SetLine.text, List.append_assoc, List.singleton_append,
          fgetsPieces_line (fun mem => (first.whole _ mem).1 rfl) (by omega), ih rest]
  unfold fgetsAll
  rw [pieces, List.map_map]
  apply List.map_congr_left
  intro line mem
  rw [Function.comp_apply, List.takeWhile_eq_self_iff]
  intro ch inLine
  rw [bne_iff_ne]
  rcases List.mem_append.mp inLine with inBody | isEnd
  · exact ((wf line mem).whole ch inBody).2
  · rw [List.mem_singleton.mp isEnd]
    decide

/-! ### Tokens -/

theorem isSpace_of_isDelim {ch : Char} (delim : isDelim ch = true) : isSpace ch = true := by
  unfold isDelim at delim
  simp only [Bool.or_eq_true, decide_eq_true_eq] at delim
  rcases delim with ((rfl | rfl) | rfl) | rfl <;> decide

theorem Word.noDelim {word : CStr} (isWord : Word word) : ∀ ch ∈ word, isDelim ch = false := by
  intro ch mem
  by_contra delim
  rw [Bool.not_eq_false] at delim
  have space := isSpace_of_isDelim delim
  rw [isWord.solid ch mem] at space
  cases space

/-- The next token is the word behind the blanks. -/
theorem strtok_word {before word after : CStr} (blank : ∀ ch ∈ before, isDelim ch = true)
    (isWord : Word word)
    (ends : Tail after) : strtok isDelim (before ++ (word ++ after)) = some (word, after.tail) := by
  refine strtok_eq_some_iff.mpr ⟨isWord.some, isWord.noDelim, before, after, rfl, blank, ?_⟩
  cases after with
  | nil => exact .inl ⟨rfl, rfl⟩
  | cons d after => exact .inr ⟨d, ends d rfl, rfl⟩

/-- The blanks after the first one. -/
theorem Gap.uncons {gap : CStr} (isGap : Gap gap) : ∃ d spaces tabs, isDelim d = true ∧
    gap = d :: (List.replicate spaces ' ' ++ List.replicate tabs '\t') := by
  obtain ⟨spaces, tabs, rfl, some⟩ := isGap
  cases spaces with
  | succ spaces => exact ⟨' ', spaces, tabs, rfl, rfl⟩
  | zero =>
      cases tabs with
      | succ tabs => exact ⟨'\t', 0, tabs, rfl, rfl⟩
      | zero => cases some

theorem blank_replicate {spaces tabs : Nat} {ch : Char}
    (mem : ch ∈ List.replicate spaces ' ' ++ List.replicate tabs '\t') : ch = ' ' ∨ ch = '\t' := by
  rcases List.mem_append.mp mem with space | tab
  · exact .inl (List.eq_of_mem_replicate space)
  · exact .inr (List.eq_of_mem_replicate tab)

/-- The check looks at the first character that is not white space. -/
theorem checkOptionValue_context {name value before after : CStr} (white : ∀ ch ∈ before, isSpace ch = true)
    (isWord : Word value) :
    checkOptionValue name (some (before ++ (value ++ after))) = checkOptionValue name (some value) := by
  obtain ⟨some, solid⟩ := isWord
  cases value with
  | nil => exact absurd rfl some
  | cons ch value =>
      have isSolid := solid ch List.mem_cons_self
      have stop : ∀ x ∈ ((ch :: value) ++ after).head?, isSpace x = false := by
        intro x head
        cases head
        exact isSolid
      unfold checkOptionValue
      rw [Option.any_some, Option.any_some, dropWhile_append_stop white stop,
        List.dropWhile_cons_of_neg (by rw [isSolid]; decide)]
      rfl

theorem Word.noFirstDelim {word : CStr} (isWord : Word word) (isNet : Bool) :
    ∀ ch ∈ word, firstDelim isNet ch = false := by
  intro ch mem
  have solid := isWord.noDelim ch mem
  unfold isDelim at solid
  simp only [Bool.or_eq_false_iff] at solid
  unfold firstDelim
  rw [solid.2, solid.1.1.1, Bool.and_false]
  rfl

/-- When the first delimiters are passed over, blanks that are none of them and the value are left. -/
theorem dropWhile_firstDelim {value after : CStr} (spaces tabs : Nat) (isWord : Word value) (isNet : Bool) :
    ∃ blanks : CStr, (List.replicate spaces ' ' ++ List.replicate tabs '\t' ++ (value ++ after)).dropWhile
        (firstDelim isNet) = blanks ++ (value ++ after) ∧
      ∀ ch ∈ blanks, (ch = ' ' ∨ ch = '\t') ∧ firstDelim isNet ch = false := by
  have start : ∀ blanks : CStr, (∀ ch ∈ blanks, firstDelim isNet ch = false) →
      ∀ ch ∈ (blanks ++ (value ++ after)).head?, firstDelim isNet ch = false := by
    intro blanks blank ch head
    cases blanks with
    | cons x blanks =>
        cases head
        exact blank _ List.mem_cons_self
    | nil =>
        cases value with
        | nil => exact absurd rfl isWord.some
        | cons x value =>
            cases head
            exact isWord.noFirstDelim isNet _ List.mem_cons_self
  cases isNet with
  | false =>
      have blank : ∀ ch ∈ List.replicate spaces ' ' ++ List.replicate tabs '\t',
          (ch = ' ' ∨ ch = '\t') ∧ firstDelim false ch = false := by
        intro ch mem
        refine ⟨blank_replicate mem, ?_⟩
        rcases blank_replicate mem with rfl | rfl <;> rfl
      exact ⟨_, @dropWhile_append_stop _ [] _ (fun ch mem => (by cases mem))
        (start _ fun ch mem => (blank ch mem).2), blank⟩
  | true =>
      have blank : ∀ ch ∈ List.replicate tabs '\t', (ch = ' ' ∨ ch = '\t') ∧ firstDelim true ch = false := by
        intro ch mem
        rw [List.eq_of_mem_replicate mem]
        exact ⟨.inr rfl, rfl⟩
      refine ⟨_, ?_, blank⟩
      rw [List.append_assoc]
      refine dropWhile_append_stop (fun ch mem => ?_) (start _ fun ch mem => (blank ch mem).2)
      rw [List.eq_of_mem_replicate mem]
      rfl

/-- `OPTreadValue` finds the value behind the blanks. -/
theorem optReadValue_context {value after : CStr} (spaces tabs : Nat) (isWord : Word value)
    (ends : Tail after) (isNet : Bool) :
    optReadValue (List.replicate spaces ' ' ++ List.replicate tabs '\t' ++ (value ++ after))
      (firstDelim isNet) =
      .ok (some value) := by
  obtain ⟨blanks, isRest, blank⟩ := @dropWhile_firstDelim value after spaces tabs isWord isNet
  obtain ⟨first, more, isValue⟩ := List.exists_cons_of_ne_nil isWord.some
  -- the token ends behind the value
  have isToken : (blanks ++ (value ++ after)).takeWhile (fun ch => !firstDelim isNet ch) =
      blanks ++ (value ++ after.takeWhile fun ch => !firstDelim isNet ch) := by
    rw [List.takeWhile_append_of_pos (fun ch mem => by rw [(blank ch mem).2]; rfl),
      List.takeWhile_append_of_pos (fun ch mem => by rw [isWord.noFirstDelim isNet ch mem]; rfl)]
  have ends' : Tail (after.takeWhile fun ch => !firstDelim isNet ch) := by
    intro ch head
    cases after with
    | nil => cases head
    | cons x after =>
        rw [List.takeWhile_cons] at head
        split at head
        · cases head
          exact ends _ rfl
        · cases head
  have isText : (blanks ++ (value ++ after.takeWhile fun ch => !firstDelim isNet ch)).dropWhile
      (fun ch => decide (ch = ' ') || decide (ch = '\t')) =
        value ++ after.takeWhile fun ch => !firstDelim isNet ch := by
    refine dropWhile_append_stop (fun ch mem => ?_) fun ch head => ?_
    · rcases (blank ch mem).1 with rfl | rfl <;> rfl
    · rw [isValue] at head
      cases head
      have solid := isWord.noDelim first (isValue ▸ List.mem_cons_self)
      unfold isDelim at solid
      simp only [Bool.or_eq_false_iff] at solid
      rw [solid.1.1.1, solid.1.1.2]
      rfl
  have some : (blanks ++ (value ++ after)).isEmpty = false := by
    rw [isValue]
    cases blanks <;> rfl
  have token : ∃ rest, strtok (firstDelim isNet)
      (List.replicate spaces ' ' ++ List.replicate tabs '\t' ++ (value ++ after)) =
        Option.some (blanks ++ (value ++ after.takeWhile fun ch => !firstDelim isNet ch), rest) := by
    unfold strtok
    dsimp only
    rw [isRest, some, if_neg Bool.false_ne_true, isToken]
    exact ⟨_, rfl⟩
  have found := @strtok_word [] _ _ (fun ch mem => (by cases mem)) isWord ends'
  obtain ⟨rest, token⟩ := token
  unfold optReadValue
  rw [token]
  dsimp only
  rw [isText]
  split
  · rename_i none
    rw [isValue] at none
    cases none
  · rw [List.nil_append] at found
    rw [found]

/-! ### One line -/

section Lines

variable (gmp : Gmp) (files : CStr → Option CStr) (o : OPTION)

/-- A line that is passed over. -/
theorem optReadLine_comment {text : CStr} (other : text.head? ≠ some '-') :
    optReadLine gmp o (SetLine.comment text).text = .ok o := by
  unfold optReadLine SetLine.text SetLine.body
  rw [if_neg]
  cases text with
  | nil => decide
  | cons ch text => exact other

/-- A fault model: the argument after it is not taken. -/
theorem optReadLine_flag {name tail : CStr} (isFlag : name = "-saf".toList ∨ name = "-tdf".toList)
    (ends : Tail tail) (next : Option CStr) :
    optSetPass gmp files o name next =
      (optReadLine gmp o (SetLine.flag name tail).text).map fun o => (o, false) := by
  have isWord : Word name := by
    rcases isFlag with rfl | rfl
    · exact ⟨by decide, @of_decide_eq_true _ (List.decidableBAll _ _) (by decide)⟩
    · exact ⟨by decide, @of_decide_eq_true _ (List.decidableBAll _ _) (by decide)⟩
  have found := @strtok_word [] _ _ (fun ch mem => (by cases mem)) isWord ends.newline
  rw [List.nil_append] at found
  unfold optReadLine SetLine.text SetLine.body
  rw [List.append_assoc, found]
  rcases isFlag with rfl | rfl <;> rfl

/-- Whether an option is a path does not depend on the path. -/
theorem setPath_isNone (name : CStr) (path path' : Option CStr) :
    (setPath o name path).isNone = (setPath o name path').isNone := by
  unfold setPath
  repeat
    split
    · rfl
  rfl

/-- An option with its value: both arguments are taken. -/
theorem optReadLine_setting {name gap value tail : CStr}
    (shape : (SetLine.setting name gap value tail).Shape) :
    optSetPass gmp files o name (some value) =
      (optReadLine gmp o (SetLine.setting name gap value tail).text).map fun o => (o, true) := by
  obtain ⟨dash, isName, notSaf, notTdf, notSet, isGap, isValue, ends⟩ := shape
  obtain ⟨d, spaces, tabs, delim, rfl⟩ := isGap.uncons
  have blank : ∀ ch ∈ List.replicate spaces ' ' ++ List.replicate tabs '\t', isDelim ch = true := by
    intro ch mem
    rcases blank_replicate mem with rfl | rfl <;> rfl
  -- the two tokens of the line
  have first := @strtok_word [] name (d :: (List.replicate spaces ' ' ++ List.replicate tabs '\t' ++
    (value ++ (tail ++ ['\n'])))) (fun ch mem => (by cases mem)) isName fun ch head => by
      cases head
      exact delim
  have second :=
    @strtok_word (List.replicate spaces ' ' ++ List.replicate tabs '\t') _ _ blank isValue ends.newline
  have check := @checkOptionValue_context name value (List.replicate spaces ' ' ++ List.replicate tabs '\t')
    (tail ++ ['\n']) (fun ch mem => isSpace_of_isDelim (blank ch mem)) isValue
  have path := optReadValue_context spaces tabs isValue ends.newline (name = "-net".toList)
  rw [List.nil_append, List.tail_cons] at first
  have text :
      (SetLine.setting name (d :: (List.replicate spaces ' ' ++ List.replicate tabs '\t')) value tail).text =
      name ++ d :: (List.replicate spaces ' ' ++ List.replicate tabs '\t' ++
        (value ++ (tail ++ ['\n']))) := by
    unfold SetLine.text SetLine.body
    simp only [List.append_assoc, List.cons_append]
  have begins : (name ++ d :: (List.replicate spaces ' ' ++ List.replicate tabs '\t' ++
      (value ++ (tail ++ ['\n'])))).head? = some '-' := by
    rw [List.head?_append, dash]
    rfl
  unfold optSetPass optReadLine
  rw [text, begins, if_pos rfl, first]
  dsimp only
  rw [second, Option.map_some, check, if_neg notSaf, if_neg notSaf, if_neg notTdf, if_neg notTdf,
    if_neg notSet, path]
  dsimp only
  generalize ((isPathOption name || decide (name = "-limit".toList)) && !checkOptionValue name
    (some value)) = bad
  cases bad with
  | true => rfl
  | false =>
      rw [if_neg Bool.false_ne_true, if_neg Bool.false_ne_true]
      cases common : setCommonOption gmp o name (some value) with
      | some result => rfl
      | none =>
          dsimp only
          by_cases limit : name = "-limit".toList
          · rw [if_pos limit, if_pos limit]
          · rw [if_neg limit, if_neg limit, setPath_isNone o name none (some value)]
            cases set : setPath o name (some value) with
            | none => rfl
            | some o' =>
                simp only [Option.isNone_some, Bool.false_eq_true, if_false, Except.bind,
                  Bool.and_false, set]
                rfl

end Lines

/-! ### The file -/

/-- The loop over the lines is the loop over their arguments. -/
theorem foldlM_lines (gmp : Gmp) (files : CStr → Option CStr) {lines : List SetLine}
    (wf : ∀ line ∈ lines, line.WellFormed) (o : OPTION) :
    (lines.map SetLine.text).foldlM (optReadLine gmp) o =
      optSet gmp files (lines.flatMap SetLine.arguments) o := by
  induction lines generalizing o with
  | nil => rfl
  | cons line lines ih =>
      obtain ⟨first, rest⟩ := List.forall_mem_cons.mp wf
      rw [List.map_cons, List.foldlM_cons, List.flatMap_cons]
      have shape := first.shape
      cases line with
      | comment text =>
          rw [optReadLine_comment gmp o shape]
          exact ih rest o
      | flag name tail =>
          change _ = optSet gmp files (name :: lines.flatMap SetLine.arguments) o
          have pass := optReadLine_flag gmp files o shape.1 shape.2
          have ih := ih rest
          cases more : lines.flatMap SetLine.arguments with
          | nil =>
              rw [optSet, pass]
              cases optReadLine gmp o (SetLine.flag name tail).text with
              | error e => rfl
              | ok o' =>
                  apply (ih o').trans
                  rw [more]
                  rfl
          | cons next arguments =>
              rw [optSet, pass]
              cases optReadLine gmp o (SetLine.flag name tail).text with
              | error e => rfl
              | ok o' =>
                  apply (ih o').trans
                  rw [more]
                  rfl
      | setting name gap value tail =>
          change _ = optSet gmp files (name :: value :: lines.flatMap SetLine.arguments) o
          rw [optSet, optReadLine_setting gmp files o shape]
          cases optReadLine gmp o (SetLine.setting name gap value tail).text with
          | error e => rfl
          | ok o' => exact ih rest o'

/-- A setting file and the arguments: reading a file of settings ends as taking the options of its lines from
the arguments would, with the same options or with the same error. -/
theorem optRead_lines (gmp : Gmp) (files : CStr → Option CStr) (filename : CStr)
    (lines : List SetLine) (wf : ∀ line ∈ lines, line.WellFormed)
    (isFile : files filename = some (lines.flatMap SetLine.text)) (o : OPTION) :
    optRead gmp files o filename = optSet gmp files (lines.flatMap SetLine.arguments) o := by
  unfold optRead
  rw [isFile]
  dsimp only
  rw [fgetsAll_lines wf]
  exact foldlM_lines gmp files wf o

/-- The lines of a setting file. -/
def runLines : List SetLine :=
  [.comment "# netlist".toList, .setting "-net".toList "  ".toList "c17.v".toList "\r".toList,
    .flag "-saf".toList " # stuck-at".toList, .setting "-jobs".toList "\t".toList "0".toList []]

theorem optRead_lines_run : (∀ line ∈ runLines, line.WellFormed) ∧
    optRead oneHalf (fun filename => if filename = "run.set".toList then
        some (runLines.flatMap SetLine.text) else none) optInit "run.set".toList =
      optSet oneHalf (fun filename => if filename = "run.set".toList then
        some (runLines.flatMap SetLine.text) else none) (runLines.flatMap SetLine.arguments) optInit := by
  have name : ∀ word ∈ ["-net".toList, "c17.v".toList, "-jobs".toList, "0".toList], Word word := by
    intro word mem
    simp only [List.mem_cons, List.not_mem_nil, or_false] at mem
    rcases mem with rfl | rfl | rfl | rfl
    all_goals exact ⟨by decide, @of_decide_eq_true _ (List.decidableBAll _ _) (by decide)⟩
  have whole : ∀ line ∈ runLines, line.body.all (fun ch => ch != '\n' && ch != Char.ofNat 0) = true ∧
      line.text.length < maxsizeBuffer := by decide
  have shape : ∀ line ∈ runLines, line.Shape := by
    intro line mem
    simp only [runLines, List.mem_cons, List.not_mem_nil, or_false] at mem
    rcases mem with rfl | rfl | rfl | rfl
    · change "# netlist".toList.head? ≠ some '-'
      decide
    · exact ⟨rfl, name _ (by decide), by decide, by decide, by decide, ⟨2, 0, rfl, by decide⟩,
        name _ (by decide), fun ch head => by cases head; rfl⟩
    · exact ⟨.inl rfl, fun ch head => by cases head; rfl⟩
    · exact ⟨rfl, name _ (by decide), by decide, by decide, by decide, ⟨0, 1, rfl, by decide⟩,
        name _ (by decide), fun ch head => by cases head⟩
  have wf : ∀ line ∈ runLines, line.WellFormed := fun line mem =>
    ⟨shape line mem, by simpa using (whole line mem).1, (whole line mem).2⟩
  exact ⟨wf, optRead_lines _ _ _ _ wf rfl _⟩

end SafRprGen.Cli
