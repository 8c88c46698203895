/-
Module: SafRprGen.Lib.CText
Layer: Lib
Purpose: The C library on texts, as lists of bytes without the terminating NUL: white space, the lines that
  `getline` returns, words and tokens, splitting at the first or last occurrence of a character, and
  `bsearch`.
Main exports: isSpace, getlines, strip, Stripped, stripped_iff, FirstWord, scanWord_eq_iff,
  strtok_eq_some_iff, splitLast, splitLast_spec, bsearch, bsearch_spec
-/
import SafRprGen.Lib.Loop
import Mathlib.Data.List.DropRight
import Mathlib.Data.List.TakeWhile
import Mathlib.Order.Basic

namespace CText

/-- `isspace` in the C locale. -/
def isSpace (ch : Char) : Bool := ch = ' ' || decide (9 ≤ ch.val ∧ ch.val ≤ 13)

/-- The lines of a file, each with its newline; the last one may lack it. -/
def getlines : List Char → List (List Char)
  | [] => []
  | ch :: rest =>
      if ch = '\n' then ['\n'] :: getlines rest
      else
        match getlines rest with
        | [] => [[ch]]
        | line :: lines => (ch :: line) :: lines

/-- A line ends at its newline. -/
theorem getlines_line {line : List Char} (whole : '\n' ∉ line) (rest : List Char) :
    getlines (line ++ '\n' :: rest) = (line ++ ['\n']) :: getlines rest := by
  induction line with
  | nil => simp [getlines]
  | cons ch line ih =>
      obtain ⟨ne, whole⟩ := not_or.mp fun h => whole (List.mem_cons.mpr h)
      simp [getlines, ih whole, Ne.symm ne]

/-- The pieces `fgets` reads through a buffer of `size` bytes: lines with their newline, longer ones
broken when the buffer is full; `room` is what is left for the current piece. -/
def fgetsPieces (size : Nat) : Nat → List Char → List (List Char)
  | _, [] => []
  | room, ch :: rest =>
      if ch = '\n' || decide (room ≤ 1) then [ch] :: fgetsPieces size (size - 1) rest
      else
        match fgetsPieces size (room - 1) rest with
        | [] => [[ch]]
        | piece :: pieces => (ch :: piece) :: pieces

/-- The strings left in the buffer of `fgets`, which end at the first NUL. -/
def fgetsAll (size : Nat) (text : List Char) : List (List Char) :=
  (fgetsPieces size (size - 1) text).map fun piece => piece.takeWhile (· != Char.ofNat 0)

/-- A `%s` of `sscanf` with a field width: the word after any white space, and the rest. -/
def scanWord (width : Nat) (text : List Char) : List Char × List Char :=
  let rest := text.dropWhile isSpace
  let word := (rest.take width).takeWhile fun ch => !isSpace ch
  (word, rest.drop word.length)

/-- `strtok_r`: the next token and what follows the delimiter that ends it. -/
def strtok (delim : Char → Bool) (text : List Char) : Option (List Char × List Char) :=
  let rest := text.dropWhile delim
  if rest.isEmpty then none
  else
    let token := rest.takeWhile fun ch => !delim ch
    some (token, rest.drop (token.length + 1))

/-- The value of a run of decimal digits. -/
def digits (text : List Char) : Nat :=
  (text.takeWhile Char.isDigit).foldl (fun value ch => value * 10 + (ch.toNat - '0'.toNat)) 0

/-- `atoi`. -/
def atoi (text : List Char) : Int :=
  match text.dropWhile isSpace with
  | '-' :: rest => -(digits rest : Int)
  | '+' :: rest => digits rest
  | rest => digits rest

/-! ### Trimming -/

/-- The text without leading and trailing white space. -/
def strip (text : List Char) : List Char := (text.dropWhile isSpace).rdropWhile isSpace

/-- `core` is the text between white space that does not begin or end with white space. -/
structure Stripped (text core : List Char) : Prop where
  split : ∃ before after, text = before ++ core ++ after ∧
    (∀ ch ∈ before, isSpace ch = true) ∧ ∀ ch ∈ after, isSpace ch = true
  head : ∀ ch ∈ core.head?, isSpace ch = false
  last : ∀ ch ∈ core.getLast?, isSpace ch = false

theorem stripped_strip (text : List Char) : Stripped text (strip text) where
  split := by
    refine ⟨text.takeWhile isSpace, (text.dropWhile isSpace).rtakeWhile isSpace, ?_, ?_, ?_⟩
    · rw [List.append_assoc, strip, List.rdropWhile_append_rtakeWhile, List.takeWhile_append_dropWhile]
    · exact fun ch h => List.mem_takeWhile_imp h
    · intro ch h
      exact List.mem_rtakeWhile_imp h
  head := by
    intro ch h
    have first : ch ∈ (text.dropWhile isSpace).head? := by
      obtain ⟨tail, here⟩ := List.rdropWhile_prefix isSpace (text.dropWhile isSpace)
      unfold strip at h
      cases core : (text.dropWhile isSpace).rdropWhile isSpace with
      | nil =>
          rw [core] at h
          cases h
      | cons x rest =>
          rw [core] at h here
          rw [← here]
          exact h
    have := List.head?_dropWhile_not isSpace text
    rw [Option.mem_def.mp first] at this
    simpa using this
  last := by
    intro ch h
    obtain ⟨ne, rfl⟩ := List.mem_getLast?_eq_getLast h
    exact Bool.not_eq_true _ ▸ List.rdropWhile_last_not isSpace _ ne

/-- There is only one such text. -/
theorem stripped_iff {text core : List Char} : Stripped text core ↔ strip text = core := by
  refine ⟨?_, fun h => h ▸ stripped_strip text⟩
  rintro ⟨⟨before, after, rfl, spaceB, spaceA⟩, head, last⟩
  have skip : ∀ rest : List Char, (before ++ rest).dropWhile isSpace = rest.dropWhile isSpace := by
    intro rest
    rw [List.dropWhile_append, List.dropWhile_eq_nil_iff.mpr spaceB]
    rfl
  unfold strip
  rw [List.append_assoc, skip]
  cases core with
  | nil =>
      rw [List.nil_append, List.dropWhile_eq_nil_iff.mpr spaceA]
      rfl
  | cons ch rest =>
      have start : ¬ isSpace ch = true := by
        rw [head ch rfl]
        decide
      rw [List.cons_append, List.dropWhile_cons_of_neg start, ← List.cons_append]
      induction after using List.reverseRecOn with
      | nil =>
          rw [List.append_nil, List.rdropWhile_eq_self_iff]
          intro ne
          rw [last _ (List.getLast?_eq_getLast_of_ne_nil ne)]
          decide
      | append_singleton after ch' ih =>
          rw [← List.append_assoc, List.rdropWhile_concat_pos _ _ _ (spaceA ch' (by simp))]
          exact ih fun x hx => spaceA x (List.mem_append_left _ hx)

/-! ### Words -/

/-- `word` is the first word of the text, as far as it fits into the width, and `rest` what follows. -/
structure FirstWord (width : Nat) (text word rest : List Char) : Prop where
  split : ∃ before, text = before ++ (word ++ rest) ∧ ∀ ch ∈ before, isSpace ch = true
  solid : ∀ ch ∈ word, isSpace ch = false
  fits : word.length ≤ width
  ends : word.length < width → ∀ ch ∈ rest.head?, isSpace ch = true
  empty : word = [] → rest = []

/-- What stands in front of a text that begins otherwise is dropped. -/
theorem dropWhile_append_stop {p : Char → Bool} {before rest : List Char} (all : ∀ ch ∈ before, p ch = true)
    (stop : ∀ ch ∈ rest.head?, p ch = false) : (before ++ rest).dropWhile p = rest := by
  rw [List.dropWhile_append, List.dropWhile_eq_nil_iff.mpr all]
  cases rest with
  | nil => rfl
  | cons ch rest => exact List.dropWhile_cons_of_neg (by rw [stop ch rfl]; decide)

/-- What stands in front of a text that begins otherwise is taken. -/
theorem takeWhile_append_stop {p : Char → Bool} {word rest : List Char} (all : ∀ ch ∈ word, p ch = true)
    (stop : ∀ ch ∈ rest.head?, p ch = false) : (word ++ rest).takeWhile p = word := by
  rw [List.takeWhile_append_of_pos all]
  cases rest with
  | nil => simp
  | cons ch rest =>
      rw [List.takeWhile_cons_of_neg (by rw [stop ch rfl]; decide), List.append_nil]

theorem head?_dropWhile {p : Char → Bool} {text : List Char} {ch : Char}
    (head : ch ∈ (text.dropWhile p).head?) : p ch = false := by
  have first := List.head?_dropWhile_not p text
  rw [Option.mem_def.mp head] at first
  simpa using first

theorem scanWord_eq_iff {width : Nat} (pos : 0 < width) {text word rest : List Char} :
    scanWord width text = (word, rest) ↔ FirstWord width text word rest := by
  constructor
  · intro scanned
    have parts := List.takeWhile_append_dropWhile (p := isSpace) (l := text)
    have head : ∀ ch ∈ (text.dropWhile isSpace).head?, isSpace ch = false := fun ch => head?_dropWhile
    unfold scanWord at scanned
    dsimp only at scanned
    generalize text.dropWhile isSpace = solid at parts head scanned
    rw [Prod.mk.injEq] at scanned
    obtain ⟨isWord, isRest⟩ := scanned
    have start : word <+: solid := by
      rw [← isWord]
      exact (List.takeWhile_prefix _).trans (List.take_prefix _ _)
    obtain ⟨tail, isTail⟩ := start
    have same : rest = tail := by
      rw [← isRest, isWord, ← isTail, List.drop_left]
    subst same
    have taken : solid.take width = word ++ rest.take (width - word.length) := by
      have short : word.length ≤ width := by
        rw [← isWord]
        exact (List.takeWhile_prefix _).length_le.trans (List.length_take_le _ _)
      rw [← isTail, List.take_append, List.take_of_length_le short]
    have solidWord : ∀ ch ∈ word, isSpace ch = false := by
      intro ch mem
      rw [← isWord] at mem
      simpa using List.mem_takeWhile_imp mem
    refine ⟨⟨text.takeWhile isSpace, ?_, fun ch => List.mem_takeWhile_imp⟩, solidWord, ?_, ?_, ?_⟩
    · rw [isTail]
      exact parts.symm
    · rw [← isWord]
      exact (List.takeWhile_prefix _).length_le.trans (List.length_take_le _ _)
    · intro short ch first
      rw [taken, List.takeWhile_append_of_pos (by simpa using solidWord)] at isWord
      cases rest with
      | nil => cases first
      | cons x rest =>
          cases first
          have none := List.append_right_eq_self.mp isWord
          obtain ⟨k, room⟩ : ∃ k, width - word.length = k + 1 := ⟨width - word.length - 1, by omega⟩
          rw [room, List.take_succ_cons] at none
          by_contra notSpace
          rw [List.takeWhile_cons_of_pos (by simpa using notSpace)] at none
          cases none
    · rintro rfl
      cases rest with
      | nil => rfl
      | cons x rest =>
          obtain ⟨k, rfl⟩ : ∃ k, width = k + 1 := ⟨width - 1, by omega⟩
          rw [List.nil_append] at isTail
          rw [← isTail] at head isWord
          rw [List.take_succ_cons, List.takeWhile_cons_of_pos (by rw [head x rfl]; decide)] at isWord
          cases isWord
  · rintro ⟨⟨before, rfl, spaces⟩, solid, fits, ends, empty⟩
    have begins : ∀ ch ∈ (word ++ rest).head?, isSpace ch = false := by
      intro ch first
      cases word with
      | nil =>
          rw [empty rfl] at first
          cases first
      | cons x word =>
          cases first
          exact solid _ List.mem_cons_self
    have taken : ((word ++ rest).take width).takeWhile (fun ch => !isSpace ch) = word := by
      rw [List.take_append, List.take_of_length_le fits]
      apply takeWhile_append_stop (fun ch mem => by rw [solid ch mem]; rfl)
      intro ch first
      by_cases full : word.length = width
      · rw [full, Nat.sub_self, List.take_zero] at first
        cases first
      · cases rest with
        | nil =>
            rw [List.take_nil] at first
            cases first
        | cons x rest =>
            obtain ⟨k, room⟩ : ∃ k, width - word.length = k + 1 := ⟨width - word.length - 1, by omega⟩
            rw [room, List.take_succ_cons] at first
            cases first
            rw [ends (by omega) _ rfl]
            rfl
    unfold scanWord
    dsimp only
    rw [dropWhile_append_stop spaces begins, taken, List.drop_left]

/-- In a text that is one word in white space, a part in front of white space with more of the word behind it
is white space. -/
theorem FirstWord.white {width : Nat} {text word rest front back : List Char}
    (first : FirstWord width text word rest) (spaces : ∀ ch ∈ rest, isSpace ch = true) (gap : Char)
    (isGap : isSpace gap = true) (split : text = front ++ gap :: back)
    (more : ∃ ch ∈ back, isSpace ch = false) :
    ∀ ch ∈ front, isSpace ch = true := by
  obtain ⟨before, isText, spacesBefore⟩ := first.split
  obtain ⟨ch, mem, solid⟩ := more
  have notRest : ch ∉ rest := fun inRest => by
    rw [spaces ch inRest] at solid
    cases solid
  rw [split, ← List.append_assoc] at isText
  rcases List.append_eq_append_iff.mp isText with ⟨tail, isFront, isBack⟩ | ⟨tail, -, isRest⟩
  · cases tail with
    | nil =>
        rw [List.nil_append] at isBack
        exact absurd (isBack ▸ List.mem_cons_of_mem gap mem) notRest
    | cons x tail =>
        rw [List.cons_append, List.cons.injEq] at isBack
        obtain ⟨rfl, -⟩ := isBack
        rcases List.append_eq_append_iff.mp isFront with ⟨a, isA, isWord⟩ | ⟨a, isBefore, -⟩
        · have inWord : gap ∈ word := isWord ▸ List.mem_append_right a List.mem_cons_self
          rw [first.solid gap inWord] at isGap
          cases isGap
        · exact fun ch inFront => spacesBefore ch (isBefore ▸ List.mem_append_left a inFront)
  · exact absurd (isRest ▸ List.mem_append_right tail (List.mem_cons_of_mem gap mem)) notRest

/-- The next token stands between delimiters or at the end. -/
theorem strtok_eq_some_iff {delim : Char → Bool} {text token rest : List Char} :
    strtok delim text = some (token, rest) ↔ token ≠ [] ∧ (∀ ch ∈ token, delim ch = false) ∧
      ∃ before after, text = before ++ (token ++ after) ∧ (∀ ch ∈ before, delim ch = true) ∧
        (after = [] ∧ rest = [] ∨ ∃ d, delim d = true ∧ after = d :: rest) := by
  constructor
  · intro found
    have parts := List.takeWhile_append_dropWhile (p := delim) (l := text)
    have head : ∀ ch ∈ (text.dropWhile delim).head?, delim ch = false := fun ch => head?_dropWhile
    unfold strtok at found
    dsimp only at found
    generalize text.dropWhile delim = solid at parts head found
    split at found
    · cases found
    · rename_i some
      rw [Option.some.injEq, Prod.mk.injEq] at found
      obtain ⟨isToken, isRest⟩ := found
      have parts' := List.takeWhile_append_dropWhile (p := fun ch => !delim ch) (l := solid)
      have stop : ∀ ch ∈ (solid.dropWhile fun ch => !delim ch).head?, delim ch = true := fun ch first => by
        simpa using head?_dropWhile first
      rw [isToken] at parts' isRest
      generalize (solid.dropWhile fun ch => !delim ch) = after at parts' stop
      refine ⟨?_, ?_, text.takeWhile delim, after, by rw [parts', parts],
        fun ch => List.mem_takeWhile_imp, ?_⟩
      · rintro rfl
        cases solid with
        | nil => exact some rfl
        | cons x solid =>
            rw [List.takeWhile_cons_of_pos (by rw [head x rfl]; rfl)] at isToken
            cases isToken
      · intro ch mem
        rw [← isToken] at mem
        simpa using List.mem_takeWhile_imp mem
      · rw [← parts', ← List.drop_drop, List.drop_left] at isRest
        cases after with
        | nil => exact .inl ⟨rfl, isRest.symm⟩
        | cons d after => exact .inr ⟨d, stop d rfl, by rw [← isRest]; rfl⟩
  · rintro ⟨ne, solid, before, after, rfl, all, ends⟩
    have begins : ∀ ch ∈ (token ++ after).head?, delim ch = false := by
      intro ch first
      cases token with
      | nil => exact absurd rfl ne
      | cons x token =>
          cases first
          exact solid _ List.mem_cons_self
    have some : (token ++ after).isEmpty = false := by
      cases token with
      | nil => exact absurd rfl ne
      | cons x token => rfl
    have stop : ∀ ch ∈ after.head?, (!delim ch) = false := by
      intro ch first
      rcases ends with ⟨rfl, -⟩ | ⟨d, isDelim, rfl⟩
      · cases first
      · cases first
        rw [isDelim]
        rfl
    unfold strtok
    dsimp only
    rw [dropWhile_append_stop all begins, some, if_neg Bool.false_ne_true,
      takeWhile_append_stop (fun ch mem => by rw [solid ch mem]; rfl) stop, ← List.drop_drop, List.drop_left]
    rcases ends with ⟨rfl, rfl⟩ | ⟨d, -, rfl⟩
    · rfl
    · rfl

/-! ### Splitting -/

/-- `strchr`: the text before and after the first occurrence. -/
def splitFirst (sep : Char) : List Char → Option (List Char × List Char)
  | [] => none
  | ch :: rest =>
      if ch = sep then some ([], rest)
      else (splitFirst sep rest).map fun (before, after) => (ch :: before, after)

/-- `strrchr`: the text before and after the last occurrence. -/
def splitLast (sep : Char) : List Char → Option (List Char × List Char)
  | [] => none
  | ch :: rest =>
      match splitLast sep rest with
      | some (before, after) => some (ch :: before, after)
      | none => if ch = sep then some ([], rest) else none

theorem splitFirst_eq_some {sep : Char} : ∀ {text before after : List Char},
    splitFirst sep text = some (before, after) ↔ text = before ++ sep :: after ∧ sep ∉ before := by
  intro text
  induction text with
  | nil => intro before after; simp [splitFirst]
  | cons ch rest ih =>
      intro before after
      unfold splitFirst
      by_cases here : ch = sep
      · subst here
        rw [if_pos rfl]
        cases before with
        | nil => simp
        | cons x before =>
            simp only [Option.some.injEq, Prod.mk.injEq, List.cons_append, List.cons.injEq,
              List.mem_cons, not_or]
            constructor
            · rintro ⟨h, -⟩
              cases h
            · rintro ⟨⟨h, -⟩, other, -⟩
              exact absurd h other
      · rw [if_neg here]
        cases before with
        | nil =>
            simp only [Option.map_eq_some_iff, List.nil_append, List.cons.injEq]
            constructor
            · rintro ⟨_, -, h⟩
              cases h
            · rintro ⟨⟨h, -⟩, -⟩
              exact absurd h here
        | cons x before =>
            simp only [Option.map_eq_some_iff, Prod.exists, Prod.mk.injEq, List.cons.injEq,
              List.cons_append, List.mem_cons, not_or]
            constructor
            · rintro ⟨b, a, found, ⟨rfl, rfl⟩, rfl⟩
              obtain ⟨rfl, notIn⟩ := ih.mp found
              exact ⟨⟨rfl, rfl⟩, Ne.symm here, notIn⟩
            · rintro ⟨⟨rfl, same⟩, -, notIn⟩
              exact ⟨before, after, ih.mpr ⟨same, notIn⟩, ⟨rfl, rfl⟩, rfl⟩

theorem splitLast_spec {sep : Char} : ∀ text : List Char,
    (splitLast sep text = none ∧ sep ∉ text) ∨
      ∃ before after, splitLast sep text = some (before, after) ∧
        text = before ++ sep :: after ∧ sep ∉ after := by
  intro text
  induction text with
  | nil => simp [splitLast]
  | cons ch rest ih =>
      unfold splitLast
      rcases ih with ⟨found, notIn⟩ | ⟨before, after, found, rfl, notIn⟩
      · rw [found]
        by_cases here : ch = sep
        · exact .inr ⟨[], rest, by simp [here], by simp [here], notIn⟩
        · left
          simp [here, notIn, Ne.symm here]
      · rw [found]
        exact .inr ⟨ch :: before, after, rfl, rfl, notIn⟩

/-- The last occurrence is where no later one follows. -/
theorem splitLast_eq_some {sep : Char} {text before after : List Char} :
    splitLast sep text = some (before, after) ↔ text = before ++ sep :: after ∧ sep ∉ after := by
  have unique : ∀ {b b' a a' : List Char}, b ++ sep :: a = b' ++ sep :: a' → sep ∉ a → sep ∉ a' →
      b = b' ∧ a = a' := by
    intro b
    induction b with
    | nil =>
        intro b' a a' same notA notA'
        cases b' with
        | nil => exact ⟨rfl, (List.cons.inj same).2⟩
        | cons x b' =>
            rw [(List.cons.inj same).2] at notA
            exact absurd (List.mem_append_right b' List.mem_cons_self) notA
    | cons x b ih =>
        intro b' a a' same notA notA'
        cases b' with
        | nil =>
            rw [← (List.cons.inj same).2] at notA'
            exact absurd (List.mem_append_right b List.mem_cons_self) notA'
        | cons y b' =>
            obtain ⟨rfl, rest⟩ := List.cons.inj same
            obtain ⟨sameB, sameA⟩ := ih rest notA notA'
            exact ⟨congrArg _ sameB, sameA⟩
  rcases @splitLast_spec sep text with ⟨found, notIn⟩ | ⟨b, a, found, rfl, notIn⟩
  · rw [found]
    refine ⟨fun h => (by cases h), ?_⟩
    rintro ⟨rfl, -⟩
    exact absurd (List.mem_append_right before List.mem_cons_self) notIn
  · rw [found]
    constructor
    · intro h
      cases h
      exact ⟨rfl, notIn⟩
    · rintro ⟨same, notIn'⟩
      obtain ⟨rfl, rfl⟩ := unique same notIn notIn'
      rfl

/-! ### Binary search -/

/-- One probe of `bsearch` in the cells from `lo` up to `hi`. -/
def bsearchPass (compare : Nat → Ordering) (s : Nat × Nat × Option Nat) :
    Option (Nat × Nat × Option Nat) :=
  if s.2.2.isSome || decide (s.2.1 ≤ s.1) then none
  else
    let mid := (s.1 + s.2.1) / 2
    match compare mid with
    | .lt => some (s.1, mid, none)
    | .gt => some (mid + 1, s.2.1, none)
    | .eq => some (s.1, s.2.1, some mid)

/-- `bsearch` in `n` cells; `compare` compares the key with a cell. -/
def bsearch (n : Nat) (compare : Nat → Ordering) : Option (Option Nat) :=
  (Loop.whileLoop (bsearchPass compare) (n + 2) (0, n, none)).map (·.2.2)

/-- In sorted cells `bsearch` finds a cell equal to the key if there is one. -/
theorem bsearch_spec {n : Nat} {compare : Nat → Ordering}
    (low : ∀ i j, i < j → j < n → compare i = .lt → compare j = .lt)
    (high : ∀ i j, i < j → j < n → compare j = .gt → compare i = .gt) :
    ∃ r, bsearch n compare = some r ∧ (∀ i ∈ r, i < n ∧ compare i = .eq) ∧
      (r = none → ∀ i < n, compare i ≠ .eq) := by
  obtain ⟨⟨lo, hi, found⟩, run, ⟨bound, hit, below, above⟩, exit⟩ :=
    @Loop.whileLoop_total _ (bsearchPass compare)
    (fun s => s.2.1 ≤ n ∧ (∀ i ∈ s.2.2, i < n ∧ compare i = .eq) ∧
      (∀ i < s.1, i < n → compare i = .gt) ∧ ∀ i, s.2.1 ≤ i → i < n → compare i = .lt)
    (fun s => s.2.1 - s.1 + if s.2.2.isSome then 0 else 1)
    (by
      rintro ⟨lo, hi, found⟩ s' ⟨bound, hit, below, above⟩ next
      dsimp only at bound hit below above
      unfold bsearchPass at next
      split at next
      · cases next
      · rename_i more
        simp only [Bool.or_eq_true, decide_eq_true_eq, not_or, not_le, Bool.not_eq_true,
          Option.isSome_eq_false_iff, Option.isNone_iff_eq_none] at more
        obtain ⟨rfl, more⟩ := more
        dsimp only at next more
        have mid : lo ≤ (lo + hi) / 2 ∧ (lo + hi) / 2 < hi := by omega
        cases compared : compare ((lo + hi) / 2) with
        | lt =>
            rw [compared] at next
            cases next
            refine ⟨⟨by dsimp only; omega, by simp, below, fun i hi' hn => ?_⟩, by dsimp only; omega⟩
            by_cases here : i = (lo + hi) / 2
            · rw [here]
              exact compared
            · exact low _ i (by dsimp only at hi'; omega) hn compared
        | gt =>
            rw [compared] at next
            cases next
            refine ⟨⟨bound, by simp, fun i hi' hn => ?_, above⟩, by dsimp only; omega⟩
            by_cases here : i = (lo + hi) / 2
            · rw [here]
              exact compared
            · exact high i _ (by dsimp only at hi'; omega) (by omega) compared
        | eq =>
            rw [compared] at next
            cases next
            refine ⟨⟨bound, fun i hi' => ?_, below, above⟩, by simp⟩
            cases hi'
            exact ⟨by omega, compared⟩)
    (n + 2) (0, n, none) ⟨le_refl n, by simp, by simp, fun i h h' => by dsimp only at h; omega⟩
    (by simp)
  refine ⟨found, by rw [bsearch, run]; rfl, hit, ?_⟩
  rintro rfl i hi' equal
  dsimp only at below above
  unfold bsearchPass at exit
  split at exit
  · rename_i stop
    simp only [Option.isSome_none, Bool.false_or, decide_eq_true_eq] at stop
    rcases Nat.lt_or_ge i lo with h | h
    · cases equal.symm.trans (below i h hi')
    · cases equal.symm.trans (above i (stop.trans h) hi')
  · dsimp only at exit
    split at exit <;> cases exit

end CText
