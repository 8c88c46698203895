/-
Module: SafRprGen.Netlist.PortText
Layer: Netlist
Purpose: Port declarations as a netlist file writes them, with a range or without. The reader has one byte
  between two names and then blanks: with a range it takes a second delimiter for another name.
Main exports: PortText, PortText.ports, PortText.WellFormed.calcPiPo, PortText.WellFormed.readPiPo
-/
import SafRprGen.Netlist.GateText

namespace SafRprGen

open CText

/-! ### Port declarations -/

/-- A declaration: its range, the first name, the others behind their separators. -/
structure PortText where
  input : Bool
  range : Option (CStr × CStr)
  lead : List Char
  first : CStr
  more : List (List Char × CStr)
  close : List Char

def PortText.keyword (p : PortText) : CStr := if p.input then "input".toList else "output".toList

def PortText.rangeText (p : PortText) : List Char :=
  match p.range with
  | none => []
  | some (bit1, bit2) => '[' :: (bit1 ++ ':' :: (bit2 ++ [']']))

/-- The text behind the first name. -/
def nameTail (more : List (List Char × CStr)) (close : List Char) : List Char :=
  more.flatMap (fun name => name.1 ++ name.2) ++ (close ++ [';'])

def PortText.text (p : PortText) : List Char :=
  p.keyword ++ ' ' :: (p.rangeText ++ (p.lead ++ (p.first ++ nameTail p.more p.close)))

def PortText.names (p : PortText) : List CStr := p.first :: p.more.map (·.2)

/-- The ports that are declared: bits of the names, or the names without the clock. -/
def PortText.ports (p : PortText) : List CStr :=
  match p.range with
  | none => p.names.filter fun name => !(name = "CLK".toList || name = "clk".toList)
  | some (bit1, bit2) => p.names.flatMap (bitNames (atoi bit1) (atoi bit2))

structure PortText.WellFormed (p : PortText) : Prop where
  range : ∀ bits ∈ p.range, Word delimiter1 bits.1 ∧ Word delimiter1 bits.2
  /-- The bits and their number are `int`s. -/
  bits : ∀ bits ∈ p.range, isInt (atoi bits.1) = true ∧ isInt (atoi bits.2) = true ∧
    bitCount (atoi bits.1) (atoi bits.2) ≤ intMax
  lead : ∀ ch ∈ p.lead, blank ch = true
  names : ∀ name ∈ p.names, Word delimiter0 name ∧ name.head? ≠ some '['
  more : ∀ name ∈ p.more, Separator name.1
  close : p.close = [] ∨ Separator p.close

section Names

variable {σ : Type} {body : σ → Token → Except Stop σ} {f : σ → CStr → Except Stop σ}
  {fin : σ → Token → Except Stop (σ × List Char)}

/-- The loop over the names of a declaration, with what is done for the token that `;` ends. -/
theorem portLoop_names (word : ∀ s name rest, body s ⟨name, 0, rest⟩ = f s name)
    (last : ∀ s name rest, fin s ⟨name, 1, rest⟩ = f s name >>= fun t => .ok (t, rest))
    (empty : ∀ s rest, fin s ⟨[], 2, rest⟩ = .ok (s, rest))
    {close : List Char} (isClose : close = [] ∨ Separator close) (rest : List Char) :
    ∀ (more : List (List Char × CStr)) (first : CStr),
    (∀ name ∈ first :: more.map (·.2), Word delimiter0 name) →
      (∀ name ∈ more, Separator name.1) → ∃ tok, (∀ blanks, (∀ ch ∈ blanks, blank ch = true) →
        statementToken delimiter0 (blanks ++ (first ++ (nameTail more close ++ rest))) = .ok tok) ∧
        ∀ (s : σ) (fuel : Nat), more.length + 2 ≤ fuel →
          (portLoop body fuel s tok >>= fun r => fin r.1 r.2) =
            ((first :: more.map (·.2)).foldlM f s >>= fun t => .ok (t, rest)) := by
  intro more
  induction more with
  | nil =>
      intro first names _
      have isFirst := names first List.mem_cons_self
      rcases isClose with rfl | ⟨ch, blanks, rfl, delim, plain, isBlank⟩
      · refine ⟨⟨first, 1, rest⟩, fun before isBefore => ?_, fun s fuel enough => ?_⟩
        · have token := isFirst.token (fun ch => delimiter0_of_blank) isBefore
              (by decide : delimiter0 ';' = true) rest
          rw [if_pos rfl] at token
          exact statementToken_ok.mpr token
        · obtain ⟨fuel, rfl⟩ : ∃ k, fuel = k + 1 := ⟨fuel - 1, by omega⟩
          rw [portLoop, if_pos (.inl rfl)]
          change fin s ⟨first, 1, rest⟩ = _
          rw [last, List.map_nil, List.foldlM_cons]
          cases f s first <;> rfl
      · refine ⟨⟨first, 0, blanks ++ ';' :: rest⟩, fun before isBefore => ?_, fun s fuel enough => ?_⟩
        · have token := isFirst.token (fun ch => delimiter0_of_blank) isBefore delim (blanks ++ ';' :: rest)
          rw [if_neg plain] at token
          have text : nameTail [] (ch :: blanks) ++ rest = ch :: (blanks ++ ';' :: rest) :=
            by simp [nameTail]
          rw [text]
          exact statementToken_ok.mpr token
        · obtain ⟨fuel, rfl⟩ : ∃ k, fuel = k + 2 := ⟨fuel - 2, by omega⟩
          have token := @getToken_word delimiter0 (fun ch => delimiter0_of_blank) blanks [] ';' rest isBlank
            (fun ch mem => (by cases mem)) (fun ch mem => (by cases mem)) (by decide) (by decide)
            fun _ => by decide
          have next : statementToken delimiter0 (blanks ++ ';' :: rest) = .ok ⟨[], 2, rest⟩ :=
            statementToken_ok.mpr token
          rw [portLoop, if_neg (by simp), word, List.map_nil, List.foldlM_cons]
          cases run : f s first with
          | error e => rfl
          | ok t =>
              dsimp only
              rw [next]
              dsimp only
              rw [portLoop, if_pos (.inr rfl)]
              change fin t ⟨[], 2, rest⟩ = _
              rw [empty]
              rfl
  | cons entry more ih =>
      intro first names separators
      obtain ⟨gap, name⟩ := entry
      obtain ⟨ch, blanks, rfl, delim, plain, isBlank⟩ := separators (gap, name) List.mem_cons_self
      have isFirst := names first List.mem_cons_self
      obtain ⟨tok, token, loop⟩ := ih name (fun name' mem => names name' (List.mem_cons_of_mem _ mem))
        fun name' mem => separators name' (List.mem_cons_of_mem _ mem)
      refine ⟨⟨first, 0, blanks ++ (name ++ (nameTail more close ++ rest))⟩, fun before isBefore => ?_,
        fun s fuel enough => ?_⟩
      · have token := isFirst.token (fun ch => delimiter0_of_blank) isBefore delim
          (blanks ++ (name ++ (nameTail more close ++ rest)))
        rw [if_neg plain] at token
        have text : nameTail ((ch :: blanks, name) :: more) close ++ rest =
            ch :: (blanks ++ (name ++ (nameTail more close ++ rest))) := by
          simp [nameTail]
        rw [text]
        exact statementToken_ok.mpr token
      · obtain ⟨fuel, rfl⟩ : ∃ k, fuel = k + 1 := ⟨fuel - 1, by omega⟩
        rw [portLoop, if_neg (by simp), word, List.foldlM_cons]
        cases run : f s first with
        | error e => rfl
        | ok t =>
            dsimp only
            rw [token blanks isBlank]
            dsimp only
            rw [loop t fuel (by rw [List.length_cons] at enough; omega)]
            rfl

end Names

theorem nameTail_length {more : List (List Char × CStr)} (separators : ∀ name ∈ more, Separator name.1)
    (close : List Char) : more.length + 1 ≤ (nameTail more close).length := by
  induction more with
  | nil => simp [nameTail]
  | cons entry more ih =>
      obtain ⟨ch, blanks, gap, -⟩ := separators entry List.mem_cons_self
      have later := ih fun name mem => separators name (List.mem_cons_of_mem _ mem)
      unfold nameTail at later ⊢
      rw [List.flatMap_cons, List.append_assoc, List.length_append, List.length_append, gap,
        List.length_cons, List.length_cons]
      omega

section Declaration

variable {σ : Type} {p : PortText}

/-- Without a range the blanks in front of the first name are skipped, and no range is seen. -/
theorem PortText.WellFormed.skips_lead (h : p.WellFormed) (range : p.range = none) (behind : List Char) :
    ∃ lead, (∀ ch ∈ lead, blank ch = true) ∧
      (p.rangeText ++ (p.lead ++ (p.first ++ behind))).dropWhile (fun ch => ch = ' ' || ch = '\t') =
        lead ++ (p.first ++ behind) ∧
      (lead ++ (p.first ++ behind)).head? ≠ some '[' := by
  obtain ⟨isWord, plain⟩ := h.names p.first List.mem_cons_self
  obtain ⟨ch, letters, visible⟩ := List.exists_cons_of_length_pos (List.length_pos_iff.mpr isWord.nonempty)
  have isBlank : ∀ ch ∈ p.lead.dropWhile (fun ch => ch = ' ' || ch = '\t'), blank ch = true :=
    fun ch mem => h.lead ch ((List.dropWhile_suffix _).subset mem)
  refine ⟨p.lead.dropWhile (fun ch => ch = ' ' || ch = '\t'), isBlank, ?_, ?_⟩
  · have none : p.rangeText = [] := by rw [rangeText, range]
    rw [none, List.nil_append, List.dropWhile_append, visible, List.cons_append,
      List.dropWhile_cons_of_neg]
    · split
      · rename_i empty
        rw [List.isEmpty_iff.mp empty]
        rfl
      · rfl
    · rintro isBlank
      simp only [Bool.or_eq_true, decide_eq_true_eq] at isBlank
      have solid := isWord.solid ch (visible ▸ List.mem_cons_self)
      rcases isBlank with rfl | rfl <;> cases solid
  · cases lead : p.lead.dropWhile (fun ch => ch = ' ' || ch = '\t') with
    | nil =>
        rw [visible] at plain ⊢
        exact plain
    | cons b lead =>
        rw [lead] at isBlank
        intro same
        cases Option.some.inj same
        cases isBlank '[' List.mem_cons_self

/-- The names of a declaration are handled one after the other. -/
theorem PortText.WellFormed.declaration (h : p.WellFormed) (vector : Int → Int → σ → CStr → Except Stop σ)
    (scalar : σ → CStr → Except Stop σ) (s : σ) (rest : List Char) :
    declaration vector scalar s (p.rangeText ++ (p.lead ++ (p.first ++ (nameTail p.more p.close ++ rest)))) =
      ((match p.range with
        | none => p.names.foldlM (fun s name =>
            if (name = "CLK".toList || name = "clk".toList) = true then .ok s else scalar s name) s
        | some (bit1, bit2) => p.names.foldlM (vector (atoi bit1) (atoi bit2)) s) >>=
          fun t => .ok (t, rest)) := by
  have isWord : ∀ name ∈ p.first :: p.more.map (·.2), Word delimiter0 name :=
    fun name mem => (h.names name mem).1
  have nonempty : 0 < p.first.length := List.length_pos_iff.mpr (isWord _ List.mem_cons_self).nonempty
  have tail := nameTail_length h.more p.close
  cases range : p.range with
  | none =>
      obtain ⟨tok, token, loop⟩ := @portLoop_names σ
        (fun s tok => if isClock tok then .ok s else if tok.code = 0 then scalar s tok.str else .ok s)
        (fun s name => if (name = "CLK".toList || name = "clk".toList) = true then .ok s else scalar s name)
        (fun s tok => if !isClock tok && tok.code = 1 then (scalar s tok.str >>= fun t => .ok (t, tok.rest))
          else (.ok s >>= fun t => .ok (t, tok.rest)))
        (fun s name rest => rfl)
        (fun s name rest => by
          unfold isClock
          cases (decide (name = "CLK".toList) || decide (name = "clk".toList)) <;> rfl)
        (fun s rest => rfl) p.close h.close rest p.more p.first isWord h.more
      obtain ⟨lead, isBlank, body, noRange⟩ := h.skips_lead range (nameTail p.more p.close ++ rest)
      unfold SafRprGen.declaration
      dsimp only
      rw [body, if_neg noRange, token _ isBlank]
      apply loop s _
      unfold fuelFor
      rw [List.length_append, List.length_append, List.length_append]
      omega
  | some bits =>
      obtain ⟨bit1, bit2⟩ := bits
      obtain ⟨isBit1, isBit2⟩ := h.range _ range
      obtain ⟨isInt1, isInt2, fit⟩ := h.bits _ range
      obtain ⟨tok, token, loop⟩ := @portLoop_names σ (fun s tok => vector (atoi bit1) (atoi bit2) s tok.str)
        (vector (atoi bit1) (atoi bit2))
        (fun s tok => if tok.code = 1
          then (vector (atoi bit1) (atoi bit2) s tok.str >>= fun t => .ok (t, tok.rest))
          else (.ok s >>= fun t => .ok (t, tok.rest)))
        (fun s name rest => rfl) (fun s name rest => rfl)
        (fun s rest => rfl) p.close h.close rest p.more p.first
        isWord h.more
      have text : p.rangeText ++ (p.lead ++ (p.first ++ (nameTail p.more p.close ++ rest))) =
          '[' :: (bit1 ++ ':' ::
            (bit2 ++ ']' :: (p.lead ++ (p.first ++ (nameTail p.more p.close ++ rest))))) := by
        rw [rangeText, range]
        simp
      have blanks : ∀ ch, blank ch = true → delimiter1 ch = true := fun ch is =>
        delimiter1_of_delimiter0 (delimiter0_of_blank is)
      have first := @Word.token delimiter1 bit1 isBit1 blanks [] (fun ch mem => (by cases mem)) ':'
          (by decide)
        (bit2 ++ ']' :: (p.lead ++ (p.first ++ (nameTail p.more p.close ++ rest))))
      have second := @Word.token delimiter1 bit2 isBit2 blanks [] (fun ch mem => (by cases mem)) ']'
          (by decide)
        (p.lead ++ (p.first ++ (nameTail p.more p.close ++ rest)))
      rw [List.nil_append, if_neg (by decide)] at first second
      unfold SafRprGen.declaration
      dsimp only
      rw [text, List.dropWhile_cons_of_neg (by decide), List.head?_cons, if_pos rfl, List.tail_cons,
        statementToken_ok.mpr first]
      change (rangeBit bit1 >>= _) = _
      rw [rangeBit, if_pos isInt1]
      change (statementToken delimiter1
        (bit2 ++ ']' :: (p.lead ++ (p.first ++ (nameTail p.more p.close ++ rest)))) >>=
        _) = _
      rw [statementToken_ok.mpr second]
      change (rangeBit bit2 >>= _) = _
      rw [rangeBit, if_pos isInt2]
      change (bitsFit (atoi bit1) (atoi bit2) >>= _) = _
      rw [bitsFit, if_pos fit]
      change (statementToken delimiter0 (p.lead ++ (p.first ++ (nameTail p.more p.close ++ rest))) >>= _) = _
      rw [token _ h.lead]
      apply loop s _
      unfold fuelFor
      simp only [List.length_append, List.length_cons]
      omega

theorem length_bitNames (bit1 bit2 : Int) (name : CStr) : (bitNames bit1 bit2 name).length =
    bitCount bit1 bit2 := by
  simp [bitNames]

/-- `calc_pi_po` counts the ports. -/
theorem PortText.WellFormed.calcPiPo (h : p.WellFormed) (rest : List Char) :
    calcPiPo (p.rangeText ++ (p.lead ++ (p.first ++ (nameTail p.more p.close ++ rest)))) =
      .ok (p.ports.length, rest) := by
  unfold SafRprGen.calcPiPo
  rw [h.declaration, ports]
  cases p.range with
  | none =>
      dsimp only
      have counted : ∀ (names : List CStr) (n : Nat), names.foldlM (fun n name =>
          if (name = "CLK".toList || name = "clk".toList) = true then Except.ok n
          else (Except.ok (n + 1) : Except Stop Nat)) n =
            .ok (n + (names.filter fun name => !(name = "CLK".toList || name = "clk".toList)).length) := by
        intro names
        induction names with
        | nil => exact fun n => rfl
        | cons name names ih =>
            intro n
            rw [List.foldlM_cons, List.filter_cons]
            cases (decide (name = "CLK".toList) || decide (name = "clk".toList)) with
            | true => exact ih n
            | false =>
                apply (ih (n + 1)).trans
                rw [Bool.not_false, if_pos rfl, List.length_cons]
                congr 1
                omega
      rw [counted, Nat.zero_add]
      rfl
  | some bits =>
      dsimp only
      have counted : ∀ (names : List CStr) (n : Nat), names.foldlM (fun n _ =>
          (Except.ok (n + bitCount (atoi bits.1) (atoi bits.2)) : Except Stop Nat)) n =
            .ok (n + (names.flatMap (bitNames (atoi bits.1) (atoi bits.2))).length) := by
        intro names
        induction names with
        | nil => exact fun n => rfl
        | cons name names ih =>
            intro n
            rw [List.foldlM_cons, List.flatMap_cons, List.length_append]
            apply (ih _).trans
            rw [length_bitNames, Nat.add_assoc]
      rw [counted, Nat.zero_add]
      rfl

/-- `read_pi_po` looks for the ports in order. -/
theorem PortText.WellFormed.readPiPo (h : p.WellFormed) (search : σ → CStr → Except Stop σ) (s : σ)
    (rest : List Char) :
    readPiPo search s (p.rangeText ++ (p.lead ++ (p.first ++ (nameTail p.more p.close ++ rest)))) =
      (p.ports.foldlM search s).map fun t => (t, rest) := by
  unfold SafRprGen.readPiPo
  rw [h.declaration, ports]
  cases p.range with
  | none =>
      dsimp only
      rw [List.foldlM_filter]
      have same : (fun s name => if (name = "CLK".toList || name = "clk".toList) = true then .ok s
          else search s name) = fun s name =>
            if (!(name = "CLK".toList || name = "clk".toList)) = true then search s name else pure s := by
        funext s name
        cases (decide (name = "CLK".toList) || decide (name = "clk".toList)) <;> rfl
      rw [same]
      rfl
  | some bits =>
      dsimp only
      have nested : ∀ (names : List CStr) (s : σ), names.foldlM (fun s name =>
          (bitNames (atoi bits.1) (atoi bits.2) name).foldlM search s) s =
            (names.flatMap (bitNames (atoi bits.1) (atoi bits.2))).foldlM search s := by
        intro names
        induction names with
        | nil => exact fun s => rfl
        | cons name names ih =>
            intro s
            rw [List.foldlM_cons, List.flatMap_cons, List.foldlM_append]
            exact congrArg _ (funext ih)
      rw [nested]
      rfl

end Declaration

end SafRprGen
