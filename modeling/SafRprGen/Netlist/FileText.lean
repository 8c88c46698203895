/-
Module: SafRprGen.Netlist.FileText
Layer: Netlist
Purpose: Netlist files as they are written: `module` and `wire` statements, port declarations and gates, with
  blanks and line ends between them, and `endmodule`. The three passes over such a file find the same gates
  and ports, and the graph gives the outputs the values that the gates of the file have.
Main exports: Statement, NetlistFile, NetlistFile.WellFormed.readFile, readNl_file
-/
import SafRprGen.Netlist.PortText
import SafRprGen.Netlist.ReadGraph

namespace SafRprGen

/-! ### Statements -/

/-- A statement of a file; that of a gate comes with the gate it stands for. -/
inductive Statement where
  | words (keyword : CStr) (body : List Char)
  | ports (p : PortText)
  | gate (g : GateText) (r : GateRecord)

def Statement.text : Statement → List Char
  | .words keyword body => keyword ++ ' ' :: (body ++ [';'])
  | .ports p => p.text
  | .gate g _ => g.text

def Statement.WellFormed : Statement → Prop
  | .words keyword body => (keyword = "module".toList ∨ keyword = "wire".toList) ∧ ';' ∉ body
  | .ports p => p.WellFormed
  | .gate g r => g.WellFormed r

def Statement.records : Statement → List GateRecord
  | .gate _ r => [r]
  | _ => []

def Statement.declared : Statement → List (Bool × CStr)
  | .ports p => p.ports.map fun port => (p.input, port)
  | _ => []

/-- What the counters of `read_1st` count. -/
def Counts.add (n : Counts) (st : Statement) : Counts where
  nModule := n.nModule + st.records.length
  nPi := n.nPi + (inputsOf st.declared).length
  nPo := n.nPo + (outputsOf st.declared).length

/-- What one pass of `read_1st` does with the counters. -/
def Statement.count (n : Counts) : Statement → Except Stop Counts
  | .words _ _ => .ok n
  | st => (n.add st).fit

/-- What one pass of `read_2nd` does with the records. -/
def Statement.fill (nModule : Nat) (records : List ModuleRecord) (st : Statement) :
    Except Stop (List ModuleRecord) :=
  if st.records ≠ [] ∧ nModule ≤ records.length then .error .undefined
  else .ok (records ++ st.records.map GateRecord.whole)

theorem keywords_words : ∀ k ∈ keywords, k ≠ [] ∧ k.all Char.isAlpha = true ∧ k.length ≤ 9 := by decide

theorem keyword_word {keyword : CStr} (isKeyword : keyword ∈ keywords) : Word delimiter1 keyword := by
  obtain ⟨nonempty, letters, short⟩ := keywords_words keyword isKeyword
  exact .of_alnum nonempty (fun ch mem => .inl (List.all_eq_true.mp letters ch mem))
    (by unfold strMax; omega)

/-- The keyword of a statement in the modes 0 and 1. -/
theorem keyword_token {keyword : CStr} (isKeyword : keyword ∈ keywords) {delimiter : Char → Bool}
    (mode : delimiter = delimiter0 ∨ delimiter = delimiter1) {before : List Char}
    (isBlank : ∀ ch ∈ before, blank ch = true) {stop : Char} (stops : blank stop = true) (rest : List Char) :
    getToken delimiter (before ++ (keyword ++ stop :: rest)) = .ok (some ⟨keyword, 0, rest⟩) := by
  have word := keyword_word isKeyword
  have plain : stop ≠ ';' := by
    rintro rfl
    cases stops
  rcases mode with rfl | rfl
  · have token := word.mode0.token (fun ch => delimiter0_of_blank) isBlank (delimiter0_of_blank stops) rest
    rwa [if_neg plain] at token
  · have token := word.token (fun ch is => delimiter1_of_delimiter0 (delimiter0_of_blank is)) isBlank
      (delimiter1_of_delimiter0 (delimiter0_of_blank stops)) rest
    rwa [if_neg plain] at token

/-- The keyword of a statement in mode 2. -/
theorem keyword_typeToken {keyword : CStr} (isKeyword : keyword ∈ keywords) (inNum : Int)
    {before : List Char}
    (isBlank : ∀ ch ∈ before, blank ch = true) {stop : Char} (stops : blank stop = true) (rest : List Char) :
    ∃ code, getTypeToken inNum (before ++ (keyword ++ stop :: rest)) =
      .ok (some (⟨keyword, code, rest⟩, inNum)) := by
  obtain ⟨nonempty, letters, short⟩ := keywords_words keyword isKeyword
  have isAlpha : ∀ ch ∈ keyword, ch.isAlpha = true := fun ch mem => List.all_eq_true.mp letters ch mem
  obtain ⟨body, word⟩ := letters_front nonempty isAlpha isBlank
    (delimiter1_cases (delimiter1_of_delimiter0 (delimiter0_of_blank stops))).1 rest
  have filled : keyword.isEmpty = false := List.isEmpty_eq_false_iff.mpr nonempty
  refine ⟨tokenCode keyword (some stop), ?_⟩
  unfold getTypeToken
  dsimp only
  rw [body, word, if_neg (by simp), List.drop_left, if_neg (by unfold strMax; omega), filled,
    if_pos (by simp [stops])]
  rfl

theorem PortText.keyword_mem (p : PortText) : p.keyword ∈ keywords := by
  unfold keyword
  cases p.input <;> decide

theorem PortText.text_append (p : PortText) (rest : List Char) : p.text ++ rest =
    p.keyword ++ ' ' :: (p.rangeText ++ (p.lead ++ (p.first ++ (nameTail p.more p.close ++ rest)))) := by
  simp [text]

theorem PortText.WellFormed.plain {p : PortText} (h : p.WellFormed) (rest : List Char) :
    skipStatement (p.rangeText ++ (p.lead ++ (p.first ++ (nameTail p.more p.close ++ rest)))) =
      .ok rest := by
  have separator : ∀ gap, Separator gap → ';' ∉ gap := by
    rintro gap ⟨ch, blanks, rfl, -, plain, isBlank⟩ mem
    rcases List.mem_cons.mp mem with same | mem
    · exact plain same.symm
    · cases isBlank _ mem
  have range : ';' ∉ p.rangeText := by
    unfold rangeText
    cases bits : p.range with
    | none => exact List.not_mem_nil
    | some bits' =>
        obtain ⟨isBit1, isBit2⟩ := h.range bits' bits
        have first := isBit1.plain (by decide)
        have second := isBit2.plain (by decide)
        simp [first, second]
  have more : ';' ∉ p.more.flatMap (fun name => name.1 ++ name.2) := by
    intro mem
    obtain ⟨name, isName, mem⟩ := List.mem_flatMap.mp mem
    rcases List.mem_append.mp mem with mem | mem
    · exact separator _ (h.more name isName) mem
    · exact (h.names name.2 (List.mem_cons_of_mem _ (List.mem_map_of_mem isName))).1.plain (by decide) mem
  have close : ';' ∉ p.close := by
    rcases h.close with empty | isSeparator
    · rw [empty]
      exact List.not_mem_nil
    · exact separator _ isSeparator
  have lead : ';' ∉ p.lead := fun mem => by cases h.lead _ mem
  have first : ';' ∉ p.first := (h.names p.first List.mem_cons_self).1.plain (by decide)
  have text : p.rangeText ++ (p.lead ++ (p.first ++ (nameTail p.more p.close ++ rest))) =
      (p.rangeText ++ (p.lead ++ (p.first ++ (p.more.flatMap (fun name => name.1 ++ name.2) ++ p.close)))) ++
        ';' :: rest := by
    simp [nameTail]
  rw [text]
  refine skipStatement_append ?_ rest
  simp only [List.mem_append, not_or]
  exact ⟨range, lead, first, more, close⟩

section Passes

variable {st : Statement} {before : List Char}

/-- One pass of `read_1st` a statement. -/
theorem Statement.WellFormed.read1st (h : st.WellFormed) (isBlank : ∀ ch ∈ before, blank ch = true)
    (n : Counts) (rest : List Char) :
    read1stStep (n, before ++ (st.text ++ rest)) = (st.count n).map fun n => some (n, rest) := by
  unfold read1stStep
  cases st with
  | words keyword body =>
      obtain ⟨isKeyword, plain⟩ := h
      have text : (Statement.words keyword body).text ++ rest = keyword ++ ' ' :: (body ++ ';' :: rest) := by
        simp [Statement.text]
      dsimp only
      rw [text, keyword_token (by rcases isKeyword with rfl | rfl <;> decide) (.inr rfl) isBlank (by decide)]
      dsimp only
      rw [if_pos isKeyword, skipStatement_append plain]
      rfl
  | ports p =>
      have counted := PortText.WellFormed.calcPiPo h rest
      dsimp only
      rw [Statement.text, p.text_append, keyword_token p.keyword_mem (.inr rfl) isBlank (by decide)]
      dsimp only
      unfold PortText.keyword
      cases input : p.input with
      | true =>
          rw [if_pos rfl, if_neg (by decide), if_neg (by decide), if_neg (by decide), if_pos rfl, counted]
          simp [Except.bind, Statement.count, Counts.add, Statement.records, Statement.declared, input,
            inputsOf, outputsOf, List.filter_map, Function.comp_def]
      | false =>
          rw [if_neg Bool.false_ne_true, if_neg (by decide), if_neg (by decide), if_neg (by decide),
            if_neg (by decide), if_pos rfl, counted]
          simp [Except.bind, Statement.count, Counts.add, Statement.records, Statement.declared, input,
            inputsOf, outputsOf, List.filter_map, Function.comp_def]
  | gate g r =>
      obtain ⟨after, token, skip⟩ := GateText.WellFormed.token h (.inr rfl) isBlank rest
      have other : ∀ k ∈ keywords, g.cell ++ g.number ≠ k := fun k mem same =>
        GateText.WellFormed.not_keyword h (same ▸ mem)
      dsimp only
      rw [Statement.text, token]
      dsimp only
      rw [if_neg, if_neg (other _ (by decide)), if_neg (other _ (by decide)), if_neg (other _ (by decide)),
        if_neg (other _ (by decide)), skip]
      · rfl
      · rintro (same | same) <;> exact other _ (by decide) same

/-- One pass of `read_2nd`. -/
theorem Statement.WellFormed.read2nd (h : st.WellFormed) (isBlank : ∀ ch ∈ before, blank ch = true)
    (nModule : Nat) (records : List ModuleRecord) (rest : List Char) :
    read2ndStep nModule ⟨0, records, before ++ (st.text ++ rest)⟩ =
      (st.fill nModule records).map fun records => some ⟨0, records, rest⟩ := by
  cases st with
  | words keyword body =>
      obtain ⟨isKeyword, plain⟩ := h
      have text : (Statement.words keyword body).text ++ rest = keyword ++ ' ' :: (body ++ ';' :: rest) := by
        simp [Statement.text]
      obtain ⟨code, token⟩ := @keyword_typeToken keyword (by rcases isKeyword with rfl | rfl <;>
          decide) 0 before
        isBlank ' ' (by decide) (body ++ ';' :: rest)
      unfold read2ndStep
      dsimp only
      rw [text, token]
      dsimp only
      rw [if_pos (by rcases isKeyword with rfl | rfl <;> decide), skipStatement_append plain]
      simp [Except.map, Statement.fill, Statement.records]
  | ports p =>
      obtain ⟨code, token⟩ := @keyword_typeToken p.keyword p.keyword_mem 0 before isBlank ' ' (by decide)
        (p.rangeText ++ (p.lead ++ (p.first ++ (nameTail p.more p.close ++ rest))))
      unfold read2ndStep
      dsimp only
      rw [Statement.text, p.text_append, token]
      dsimp only
      rw [if_pos, PortText.WellFormed.plain h]
      · simp [Except.map, Statement.fill, Statement.records]
      · unfold PortText.keyword
        cases p.input <;> decide
  | gate g r =>
      rw [Statement.text, GateText.WellFormed.read2ndStep h nModule records isBlank rest, Statement.fill]
      simp only [Statement.records, ne_eq, List.cons_ne_nil, not_false_eq_true, true_and, List.map_cons,
        List.map_nil]
      split <;> rfl

/-- One pass of `store_pi_po`. -/
theorem Statement.WellFormed.storePorts {σ : Type} (h : st.WellFormed)
    (isBlank : ∀ ch ∈ before, blank ch = true)
    (search : Bool → σ → CStr → Except Stop σ) (s : σ) (rest : List Char) :
    storePortsStep search (s, before ++ (st.text ++ rest)) =
      (searchPorts search s st.declared).map fun t => some (t, rest) := by
  unfold storePortsStep
  cases st with
  | words keyword body =>
      obtain ⟨isKeyword, plain⟩ := h
      have text : (Statement.words keyword body).text ++ rest = keyword ++ ' ' :: (body ++ ';' :: rest) := by
        simp [Statement.text]
      dsimp only
      rw [text, keyword_token (by rcases isKeyword with rfl | rfl <;> decide) (.inl rfl) isBlank (by decide)]
      dsimp only
      rw [if_neg (by rcases isKeyword with rfl | rfl <;> decide),
        if_neg (by rcases isKeyword with rfl | rfl <;> decide),
        if_neg (by rcases isKeyword with rfl | rfl <;> decide), skipStatement_append plain]
      rfl
  | ports p =>
      have found : searchPorts search s (Statement.ports p).declared = p.ports.foldlM
          (search p.input) s := by
        rw [searchPorts, Statement.declared, List.foldlM_map]
      have read := PortText.WellFormed.readPiPo h (search p.input) s rest
      dsimp only
      rw [Statement.text, p.text_append, keyword_token p.keyword_mem (.inl rfl) isBlank (by decide), found]
      dsimp only
      unfold PortText.keyword
      cases input : p.input with
      | true =>
          rw [input] at read
          rw [if_pos rfl, if_pos rfl, read]
          cases p.ports.foldlM (search true) s <;> rfl
      | false =>
          rw [input] at read
          rw [if_neg Bool.false_ne_true, if_neg (by decide), if_pos rfl, read]
          cases p.ports.foldlM (search false) s <;> rfl
  | gate g r =>
      obtain ⟨after, token, skip⟩ := GateText.WellFormed.token h (.inl rfl) isBlank rest
      have other : ∀ k ∈ keywords, g.cell ++ g.number ≠ k := fun k mem same =>
        GateText.WellFormed.not_keyword h (same ▸ mem)
      dsimp only
      rw [Statement.text, token]
      dsimp only
      rw [if_neg (other _ (by decide)), if_neg (other _ (by decide)), if_neg (other _ (by decide)), skip]
      rfl

end Passes

/-! ### Files -/

/-- A netlist file: statements behind blanks, `endmodule`, a line end and blanks. -/
structure NetlistFile where
  statements : List (List Char × Statement)
  last : List Char
  close : List Char

/-- The text of these statements and what is behind them. -/
def NetlistFile.textFrom (file : NetlistFile) (statements : List (List Char × Statement)) : List Char :=
  statements.flatMap (fun line => line.1 ++ line.2.text) ++
    (file.last ++ ("endmodule".toList ++ '\n' :: file.close))

def NetlistFile.text (file : NetlistFile) : List Char := file.textFrom file.statements

def NetlistFile.records (file : NetlistFile) : List GateRecord := file.statements.flatMap (·.2.records)

def NetlistFile.ports (file : NetlistFile) : List (Bool × CStr) := file.statements.flatMap (·.2.declared)

def NetlistFile.counts (file : NetlistFile) : Counts where
  nModule := file.records.length
  nPi := (inputsOf file.ports).length
  nPo := (outputsOf file.ports).length

structure NetlistFile.WellFormed (file : NetlistFile) : Prop where
  /-- `nl_num` is an `int`. -/
  fits : nlNum file.counts file.records ≤ intMax
  statements : ∀ line ∈ file.statements, (∀ ch ∈ line.1, blank ch = true) ∧ line.2.WellFormed
  last : ∀ ch ∈ file.last, blank ch = true
  close : ∀ ch ∈ file.close, blank ch = true

section File

variable {file : NetlistFile}

theorem NetlistFile.textFrom_cons (file : NetlistFile) (line : List Char × Statement)
    (statements : List (List Char × Statement)) :
    file.textFrom (line :: statements) = line.1 ++ (line.2.text ++ file.textFrom statements) := by
  simp [textFrom]

/-- The fuel is enough for the statements, `endmodule` and the exit. -/
theorem NetlistFile.fuelFor_eq (file : NetlistFile) : ∃ fuel,
    fuelFor file.text = file.statements.length + (fuel + 2) := by
  have general : ∀ statements : List (List Char × Statement),
      statements.length + 2 ≤ (file.textFrom statements).length := by
    intro statements
    induction statements with
    | nil =>
        simp [textFrom]
        omega
    | cons line statements ih =>
        have some : 1 ≤ line.2.text.length := by
          cases line.2 <;> simp [Statement.text, PortText.text, GateText.text] <;> omega
        rw [file.textFrom_cons, List.length_append, List.length_append, List.length_cons]
        omega
  exact ⟨(file.text).length + 1 - (file.statements.length + 2), by
    have := general file.statements
    unfold fuelFor
    unfold NetlistFile.text at *
    omega⟩

theorem getToken_blanks {delimiter : Char → Bool} {text : List Char}
    (isBlank : ∀ ch ∈ text, blank ch = true) :
    getToken delimiter text = .ok none := by
  unfold getToken
  dsimp only
  rw [List.dropWhile_eq_nil_iff.mpr isBlank]
  rfl

/-- `read_1st` counts what the statements have, as long as the counters are `int`s. -/
theorem Statement.foldlM_count (statements : List (List Char × Statement)) (n : Counts)
    (fits : n.nModule + (statements.flatMap (·.2.records)).length ≤ intMax ∧
      n.nPi + (inputsOf (statements.flatMap (·.2.declared))).length ≤ intMax ∧
      n.nPo + (outputsOf (statements.flatMap (·.2.declared))).length ≤ intMax) :
    statements.foldlM (fun n line => line.2.count n) n =
      .ok ⟨n.nModule + (statements.flatMap (·.2.records)).length,
        n.nPi + (inputsOf (statements.flatMap (·.2.declared))).length,
        n.nPo + (outputsOf (statements.flatMap (·.2.declared))).length⟩ := by
  induction statements generalizing n with
  | nil => rfl
  | cons line statements ih =>
      have split : ∀ {input : List (Bool × CStr) → List CStr},
          (∀ l l', input (l ++ l') = input l ++ input l') →
          (input ((line :: statements).flatMap (·.2.declared))).length =
            (input line.2.declared).length + (input (statements.flatMap (·.2.declared))).length := by
        intro input append
        rw [List.flatMap_cons, append, List.length_append]
      have inputs := @split inputsOf fun l l' => by simp [inputsOf]
      have outputs := @split outputsOf fun l l' => by simp [outputsOf]
      rw [inputs, outputs, List.flatMap_cons, List.length_append] at fits ⊢
      have one : line.2.count n = .ok (n.add line.2) := by
        have fit : (n.add line.2).fit = .ok (n.add line.2) := if_pos ⟨by
          unfold Counts.add
          dsimp only
          omega, by
          unfold Counts.add
          dsimp only
          omega, by
          unfold Counts.add
          dsimp only
          omega⟩
        generalize line.2 = st at fit ⊢
        cases st with
        | words keyword body => rfl
        | ports p => exact fit
        | gate g r => exact fit
      rw [List.foldlM_cons, one]
      refine (ih (n.add line.2) ?_).trans ?_
      · unfold Counts.add
        dsimp only
        omega
      · unfold Counts.add
        simp only [Nat.add_assoc]

/-- `read_2nd` has a place for every record that `read_1st` has counted. -/
theorem Statement.foldlM_fill (nModule : Nat) (statements : List (List Char × Statement))
    (records : List ModuleRecord)
    (room : records.length + (statements.flatMap (·.2.records)).length ≤ nModule) :
    statements.foldlM (fun records line => line.2.fill nModule records) records =
      .ok (records ++ (statements.flatMap (·.2.records)).map GateRecord.whole) := by
  induction statements generalizing records with
  | nil =>
      rw [List.flatMap_nil, List.map_nil, List.append_nil]
      rfl
  | cons line statements ih =>
      rw [List.flatMap_cons, List.length_append] at room
      have one : line.2.fill nModule records = .ok (records ++ line.2.records.map GateRecord.whole) := by
        apply if_neg
        intro full
        have some := List.length_pos_iff.mpr full.1
        omega
      rw [List.foldlM_cons, one]
      refine (ih _ ?_).trans ?_
      · rw [List.length_append, List.length_map]
        omega
      · rw [List.flatMap_cons, List.map_append, List.append_assoc]

/-- `read_1st` counts the gates and ports of the file. -/
theorem NetlistFile.WellFormed.read1st (h : file.WellFormed) : read1st file.text = .ok file.counts := by
  obtain ⟨fuel, enough⟩ := file.fuelFor_eq
  have loop := @Loop.exceptLoop_items Stop (Counts × List Char)
      (List Char × Statement) Counts .undefined read1stStep
    (fun line => (∀ ch ∈ line.1, blank ch = true) ∧ line.2.WellFormed)
    (fun n statements => (n, file.textFrom statements)) (fun n line => line.2.count n)
    (fun n line statements good => by
      rw [file.textFrom_cons]
      exact good.2.read1st good.1 n _) file.statements h.statements ⟨0, 0, 0⟩ (fuel + 2)
  have ends : ∀ n : Counts, Loop.exceptLoop .undefined read1stStep (fuel + 2) (n, file.textFrom []) =
      .ok (n, file.close) := by
    intro n
    have first : read1stStep (n, file.textFrom []) = .ok (some (n, file.close)) := by
      have token := @keyword_token "endmodule".toList (by decide) delimiter1 (.inr rfl) file.last h.last '\n'
        (by decide) file.close
      unfold read1stStep
      dsimp only
      rw [textFrom, List.flatMap_nil, List.nil_append, token]
      rfl
    have second : read1stStep (n, file.close) = .ok none := by
      unfold read1stStep
      dsimp only
      rw [getToken_blanks h.close]
    rw [Loop.exceptLoop, first]
    dsimp only
    rw [Loop.exceptLoop, second]
  have low := h.fits
  unfold nlNum at low
  have few : file.counts.nModule ≤ intMax ∧ file.counts.nPi ≤ intMax ∧ file.counts.nPo ≤ intMax := by omega
  have counted := Statement.foldlM_count file.statements ⟨0, 0, 0⟩
  simp only [Nat.zero_add] at counted
  unfold SafRprGen.read1st
  rw [enough, text, loop, counted few]
  change (Loop.exceptLoop .undefined read1stStep (fuel + 2) _).map (·.1) = _
  rw [ends]
  simp [Except.map, counts, records, ports]

/-- `read_2nd` fills the records of the gates. -/
theorem NetlistFile.WellFormed.read2nd (h : file.WellFormed) :
    read2nd file.counts.nModule file.text = .ok (file.records.map GateRecord.whole) := by
  obtain ⟨fuel, enough⟩ := file.fuelFor_eq
  have loop := @Loop.exceptLoop_items Stop SecondState (List Char × Statement) (List ModuleRecord) .undefined
    (read2ndStep file.counts.nModule)
    (fun line => (∀ ch ∈ line.1, blank ch = true) ∧ line.2.WellFormed)
    (fun records statements => ⟨0, records, file.textFrom statements⟩)
    (fun records line => line.2.fill file.counts.nModule records)
    (fun records line statements good => by
      rw [file.textFrom_cons]
      exact good.2.read2nd good.1 _ records _) file.statements h.statements [] (fuel + 2)
  have ends : ∀ records : List ModuleRecord, Loop.exceptLoop .undefined (read2ndStep file.counts.nModule)
      (fuel + 2)
      ⟨0, records, file.textFrom []⟩ = .ok ⟨0, records, file.close⟩ := by
    intro records
    have first : read2ndStep file.counts.nModule ⟨0, records, file.textFrom []⟩ =
        .ok (some ⟨0, records, file.close⟩) := by
      obtain ⟨code, token⟩ := @keyword_typeToken "endmodule".toList (by decide) 0 file.last h.last '\n'
          (by decide)
        file.close
      unfold read2ndStep
      dsimp only
      rw [textFrom, List.flatMap_nil, List.nil_append, token]
      rfl
    have second : read2ndStep file.counts.nModule ⟨0, records, file.close⟩ = .ok none := by
      have none : getTypeToken 0 file.close = .ok none := by
        unfold getTypeToken
        dsimp only
        rw [List.dropWhile_eq_nil_iff.mpr h.close]
        rfl
      unfold read2ndStep
      dsimp only
      rw [none]
    rw [Loop.exceptLoop, first]
    dsimp only
    rw [Loop.exceptLoop, second]
  have filled := Statement.foldlM_fill file.counts.nModule file.statements []
    (by rw [List.length_nil, Nat.zero_add]; exact le_rfl)
  unfold SafRprGen.read2nd
  rw [enough, text, loop, filled]
  change (Loop.exceptLoop .undefined (read2ndStep _) (fuel + 2) _).map (·.records) = _
  rw [ends]
  rfl

/-- `store_pi_po` looks for the ports of the file in order. -/
theorem NetlistFile.WellFormed.storePorts {σ : Type} (h : file.WellFormed)
    (search : Bool → σ → CStr → Except Stop σ) (s : σ) :
    storePorts search s file.text = searchPorts search s file.ports := by
  obtain ⟨fuel, enough⟩ := file.fuelFor_eq
  have loop := @Loop.exceptLoop_items Stop (σ × List Char) (List Char × Statement) σ .undefined
      (storePortsStep search)
    (fun line => (∀ ch ∈ line.1, blank ch = true) ∧ line.2.WellFormed)
    (fun s statements => (s, file.textFrom statements)) (fun s line => searchPorts search s line.2.declared)
    (fun s line statements good => by
      rw [file.textFrom_cons]
      exact good.2.storePorts good.1 search s _) file.statements h.statements s (fuel + 2)
  have ends : ∀ s : σ, Loop.exceptLoop .undefined (storePortsStep search) (fuel + 2) (s, file.textFrom []) =
      .ok (s, file.close) := by
    intro s
    have first : storePortsStep search (s, file.textFrom []) = .ok (some (s, file.close)) := by
      have token := @keyword_token "endmodule".toList (by decide) delimiter0 (.inl rfl) file.last h.last '\n'
        (by decide) file.close
      unfold storePortsStep
      dsimp only
      rw [textFrom, List.flatMap_nil, List.nil_append, token]
      rfl
    have second : storePortsStep search (s, file.close) = .ok none := by
      unfold storePortsStep
      dsimp only
      rw [getToken_blanks h.close]
    rw [Loop.exceptLoop, first]
    dsimp only
    rw [Loop.exceptLoop, second]
  have found : ∀ (statements : List (List Char × Statement)) (s : σ),
      statements.foldlM (fun s line => searchPorts search s line.2.declared) s =
        searchPorts search s (statements.flatMap (·.2.declared)) := by
    intro statements
    induction statements with
    | nil => exact fun s => rfl
    | cons line statements ih =>
        intro s
        rw [List.foldlM_cons, List.flatMap_cons, searchPorts, searchPorts, List.foldlM_append]
        exact congrArg _ (funext ih)
  unfold SafRprGen.storePorts
  rw [enough, text, loop, found, ports]
  cases searchPorts search s (file.statements.flatMap (·.2.declared)) with
  | error e => rfl
  | ok t =>
      change (Loop.exceptLoop .undefined (storePortsStep search) (fuel + 2) _).map (·.1) = _
      rw [ends]
      rfl

theorem complete_whole (records : List GateRecord) :
    (records.map GateRecord.whole).mapM ModuleRecord.complete = some records := by
  rw [Related.mapM_eq_some, List.forall₂_map_left_iff]
  exact List.forall₂_same.mpr fun r _ => r.complete_whole

/-- A search for ports that ends has found as many nets as there are ports. -/
theorem searchPorts_length {records : List GateRecord} {ports : List (Bool × CStr)} {s : Signals}
    (run : searchPorts hashSearchPiPo (storeSignal .empty records).2 ports = .ok s) :
    s.pi.length = (inputsOf ports).length ∧ s.po.length = (outputsOf ports).length := by
  obtain ⟨gates, s₀, stored, extends', -, counted⟩ := storeSignal_spec records counted_empty
  rw [stored] at run
  have start : Searched s₀ [] s₀ := by
    refine ⟨rfl, rfl, ?_, ?_, fun n => ?_⟩
    · rw [extends'.pi]
      rfl
    · rw [extends'.po]
      rfl
    · rw [extends'.type, extends'.pi]
      rfl
  have searched := searchPorts_searched counted.valid ports start run
  rw [List.nil_append] at searched
  have pi := congrArg List.length searched.pi
  have po := congrArg List.length searched.po
  rw [List.length_map, List.length_map] at pi po
  exact ⟨pi, po⟩

/-- `read_file` does with the text what `parser` does with its gates and ports. -/
theorem NetlistFile.WellFormed.readFile (h : file.WellFormed) : readFile file.text =
    (parser file.records file.ports).map fun r => ⟨file.counts, file.records, r.1, r.2⟩ := by
  unfold SafRprGen.readFile parser
  rw [h.read1st]
  dsimp only
  rw [h.read2nd]
  dsimp only
  rw [complete_whole]
  dsimp only
  have count : ¬ (file.records.length ≠ file.counts.nModule ∨ intMax < nlNum file.counts file.records) :=
    not_or.mpr ⟨not_not.mpr rfl, Nat.not_lt.mpr h.fits⟩
  rw [if_neg count, h.storePorts]
  cases search : searchPorts hashSearchPiPo (storeSignal .empty file.records).2 file.ports with
  | error e => rfl
  | ok s =>
      obtain ⟨pi, po⟩ := searchPorts_length search
      have fits : ¬ (file.counts.nPi < s.pi.length ∨ s.po.length ≠ file.counts.nPo) := by
        rw [pi, po, not_or]
        exact ⟨lt_irrefl _, not_not.mpr rfl⟩
      dsimp only
      rw [if_neg fits]
      change _ = ((analyzeAsyntaxError s >>= fun _ => .ok ((storeSignal .empty file.records).1, s)) :
        Except Stop (List Wires × Signals)).map _
      cases analyzeAsyntaxError s <;> rfl

theorem NetlistFile.WellFormed.knownTypes (h : file.WellFormed) : KnownTypes file.records := by
  intro r mem
  obtain ⟨line, isLine, isRecord⟩ := List.mem_flatMap.mp mem
  have statement := (h.statements line isLine).2
  cases st : line.2 with
  | words keyword body =>
      rw [st] at isRecord
      cases isRecord
  | ports p =>
      rw [st] at isRecord
      cases isRecord
  | gate g r' =>
      rw [st] at isRecord statement
      cases List.mem_singleton.mp isRecord
      have gate : g.WellFormed r := statement
      exact List.mem_map_of_mem gate.cell

end File

/-- A file is read as it stands: the passes agree on its gates and ports, with the errors of `parser` on
them, and the graph of an accepted file gives the outputs the values that the gates of the file have. -/
theorem readNl_file (file : NetlistFile) (wellFormed : file.WellFormed) :
    readFile file.text = ((parser file.records file.ports).map fun r =>
      ⟨file.counts, file.records, r.1, r.2⟩) ∧
    ∀ net, readNl file.text = .ok net → (∀ r ∈ file.records, r.inName ≠ []) →
      (∀ r ∈ file.records, ∀ word ∈ r.inName,
        word ∈ inputsOf file.ports ∨ (file.records.map (·.outName)).count word = 1) →
      ∃ gates s, parser file.records file.ports = .ok (gates, s) ∧ net.pi = s.pi ∧
        Evaluates file.records file.ports s net.wiring := by
  have reads := wellFormed.readFile
  refine ⟨reads, fun net read pins used => ?_⟩
  cases run : parser file.records file.ports with
  | error e =>
      rw [run] at reads
      unfold readNl at read
      rw [reads] at read
      cases read
  | ok r =>
      obtain ⟨gates, s⟩ := r
      rw [run] at reads
      have loaded := Loaded.of_parser run
      obtain ⟨pi, -, refines⟩ := readNl_spec reads read
      exact ⟨gates, s, rfl, pi, loaded.evaluates wellFormed.knownTypes used pins refines⟩

/-! ### A file -/

theorem Word.of_check {delimiter : Char → Bool} {word : CStr}
    (check : (!word.isEmpty && word.all (fun ch => !delimiter ch && ch != Char.ofNat 0) &&
      decide (word.length < strMax)) = true) : Word delimiter word := by
  simp only [Bool.and_eq_true, Bool.not_eq_true', List.isEmpty_eq_false_iff, List.all_eq_true,
    decide_eq_true_eq, bne_iff_ne] at check
  exact ⟨check.1.1, fun ch mem => (check.1.2 ch mem).1, fun ch mem => (check.1.2 ch mem).2, check.2⟩

theorem Gap.of_check {gap : List Char}
    (check : gap.all (fun ch => delimiter0 ch && ch != ';') = true) : Gap gap := by
  intro ch mem
  have here := List.all_eq_true.mp check ch mem
  simpa using here

/-- `pin(signal)` with what follows. -/
def plainPin (pin signal : CStr) (outer : List Char) : PinText := ⟨pin, ['('], signal, ')' :: outer⟩

theorem plainPin_wellFormed {pin signal outer : List Char} (isPin : Word delimiter0 pin)
    (isSignal : Word delimiter0 signal) (isOuter : Gap outer) : (plainPin pin signal outer).WellFormed :=
  ⟨isPin, ⟨@Gap.of_check ['('] rfl, List.cons_ne_nil _ _⟩, isSignal,
    List.forall_mem_cons.mpr ⟨⟨rfl, by decide⟩, isOuter⟩, List.cons_ne_nil _ _⟩

/-- A NAND gate and a flip-flop behind it, with their pins in another order. -/
def nandText : GateText :=
  ⟨"NAND".toList, ['2'], [], ['U', '1'], [' ', '(', '.'], [plainPin ['B'] "a[1]".toList [',', ' ', '.'],
    plainPin ['Z'] ['z'] [',', ' ', '.'], plainPin ['A'] "a[0]".toList [')']]⟩

def dffText : GateText :=
  ⟨"DFF".toList, [], [], ['U', '2'], [' ', '(', '.'], [plainPin "CP".toList "clk".toList [',', ' ', '.'],
    plainPin ['Q'] ['q'] [',', ' ', '.'], plainPin ['D'] ['z'] [')']]⟩

def nandRecord : GateRecord := ⟨['U', '1'], .NAND, ['z'], ["a[0]".toList, "a[1]".toList]⟩

def dffRecord : GateRecord := ⟨['U', '2'], .DFF, ['q'], [['z']]⟩

def toggleFile : NetlistFile where
  statements :=
    [([], .words "module".toList "m (a, z)".toList),
      (['\n'], .ports ⟨true, some (['1'], ['0']), [' '], ['a'], [], []⟩),
      (['\n'], .ports ⟨false, none, [], ['z'], [([',', ' '], ['q'])], [' ']⟩),
      (['\n'], .gate nandText nandRecord), (['\n'], .gate dffText dffRecord)]
  last := ['\n']
  close := []

theorem nandText_wellFormed : nandText.WellFormed nandRecord where
  cell := by decide
  digits := List.forall_mem_singleton.mpr rfl
  short := by decide
  inputs := by decide
  exor := by decide
  blanks := fun ch mem => by cases mem
  name := .of_check (by decide)
  same := rfl
  lead := ⟨.of_check (by decide), by decide⟩
  pins := {
    wellFormed := by
      intro p mem
      simp only [nandText, List.mem_cons, List.not_mem_nil, or_false] at mem
      rcases mem with rfl | rfl | rfl <;>
        exact plainPin_wellFormed (.of_check (by decide)) (.of_check (by decide)) (.of_check (by decide))
    connected := by
      intro p mem
      have pins : dataPins nandText.pins = nandText.pins := by decide
      rw [pins] at mem
      simp only [nandText, List.mem_cons, List.not_mem_nil, or_false] at mem
      rcases mem with rfl | rfl | rfl <;> decide
    once := by decide
    all := by decide }

theorem dffText_wellFormed : dffText.WellFormed dffRecord where
  cell := by decide
  digits := fun ch mem => by cases mem
  short := by decide
  inputs := by decide
  exor := by decide
  blanks := fun ch mem => by cases mem
  name := .of_check (by decide)
  same := rfl
  lead := ⟨.of_check (by decide), by decide⟩
  pins := {
    wellFormed := by
      intro p mem
      simp only [dffText, List.mem_cons, List.not_mem_nil, or_false] at mem
      rcases mem with rfl | rfl | rfl <;>
        exact plainPin_wellFormed (.of_check (by decide)) (.of_check (by decide)) (.of_check (by decide))
    connected := by
      intro p mem
      have pins : dataPins dffText.pins = dffText.pins.tail := by decide
      rw [pins] at mem
      simp only [dffText, List.tail_cons, List.mem_cons, List.not_mem_nil, or_false] at mem
      rcases mem with rfl | rfl <;> decide
    once := by decide
    all := by decide }

theorem toggleFile_wellFormed : toggleFile.WellFormed where
  fits := by decide
  statements := by
    have newline : ∀ ch ∈ ['\n'], blank ch = true := List.forall_mem_singleton.mpr rfl
    have range : PortText.WellFormed ⟨true, some (['1'], ['0']), [' '], ['a'], [], []⟩ :=
      ⟨fun bits mem => by
        cases mem
        exact ⟨.of_check (by decide), .of_check (by decide)⟩, fun bits mem => by
        cases mem
        decide, List.forall_mem_singleton.mpr rfl,
        List.forall_mem_singleton.mpr ⟨.of_check (by decide), by decide⟩, fun name mem => (by cases mem),
        .inl rfl⟩
    have outputs : PortText.WellFormed ⟨false, none, [], ['z'], [([',', ' '], ['q'])], [' ']⟩ :=
      ⟨fun bits mem => (by cases mem), fun bits mem => (by cases mem), fun ch mem => (by cases mem),
        List.forall_mem_cons.mpr ⟨⟨.of_check (by decide), by decide⟩,
          List.forall_mem_singleton.mpr ⟨.of_check (by decide), by decide⟩⟩,
        List.forall_mem_singleton.mpr ⟨',', [' '], rfl, rfl, by decide, List.forall_mem_singleton.mpr rfl⟩,
        .inr ⟨' ', [], rfl, rfl, by decide, fun ch mem => (by cases mem)⟩⟩
    intro line mem
    simp only [toggleFile, List.mem_cons, List.not_mem_nil, or_false] at mem
    rcases mem with rfl | rfl | rfl | rfl | rfl
    · exact ⟨fun ch mem => (by cases mem), .inl rfl, by decide⟩
    · exact ⟨newline, range⟩
    · exact ⟨newline, outputs⟩
    · exact ⟨newline, nandText_wellFormed⟩
    · exact ⟨newline, dffText_wellFormed⟩
  last := List.forall_mem_singleton.mpr rfl
  close := fun ch mem => by cases mem

theorem readNl_file_toggle : ∃ net gates s, readNl toggleFile.text = .ok net ∧
    parser toggleFile.records toggleFile.ports = .ok (gates, s) ∧ net.pi = s.pi ∧
      Evaluates toggleFile.records toggleFile.ports s net.wiring := by
  have accepts : (readNl toggleFile.text).toOption.isSome = true := by decide +kernel
  cases read : readNl toggleFile.text with
  | error e =>
      rw [read] at accepts
      cases accepts
  | ok net =>
      obtain ⟨gates, s, run, pi, evaluates⟩ :=
        (readNl_file toggleFile toggleFile_wellFormed).2 net read (by decide) (by decide)
      exact ⟨net, gates, s, rfl, run, pi, evaluates⟩

end SafRprGen
