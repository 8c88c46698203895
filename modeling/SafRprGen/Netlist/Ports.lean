/-
Module: SafRprGen.Netlist.Ports
Layer: Netlist
Purpose: `store_pi_po` and `analyze_asyntax_error` on the signals that `store_signal` has numbered. Whatever
  the text is, looking up the ports is a search for a list of names; when it and the check succeed, the
  signals are as `connection_signal` needs them.
Main exports: declaration_sim, searchPorts, storePorts_search, Parsed.of_search, readFile_spec
-/
import SafRprGen.Netlist.Slots

namespace SafRprGen

/-! ### Declarations with different bodies -/

section Simulation

variable {σ τ : Type} {R : σ → τ → Prop}

theorem portLoop_sim {body : σ → Token → Except Stop σ} {body' : τ → Token → Except Stop τ}
    (step : ∀ s t tok s', R s t → body s tok = .ok s' → ∃ t', body' t tok = .ok t' ∧ R s' t') :
    ∀ (fuel : Nat) {s s' : σ} {t : τ} {tok tok' : Token}, R s t →
      portLoop body fuel s tok = .ok (s', tok') →
      ∃ t', portLoop body' fuel t tok = .ok (t', tok') ∧ R s' t' := by
  intro fuel
  induction fuel with
  | zero => intro s s' t tok tok' _ run; cases run
  | succ fuel ih =>
      intro s s' t tok tok' related run
      unfold portLoop at run ⊢
      split at run
      · rename_i ends
        cases run
        exact ⟨t, if_pos ends, related⟩
      · rename_i more
        rw [if_neg more]
        cases one : body s tok with
        | error e =>
            rw [one] at run
            cases run
        | ok s₁ =>
            obtain ⟨t₁, one', related₁⟩ := step s t tok s₁ related one
            rw [one] at run
            rw [one']
            dsimp only at run ⊢
            cases next : statementToken delimiter0 tok.rest with
            | error e =>
                rw [next] at run
                cases run
            | ok tok₁ =>
                rw [next] at run
                exact ih related₁ run

/-- Two declarations whose bodies stay related take the same text. -/
theorem declaration_sim {vector : Int → Int → σ → CStr → Except Stop σ}
    {vector' : Int → Int → τ → CStr → Except Stop τ} {scalar : σ → CStr → Except Stop σ}
    {scalar' : τ → CStr → Except Stop τ}
    (stepVector : ∀ bit1 bit2 s t str s', R s t → vector bit1 bit2 s str = .ok s' →
      ∃ t', vector' bit1 bit2 t str = .ok t' ∧ R s' t')
    (stepScalar : ∀ s t str s', R s t → scalar s str = .ok s' → ∃ t', scalar' t str = .ok t' ∧ R s' t')
    {s s' : σ} {t : τ} {text rest : List Char} (related : R s t)
    (run : declaration vector scalar s text = .ok (s', rest)) :
    ∃ t', declaration vector' scalar' t text = .ok (t', rest) ∧ R s' t' := by
  unfold declaration at run ⊢
  dsimp only at run ⊢
  split at run
  · rename_i bits
    rw [if_pos bits]
    obtain ⟨tok₁, first, run⟩ := Loop.bind_eq_ok.mp run
    obtain ⟨bit1, isBit1, run⟩ := Loop.bind_eq_ok.mp run
    obtain ⟨tok₂, second, run⟩ := Loop.bind_eq_ok.mp run
    obtain ⟨bit2, isBit2, run⟩ := Loop.bind_eq_ok.mp run
    obtain ⟨⟨⟩, fit, run⟩ := Loop.bind_eq_ok.mp run
    obtain ⟨tok₃, third, run⟩ := Loop.bind_eq_ok.mp run
    obtain ⟨⟨s₁, tok₄⟩, loop, run⟩ := Loop.bind_eq_ok.mp run
    obtain ⟨t₁, loop', related₁⟩ := portLoop_sim
      (fun s t tok s' => stepVector _ _ s t tok.str s') _ related loop
    rw [first]
    change ∃ t', (rangeBit tok₁.str >>= _) = _ ∧ _
    rw [isBit1]
    change ∃ t', (statementToken delimiter1 tok₁.rest >>= _) = _ ∧ _
    rw [second]
    change ∃ t', (rangeBit tok₂.str >>= _) = _ ∧ _
    rw [isBit2]
    change ∃ t', (bitsFit bit1 bit2 >>= _) = _ ∧ _
    rw [fit]
    change ∃ t', (statementToken delimiter0 tok₂.rest >>= _) = _ ∧ _
    rw [third]
    change ∃ t', (portLoop _ _ t tok₃ >>= _) = _ ∧ _
    rw [loop']
    change ∃ t', (if tok₄.code = 1 then _ else _) = _ ∧ _
    dsimp only at run
    by_cases ends : tok₄.code = 1
    · rw [if_pos ends] at run ⊢
      obtain ⟨s₂, last, run⟩ := Loop.bind_eq_ok.mp run
      cases run
      obtain ⟨t₂, last', related₂⟩ := stepVector _ _ s₁ t₁ tok₄.str s' related₁ last
      refine ⟨t₂, ?_, related₂⟩
      rw [last']
      rfl
    · rw [if_neg ends] at run ⊢
      cases run
      exact ⟨t₁, rfl, related₁⟩
  · rename_i plain
    rw [if_neg plain]
    obtain ⟨tok₁, first, run⟩ := Loop.bind_eq_ok.mp run
    obtain ⟨⟨s₁, tok₂⟩, loop, run⟩ := Loop.bind_eq_ok.mp run
    have step : ∀ s t (tok : Token) s', R s t →
        (if isClock tok then .ok s else if tok.code = 0 then scalar s tok.str else .ok s) = .ok s' →
        ∃ t', (if isClock tok then .ok t else if tok.code = 0 then scalar' t tok.str else .ok t) =
          .ok t' ∧ R s' t' := by
      intro s t tok s' related one
      by_cases clock : isClock tok = true
      · rw [if_pos clock] at one ⊢
        cases one
        exact ⟨t, rfl, related⟩
      · rw [if_neg clock] at one ⊢
        by_cases word : tok.code = 0
        · rw [if_pos word] at one ⊢
          exact stepScalar s t tok.str s' related one
        · rw [if_neg word] at one ⊢
          cases one
          exact ⟨t, rfl, related⟩
    obtain ⟨t₁, loop', related₁⟩ := portLoop_sim step _ related loop
    rw [first]
    change ∃ t', (portLoop _ _ t tok₁ >>= _) = _ ∧ _
    rw [loop']
    change ∃ t', (if (!isClock tok₂ && tok₂.code = 1) = true then _ else _) = _ ∧ _
    dsimp only at run
    by_cases ends : (!isClock tok₂ && tok₂.code = 1) = true
    · rw [if_pos ends] at run ⊢
      obtain ⟨s₂, last, run⟩ := Loop.bind_eq_ok.mp run
      cases run
      obtain ⟨t₂, last', related₂⟩ := stepScalar s₁ t₁ tok₂.str s' related₁ last
      refine ⟨t₂, ?_, related₂⟩
      rw [last']
      rfl
    · rw [if_neg ends] at run ⊢
      cases run
      exact ⟨t₁, rfl, related₁⟩

end Simulation

/-! ### Looking up a list of ports -/

/-- The ports are searched one after another. -/
def searchPorts {σ : Type} (search : Bool → σ → CStr → Except Stop σ) (s : σ)
    (ports : List (Bool × CStr)) : Except Stop σ :=
  ports.foldlM (fun s port => search port.1 s port.2) s

variable {σ : Type} {search : Bool → σ → CStr → Except Stop σ}

theorem searchPorts_append {s t : σ} {ports more : List (Bool × CStr)}
    (run : searchPorts search s ports = .ok t) :
    searchPorts search s (ports ++ more) = searchPorts search t more := by
  unfold searchPorts at *
  rw [List.foldlM_append, run]
  rfl

/-- The ports that a text declares. -/
def declaredPorts (text : List Char) : Except Stop (List (Bool × CStr)) :=
  storePorts (fun input ports word => .ok (ports ++ [(input, word)])) [] text

theorem readPiPo_search {s₀ s s' : σ} {ports : List (Bool × CStr)} {input : Bool}
    {text rest : List Char} (before : searchPorts search s₀ ports = .ok s)
    (run : readPiPo (search input) s text = .ok (s', rest)) :
    ∃ ports', readPiPo (fun ports word => .ok (ports ++ [(input, word)])) ports text =
      .ok (ports', rest) ∧ searchPorts search s₀ ports' = .ok s' := by
  have scalar : ∀ s ports str s', searchPorts search s₀ ports = .ok s → search input s str = .ok s' →
      ∃ ports', (Except.ok (ports ++ [(input, str)]) : Except Stop _) = .ok ports' ∧
        searchPorts search s₀ ports' = .ok s' := by
    intro s ports str s' before one
    refine ⟨_, rfl, ?_⟩
    rw [searchPorts_append before]
    change (search input s str >>= fun s => pure s) = _
    rw [one]
    rfl
  refine declaration_sim (fun bit1 bit2 s ports str s' before one => ?_) scalar before run
  generalize bitNames bit1 bit2 str = words at one ⊢
  induction words generalizing s ports with
  | nil =>
      cases one
      exact ⟨ports, rfl, before⟩
  | cons word words ih =>
      obtain ⟨t, first, one⟩ := Loop.bind_eq_ok.mp one
      obtain ⟨ports', run', before'⟩ := scalar s ports word t before first
      obtain ⟨ports'', run'', after⟩ := ih t ports' before' one
      refine ⟨ports'', ?_, after⟩
      rw [List.foldlM_cons, run']
      exact run''

/-- One pass, looking up the ports and collecting them. -/
theorem storePortsStep_search {s : σ} : ∀ (t : σ × List Char) (p : List (Bool × CStr) × List Char)
    (r : Option (σ × List Char)), (searchPorts search s p.1 = .ok t.1 ∧ t.2 = p.2) →
    storePortsStep search t = .ok r → ∃ r',
      storePortsStep (fun input ports word => .ok (ports ++ [(input, word)])) p = .ok r' ∧
      Option.Rel (fun t p => searchPorts search s p.1 = .ok t.1 ∧ t.2 = p.2) r r' := by
  rintro ⟨t, body⟩ ⟨ports, _⟩ r ⟨before, rfl⟩ next
  unfold storePortsStep at next ⊢
  dsimp only at next ⊢
  cases got : getToken delimiter0 body with
  | error e =>
      rw [got] at next
      cases next
  | ok token =>
      rw [got] at next
      cases token with
      | none =>
          cases next
          exact ⟨none, rfl, .none⟩
      | some tok =>
          dsimp only at next ⊢
          have declares : ∀ input, (readPiPo (search input) t tok.rest).map some = .ok r →
              ∃ r', (readPiPo (fun ports word => .ok (ports ++ [(input, word)])) ports
                  tok.rest).map some = .ok r' ∧
                Option.Rel (fun t p => searchPorts search s p.1 = .ok t.1 ∧ t.2 = p.2) r r' := by
            intro input isStep
            cases read : readPiPo (search input) t tok.rest with
            | error e =>
                rw [read] at isStep
                cases isStep
            | ok t' =>
                rw [read] at isStep
                cases isStep
                obtain ⟨ports', read', after⟩ := readPiPo_search before read
                rw [read']
                exact ⟨some (ports', t'.2), rfl, .some ⟨after, rfl⟩⟩
          by_cases isInput : tok.str = "input".toList
          · rw [if_pos isInput] at next ⊢
            exact declares true next
          · rw [if_neg isInput] at next ⊢
            by_cases isOutput : tok.str = "output".toList
            · rw [if_pos isOutput] at next ⊢
              exact declares false next
            · rw [if_neg isOutput] at next ⊢
              by_cases ends : tok.str = "endmodule".toList
              · rw [if_pos ends] at next ⊢
                cases next
                exact ⟨_, rfl, .some ⟨before, rfl⟩⟩
              · rw [if_neg ends] at next ⊢
                cases skip : skipStatement tok.rest with
                | error e =>
                    rw [skip] at next
                    cases next
                | ok rest =>
                    rw [skip] at next
                    cases next
                    exact ⟨_, rfl, .some ⟨before, rfl⟩⟩

/-- What `store_pi_po` does to the state is a search for the declared ports. -/
theorem storePorts_search {s s' : σ} {text : List Char} (run : storePorts search s text = .ok s') :
    ∃ ports, declaredPorts text = .ok ports ∧ searchPorts search s ports = .ok s' := by
  unfold storePorts at run
  cases loop : Loop.exceptLoop .undefined (storePortsStep search) (fuelFor text) (s, text) with
  | error e =>
      rw [loop] at run
      cases run
  | ok t =>
      rw [loop] at run
      cases run
      have start : searchPorts search s (([], text) : List (Bool × CStr) × List Char).1 = .ok (s, text).1 ∧
          (s, text).2 = (([], text) : List (Bool × CStr) × List Char).2 := ⟨rfl, rfl⟩
      obtain ⟨⟨ports, rest⟩, declared, found, -⟩ :=
        Loop.exceptLoop_sim _ (@storePortsStep_search _ search s) (fuelFor text) start loop
      refine ⟨ports, ?_, found⟩
      rw [declaredPorts, storePorts, declared]
      rfl

/-! ### `hash_search_pi_po` -/

/-- The declared inputs and outputs. -/
def inputsOf (ports : List (Bool × CStr)) : List CStr := (ports.filter (·.1)).map (·.2)

def outputsOf (ports : List (Bool × CStr)) : List CStr := (ports.filter (!·.1)).map (·.2)

/-- The signals after a search for some ports. -/
structure Searched (s₀ : Signals) (ports : List (Bool × CStr)) (s : Signals) : Prop where
  table : s.table = s₀.table
  parserArray : s.parserArray = s₀.parserArray
  pi : s.pi.map (s₀.table.names[·]?) = (inputsOf ports).map some
  po : s.po.map (s₀.table.names[·]?) = (outputsOf ports).map some
  type : ∀ n, s.type n = if n ∈ s.pi then .IN else .UNSET

theorem hashSearchPiPo_searched {s₀ s s' : Signals} {ports : List (Bool × CStr)} {input : Bool}
    {word : CStr} (valid : s₀.table.Valid hashKey) (searched : Searched s₀ ports s)
    (run : hashSearchPiPo input s word = .ok s') : Searched s₀ (ports ++ [(input, word)]) s' := by
  obtain ⟨table, parserArray, pi, po, type⟩ := searched
  unfold hashSearchPiPo at run
  rw [table] at run
  cases found : s₀.table.search hashKey word with
  | none =>
      rw [found] at run
      cases run
  | some nid =>
      rw [found] at run
      have named := (NameTable.search_eq_some valid).mp found
      dsimp only at run
      cases input with
      | true =>
          rw [if_pos rfl] at run
          cases run
          refine ⟨rfl, parserArray, ?_, ?_, fun n => ?_⟩
          · simp [inputsOf, named] at pi ⊢
            exact pi
          · simp [outputsOf] at po ⊢
            exact po
          · dsimp only
            rw [Function.update_apply, type]
            by_cases here : n = nid
            · simp [here]
            · simp [here]
      | false =>
          rw [if_neg Bool.false_ne_true] at run
          cases run
          refine ⟨rfl, parserArray, ?_, ?_, type⟩
          · simp [inputsOf] at pi ⊢
            exact pi
          · simp [outputsOf, named] at po ⊢
            exact po

theorem searchPorts_searched {s₀ : Signals} (valid : s₀.table.Valid hashKey)
    (more : List (Bool × CStr)) : ∀ {s s' : Signals} {ports : List (Bool × CStr)},
      Searched s₀ ports s → searchPorts hashSearchPiPo s more = .ok s' →
      Searched s₀ (ports ++ more) s' := by
  induction more with
  | nil =>
      intro s s' ports searched run
      cases run
      simpa using searched
  | cons port more ih =>
      intro s s' ports searched run
      obtain ⟨t, one, run⟩ := Loop.bind_eq_ok.mp run
      have next := ih (hashSearchPiPo_searched valid searched one) run
      simpa using next

/-! ### `analyze_asyntax_error` -/

/-- The check passes exactly when no signal has two drivers and no input has one. -/
theorem analyzeAsyntaxError_ok {s : Signals} : analyzeAsyntaxError s = .ok () ↔
    ∀ n < s.nNet, s.parserArray true n ≤ 1 ∧ (s.type n = .IN → s.parserArray true n = 0) := by
  unfold analyzeAsyntaxError
  have general : ∀ nets : List Nat, (nets.forM fun n =>
      if 1 ≤ s.parserArray true n ∧ s.type n = .IN then Except.error (Stop.error 4 (s.name n))
      else if 2 ≤ s.parserArray true n then .error (.error 5 (s.name n)) else .ok ()) = .ok () ↔
        ∀ n ∈ nets, s.parserArray true n ≤ 1 ∧ (s.type n = .IN → s.parserArray true n = 0) := by
    intro nets
    induction nets with
    | nil => simp; rfl
    | cons n nets ih =>
        rw [List.forall_mem_cons, ← ih, List.forM]
        by_cases input : 1 ≤ s.parserArray true n ∧ s.type n = .IN
        · rw [if_pos input]
          refine ⟨fun h => (by cases h), fun h => ?_⟩
          have := h.1.2 input.2
          omega
        · rw [if_neg input]
          by_cases two : 2 ≤ s.parserArray true n
          · rw [if_pos two]
            refine ⟨fun h => (by cases h), fun h => ?_⟩
            have := h.1.1
            omega
          · rw [if_neg two]
            refine ⟨fun h => ⟨⟨by omega, fun isIn => ?_⟩, h⟩, fun h => h.2⟩
            by_contra some
            exact input ⟨by omega, isIn⟩
  rw [general]
  simp only [List.mem_range]

theorem counted_of_searched {s₀ s : Signals} {ports : List (Bool × CStr)} {uses drivers : List Nat}
    (counted : Counted s₀ uses drivers) (searched : Searched s₀ ports s) : Counted s uses drivers := by
  obtain ⟨table, parserArray, -, -, -⟩ := searched
  refine ⟨table ▸ counted.valid, fun n => ?_, fun n => ?_, fun n => ?_⟩
  · rw [parserArray, counted.used]
  · rw [parserArray, counted.driven]
  · rw [← counted.low, Signals.nNet, table]
    rfl

theorem named_lt {s : Signals} {nids : List Nat} {words : List CStr}
    (named : nids.map (s.table.names[·]?) = words.map some) : ∀ n ∈ nids, n < s.nNet := by
  intro n mem
  have known : s.table.names[n]? ∈ words.map some := by
    rw [← named]
    exact List.mem_map_of_mem mem
  obtain ⟨word, -, isName⟩ := List.mem_map.mp known
  exact (List.getElem?_eq_some_iff.mp isName.symm).1

/-- Gate records and ports that pass the parser. -/
structure Loaded (records : List GateRecord) (ports : List (Bool × CStr)) (s : Signals)
    (gates : List Wires) : Prop where
  stored : (storeSignal .empty records).1 = gates
  table : s.table = (storeSignal .empty records).2.table
  names : List.Forall₂ (Names s) records gates
  pi : s.pi.map (s.table.names[·]?) = (inputsOf ports).map some
  po : s.po.map (s.table.names[·]?) = (outputsOf ports).map some
  parsed : Parsed s gates

/-- `parser` on records and ports. -/
theorem Loaded.of_search {records : List GateRecord} {ports : List (Bool × CStr)} {gates : List Wires}
    {s₀ s : Signals} (stored : storeSignal .empty records = (gates, s₀))
    (run : searchPorts hashSearchPiPo s₀ ports = .ok s) (check : analyzeAsyntaxError s = .ok ()) :
    Loaded records ports s gates := by
  obtain ⟨gates', s₀', stored', extends', names, counted⟩ := storeSignal_spec records counted_empty
  rw [stored] at stored'
  cases stored'
  have start : Searched s₀ [] s₀ := by
    refine ⟨rfl, rfl, ?_, ?_, fun n => ?_⟩
    · rw [extends'.pi]
      rfl
    · rw [extends'.po]
      rfl
    · rw [extends'.type, extends'.pi]
      rfl
  have searched := searchPorts_searched counted.valid ports start run
  rw [List.nil_append] at searched
  have counted' := counted_of_searched counted searched
  rw [List.nil_append, List.nil_append] at counted'
  obtain ⟨table, -, pi, po, type⟩ := searched
  have checked := analyzeAsyntaxError_ok.mp check
  have piLt : ∀ n ∈ s.pi, n < s.nNet := named_lt (table ▸ pi)
  refine ⟨by rw [stored], by rw [stored, table], ?_, table ▸ pi, table ▸ po, counted', piLt,
    named_lt (table ▸ po), type, ?_, ?_⟩
  · refine names.imp fun r gate h => ⟨h.type, ?_, ?_⟩
    · rw [table]
      exact h.out
    · rw [table]
      exact h.ins
  · rw [List.nodup_iff_count_le_one]
    intro n
    by_cases low : n < s.nNet
    · rw [← counted'.driven]
      exact (checked n low).1
    · have none : n ∉ driversOf gates := fun mem => low ((counted'.low n).mpr (.inr mem))
      rw [List.count_eq_zero.mpr none]
      exact Nat.zero_le 1
  · intro n mem
    rw [← List.count_eq_zero, ← counted'.driven]
    exact (checked n (piLt n mem)).2 (by rw [type, if_pos mem])

/-- What `read_file` and `parser` accept is loaded, with as many records and ports as counted. -/
theorem readFile_spec {text : List Char} {a : Accepted} (run : readFile text = .ok a) :
    read1st text = .ok a.counts ∧ a.records.length = a.counts.nModule ∧
      a.signals.pi.length ≤ a.counts.nPi ∧ a.signals.po.length = a.counts.nPo ∧
      ∃ ports, declaredPorts text = .ok ports ∧ Loaded a.records ports a.signals a.gates := by
  unfold readFile at run
  cases first : read1st text with
  | error e =>
      rw [first] at run
      cases run
  | ok counts =>
      rw [first] at run
      dsimp only at run
      split at run
      · cases run
      · rename_i modules second
        split at run
        · cases run
        · rename_i records complete
          split at run
          · cases run
          · rename_i count
            cases stored : storeSignal .empty records with
            | mk gates s₀ =>
                rw [stored] at run
                dsimp only at run
                split at run
                · cases run
                · rename_i s search
                  split at run
                  · cases run
                  · rename_i fits
                    split at run
                    · cases run
                    · rename_i check
                      cases run
                      obtain ⟨ports, declared, found⟩ := storePorts_search search
                      rw [not_or] at fits
                      exact ⟨rfl, not_not.mp (not_or.mp count).1, Nat.le_of_not_lt fits.1,
                        not_not.mp fits.2, ports, declared, .of_search stored found check⟩

/-! ### Names and numbers -/

/-- Numbers are counted as their names are. -/
theorem count_named {names : List CStr} (nodup : names.Nodup) {nids : List Nat} {words : List CStr}
    (named : nids.map (names[·]?) = words.map some) {n : Nat} {w : CStr} (isName : names[n]? = some w) :
    nids.count n = words.count w := by
  induction nids generalizing words with
  | nil =>
      cases words with
      | nil => rfl
      | cons word words => cases named
  | cons nid nids ih =>
      cases words with
      | nil => cases named
      | cons word words =>
          rw [List.map_cons, List.map_cons, List.cons.injEq] at named
          have same : nid = n ↔ word = w := by
            constructor
            · rintro rfl
              exact Option.some.inj (named.1.symm.trans isName)
            · rintro rfl
              have low := (List.getElem?_eq_some_iff.mp named.1).1
              exact (List.getElem?_inj low nodup).mp (named.1.trans isName.symm)
          rw [List.count_cons, List.count_cons, ih named.2]
          congr 1
          by_cases here : nid = n
          · rw [if_pos (by simpa using here), if_pos (by simpa using same.mp here)]
          · rw [if_neg (by simpa using here), if_neg (by simpa using mt same.mpr here)]

theorem Signals.names_getElem? {s : Signals} {n : Nat} (low : n < s.nNet) :
    s.table.names[n]? = some (s.name n) := by
  have low' : n < s.table.names.length := low
  rw [Signals.name, List.getD_eq_getElem?_getD, List.getElem?_eq_getElem low']
  rfl

variable {records : List GateRecord} {ports : List (Bool × CStr)} {s : Signals} {gates : List Wires}

theorem Loaded.usesNamed (loaded : Loaded records ports s gates) :
    (usesOf gates).map (s.table.names[·]?) = (records.flatMap (·.inName)).map some := by
  have names := loaded.names
  clear loaded
  unfold usesOf
  induction names with
  | nil => rfl
  | cons one _ ih =>
      rw [List.flatMap_cons, List.flatMap_cons, List.map_append, List.map_append, ih, one.ins]

theorem Loaded.driversNamed (loaded : Loaded records ports s gates) :
    (driversOf gates).map (s.table.names[·]?) = (records.map (·.outName)).map some := by
  have names := loaded.names
  clear loaded
  unfold driversOf
  induction names with
  | nil => rfl
  | cons one _ ih =>
      rw [List.map_cons, List.map_cons, List.map_cons, List.map_cons, ih, one.out]

end SafRprGen
