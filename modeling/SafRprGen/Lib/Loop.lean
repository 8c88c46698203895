/-
Module: SafRprGen.Lib.Loop
Layer: Lib
Purpose: `while` loops with a pass function. A pass gives the next state, or `none` when the loop
  condition is false. `whileLoop` bounds the number of passes by a fuel argument; a variant shows that
  enough fuel always reaches the exit, so the bound is never part of a result. The three rules are the
  total one (`whileLoop_total`), the partial one (`whileLoop_inv`) and lockstep simulation of two loops
  (`whileLoop_lockstep`).
Main exports: whileLoop, whileLoop_total, whileLoop_inv, whileLoop_lockstep, foldl_inv
-/
import Mathlib.Order.Basic
import Mathlib.Tactic.Common

namespace Loop

variable {σ τ : Type*}

/-- Run `pass` until it answers `none`; `none` when the fuel runs out first. -/
def whileLoop (pass : σ → Option σ) : Nat → σ → Option σ
  | 0, _ => none
  | fuel + 1, s =>
      match pass s with
      | none => some s
      | some s' => whileLoop pass fuel s'

theorem whileLoop_exit {pass : σ → Option σ} {s : σ} (done : pass s = none) (fuel : Nat) :
    whileLoop pass (fuel + 1) s = some s := by
  simp [whileLoop, done]

theorem whileLoop_pass {pass : σ → Option σ} {s s' : σ} (next : pass s = some s') (fuel : Nat) :
    whileLoop pass (fuel + 1) s = whileLoop pass fuel s' := by
  simp [whileLoop, next]

/-- Total rule: an invariant kept by every pass and a variant that every pass lowers give an exit
state within the fuel. -/
theorem whileLoop_total {pass : σ → Option σ} (inv : σ → Prop) (variant : σ → Nat)
    (step : ∀ s s', inv s → pass s = some s' → inv s' ∧ variant s' < variant s) :
    ∀ (fuel : Nat) (s : σ), inv s → variant s < fuel →
      ∃ t, whileLoop pass fuel s = some t ∧ inv t ∧ pass t = none := by
  intro fuel
  induction fuel with
  | zero => intro s _ low; omega
  | succ fuel ih =>
      intro s holds low
      cases next : pass s with
      | none => exact ⟨s, whileLoop_exit next fuel, holds, next⟩
      | some s' =>
          obtain ⟨holds', less⟩ := step s s' holds next
          rw [whileLoop_pass next]
          exact ih s' holds' (by omega)

/-- Partial rule: what every pass keeps holds at the exit, where the loop condition is false. -/
theorem whileLoop_inv {pass : σ → Option σ} (inv : σ → Prop)
    (step : ∀ s s', inv s → pass s = some s' → inv s') :
    ∀ (fuel : Nat) (s t : σ), inv s → whileLoop pass fuel s = some t → inv t ∧ pass t = none := by
  intro fuel
  induction fuel with
  | zero => intro s t _ run; simp [whileLoop] at run
  | succ fuel ih =>
      intro s t holds run
      cases next : pass s with
      | none =>
          rw [whileLoop_exit next] at run
          cases run
          exact ⟨holds, next⟩
      | some s' =>
          rw [whileLoop_pass next] at run
          exact ih s' t (step s s' holds next) run

/-- Fuel beyond the exit changes nothing. -/
theorem whileLoop_mono {pass : σ → Option σ} :
    ∀ (fuel : Nat) {s t : σ}, whileLoop pass fuel s = some t →
      ∀ more, whileLoop pass (fuel + more) s = some t := by
  intro fuel
  induction fuel with
  | zero => intro s t run; simp [whileLoop] at run
  | succ fuel ih =>
      intro s t run more
      rw [Nat.add_right_comm]
      cases next : pass s with
      | none => rw [whileLoop_exit next] at run ⊢; exact run
      | some s' =>
          rw [whileLoop_pass next] at run ⊢
          exact ih run more

/-- Two loops whose passes stay related run in lockstep: both reach their exits or neither does. -/
theorem whileLoop_lockstep {pass : σ → Option σ} {pass' : τ → Option τ} (rel : σ → τ → Prop)
    (step : ∀ s t, rel s t → Option.Rel rel (pass s) (pass' t)) :
    ∀ (fuel : Nat) (s : σ) (t : τ), rel s t →
      Option.Rel rel (whileLoop pass fuel s) (whileLoop pass' fuel t) := by
  intro fuel
  induction fuel with
  | zero => intro s t _; exact .none
  | succ fuel ih =>
      intro s t related
      have both := step s t related
      cases next : pass s with
      | none =>
          rw [next] at both
          cases next' : pass' t with
          | none => simpa [whileLoop, next, next'] using Option.Rel.some related
          | some t' => rw [next'] at both; cases both
      | some s' =>
          rw [next] at both
          cases next' : pass' t with
          | none => rw [next'] at both; cases both
          | some t' =>
              rw [next'] at both
              cases both with
              | some related' => simpa [whileLoop, next, next'] using ih s' t' related'

/-- A loop that carries more than another one does the same to what both carry. -/
theorem whileLoop_erase {pass : σ → Option σ} {pass' : τ → Option τ} (erase : σ → τ)
    (step : ∀ s, (pass s).map erase = pass' (erase s)) :
    ∀ (fuel : Nat) (s : σ), (whileLoop pass fuel s).map erase = whileLoop pass' fuel (erase s) := by
  intro fuel
  induction fuel with
  | zero => intro s; rfl
  | succ fuel ih =>
      intro s
      have next' := step s
      cases next : pass s with
      | none =>
          rw [next, Option.map_none] at next'
          rw [whileLoop_exit next, whileLoop_exit next'.symm]
          rfl
      | some s' =>
          rw [next, Option.map_some] at next'
          rw [whileLoop_pass next, whileLoop_pass next'.symm]
          exact ih s'

/-- Rule for a counted loop: an invariant indexed by the part already done. -/
theorem foldl_inv {α : Type*} (body : σ → α → σ) (inv : List α → σ → Prop)
    (items : List α) {s : σ} (start : inv [] s)
    (step : ∀ seen x rest s, items = seen ++ x :: rest → inv seen s → inv (seen ++ [x]) (body s x)) :
    inv items (items.foldl body s) := by
  have general : ∀ (rest seen : List α) (s : σ), items = seen ++ rest → inv seen s →
      inv items (rest.foldl body s) := by
    intro rest
    induction rest with
    | nil => intro seen s split holds; simpa [split] using holds
    | cons x rest ih =>
        intro seen s split holds
        rw [List.foldl_cons]
        exact ih (seen ++ [x]) (body s x) (by simp [split]) (step seen x rest s split holds)
  exact general items [] s rfl start

/-- Rule for a counted loop that can stop: each item is passed, so the loop is. -/
theorem foldlM_inv {α : Type*} (body : σ → α → Option σ) (inv : List α → σ → Prop)
    (items : List α) {s : σ} (start : inv [] s)
    (step : ∀ seen x rest s, items = seen ++ x :: rest → inv seen s →
      ∃ s', body s x = some s' ∧ inv (seen ++ [x]) s') :
    ∃ t, items.foldlM body s = some t ∧ inv items t := by
  have general : ∀ (rest seen : List α) (s : σ), items = seen ++ rest → inv seen s →
      ∃ t, rest.foldlM body s = some t ∧ inv items t := by
    intro rest
    induction rest with
    | nil => intro seen s split holds; exact ⟨s, rfl, by simpa [split] using holds⟩
    | cons x rest ih =>
        intro seen s split holds
        obtain ⟨s', run, holds'⟩ := step seen x rest s split holds
        rw [List.foldlM_cons, run]
        exact ih (seen ++ [x]) s' (by simp [split]) holds'
  exact general items [] s rfl start

/-- Nested counted loops are one loop over the items in order. -/
theorem foldlM_flatMap {α β : Type*} (body : σ → β → Option σ) (inner : α → List β) (items : List α) :
    ∀ s : σ, items.foldlM (fun s x => (inner x).foldlM body s) s =
      (items.flatMap inner).foldlM body s := by
  induction items with
  | nil => intro s; rfl
  | cons x items ih =>
      intro s
      rw [List.flatMap_cons, List.foldlM_append, List.foldlM_cons]
      exact congrArg _ (funext ih)

/-- A loop that an error stops: the Boolean of the body is false after an error. -/
def untilError {α : Type*} (body : σ → α → Option (Bool × σ)) : List α → σ → Option (Bool × σ)
  | [], s => some (true, s)
  | x :: rest, s =>
      (body s x).bind fun (okay, s) => if okay then untilError body rest s else some (false, s)

/-- An invariant of the passes without error holds when the loop ends without one. -/
theorem untilError_inv {α : Type*} {body : σ → α → Option (Bool × σ)} (inv : List α → σ → Prop)
    (step : ∀ seen x s t, inv seen s → body s x = some (true, t) → inv (seen ++ [x]) t) :
    ∀ (rest seen : List α) (s t : σ), inv seen s → untilError body rest s = some (true, t) →
      inv (seen ++ rest) t := by
  intro rest
  induction rest with
  | nil =>
      intro seen s t holds run
      cases run
      simpa using holds
  | cons x rest ih =>
      intro seen s t holds run
      obtain ⟨⟨okay, u⟩, one, run⟩ := Option.bind_eq_some_iff.mp run
      cases okay with
      | false => cases run
      | true =>
          have done := ih (seen ++ [x]) u t (step seen x s u holds one) run
          simpa using done

/-- Passes that fail exactly on some items: the loop succeeds when none of them occurs. -/
theorem untilError_total {α : Type*} {body : σ → α → Option (Bool × σ)} (good : α → Prop)
    (inv : List α → σ → Prop) (items : List α)
    (step : ∀ seen x rest s, items = seen ++ x :: rest → inv seen s → ∃ okay t,
      body s x = some (okay, t) ∧ (okay = true ↔ good x) ∧ (okay = true → inv (seen ++ [x]) t))
    {s : σ} (start : inv [] s) :
    ∃ okay t, untilError body items s = some (okay, t) ∧ (okay = true ↔ ∀ x ∈ items, good x) ∧
      (okay = true → inv items t) := by
  have general : ∀ (rest seen : List α) (s : σ), items = seen ++ rest → inv seen s →
      ∃ okay t, untilError body rest s = some (okay, t) ∧ (okay = true ↔ ∀ x ∈ rest, good x) ∧
        (okay = true → inv items t) := by
    intro rest
    induction rest with
    | nil =>
        intro seen s split holds
        exact ⟨true, s, rfl, by simp, fun _ => by simpa [split] using holds⟩
    | cons x rest ih =>
        intro seen s split holds
        obtain ⟨okay, u, one, isGood, next⟩ := step seen x rest s split holds
        cases okay with
        | false =>
            refine ⟨false, u, by rw [untilError, one]; rfl, ⟨fun h => (by cases h), fun all => ?_⟩,
              fun h => by cases h⟩
            exact isGood.mpr (all x List.mem_cons_self)
        | true =>
            obtain ⟨okay, t, run, iff, done⟩ := ih (seen ++ [x]) u (by simpa using split) (next rfl)
            refine ⟨okay, t, by rw [untilError, one]; exact run, ?_, done⟩
            rw [iff, List.forall_mem_cons]
            exact ⟨fun h => ⟨isGood.mp rfl, h⟩, fun h => h.2⟩
  exact general items [] s rfl start

/-! ### Loops that can stop with an error -/

variable {ε : Type*}

/-- Run `pass` until it answers `none` or an error; `stuck` when the fuel runs out first. -/
def exceptLoop (stuck : ε) (pass : σ → Except ε (Option σ)) : Nat → σ → Except ε σ
  | 0, _ => .error stuck
  | fuel + 1, s =>
      match pass s with
      | .error e => .error e
      | .ok none => .ok s
      | .ok (some s') => exceptLoop stuck pass fuel s'

/-- The states of a loop. -/
inductive Reaches (pass : σ → Except ε (Option σ)) (s : σ) : σ → Prop where
  | refl : Reaches pass s s
  | step {t u : σ} : Reaches pass s t → pass t = .ok (some u) → Reaches pass s u

theorem Reaches.head {pass : σ → Except ε (Option σ)} {s s' t : σ} (next : pass s = .ok (some s'))
    (rest : Reaches pass s' t) : Reaches pass s t := by
  induction rest with
  | refl => exact .step .refl next
  | step _ last ih => exact .step ih last

/-- A computation that ends is one whose steps end. -/
theorem bind_eq_ok {α β : Type} {ε : Type*} {x : Except ε α} {f : α → Except ε β} {b : β} :
    x >>= f = .ok b ↔ ∃ a, x = .ok a ∧ f a = .ok b := by
  cases x with
  | error e => exact ⟨fun h => (by cases h), fun ⟨_, h, _⟩ => by cases h⟩
  | ok a => exact ⟨fun h => ⟨a, rfl, h⟩, fun ⟨_, h, run⟩ => by cases h; exact run⟩

theorem map_eq_ok {α β : Type} {ε : Type*} {x : Except ε α} {f : α → β} {b : β} :
    x.map f = .ok b ↔ ∃ a, x = .ok a ∧ f a = b := by
  cases x with
  | error e => exact ⟨fun h => (by cases h), fun ⟨_, h, _⟩ => by cases h⟩
  | ok a => exact ⟨fun h => (by cases h; exact ⟨a, rfl, rfl⟩),
      fun ⟨_, h, same⟩ => by cases h; exact congrArg _ same⟩

/-- With a variant the loop ends in a state it reaches, at its exit or with an error. -/
theorem exceptLoop_total {stuck : ε} {pass : σ → Except ε (Option σ)} (variant : σ → Nat)
    (lower : ∀ s s', pass s = .ok (some s') → variant s' < variant s) :
    ∀ (fuel : Nat) (s : σ), variant s < fuel → ∃ t, Reaches pass s t ∧
      ((pass t = .ok none ∧ exceptLoop stuck pass fuel s = .ok t) ∨
        ∃ e, pass t = .error e ∧ exceptLoop stuck pass fuel s = .error e) := by
  intro fuel
  induction fuel with
  | zero => intro s low; omega
  | succ fuel ih =>
      intro s low
      unfold exceptLoop
      cases next : pass s with
      | error e => exact ⟨s, .refl, .inr ⟨e, next, rfl⟩⟩
      | ok r =>
          cases r with
          | none => exact ⟨s, .refl, .inl ⟨next, rfl⟩⟩
          | some s' =>
              have less := lower s s' next
              obtain ⟨t, reached, ends⟩ := ih s' (by omega)
              exact ⟨t, .head next reached, ends⟩

/-- A loop that ends ends at its exit. -/
theorem exceptLoop_ok {stuck : ε} {pass : σ → Except ε (Option σ)} :
    ∀ {fuel : Nat} {s t : σ}, exceptLoop stuck pass fuel s = .ok t →
      Reaches pass s t ∧ pass t = .ok none := by
  intro fuel
  induction fuel with
  | zero => intro s t run; cases run
  | succ fuel ih =>
      intro s t run
      unfold exceptLoop at run
      cases next : pass s with
      | error e =>
          rw [next] at run
          cases run
      | ok r =>
          rw [next] at run
          cases r with
          | none =>
              cases run
              exact ⟨.refl, next⟩
          | some s' =>
              obtain ⟨reached, exit⟩ := ih run
              exact ⟨.head next reached, exit⟩

/-- The rest of a loop that ends is a loop that ends. -/
theorem exceptLoop_next {stuck : ε} {pass : σ → Except ε (Option σ)} {fuel : Nat} {s s' t : σ}
    (run : exceptLoop stuck pass fuel s = .ok t) (next : pass s = .ok (some s')) :
    ∃ fuel', exceptLoop stuck pass fuel' s' = .ok t := by
  cases fuel with
  | zero => cases run
  | succ fuel =>
      rw [exceptLoop, next] at run
      exact ⟨fuel, run⟩

/-- Going on from a state that is reached does not change the result. -/
theorem exceptLoop_reaches {stuck : ε} {pass : σ → Except ε (Option σ)} (variant : σ → Nat)
    (lower : ∀ s s', pass s = .ok (some s') → variant s' < variant s) {s t : σ}
    (reached : Reaches pass s t) {fuel : Nat} (low : variant s < fuel) :
    ∃ fuel', variant t < fuel' ∧ exceptLoop stuck pass fuel s = exceptLoop stuck pass fuel' t := by
  induction reached with
  | refl => exact ⟨fuel, low, rfl⟩
  | step _ next ih =>
      obtain ⟨fuel', low', same⟩ := ih
      have less := lower _ _ next
      cases fuel' with
      | zero => omega
      | succ fuel' =>
          refine ⟨fuel', by omega, ?_⟩
          rw [same, exceptLoop, next]

/-- A state at the exit is the result. -/
theorem exceptLoop_of_exit {stuck : ε} {pass : σ → Except ε (Option σ)} (variant : σ → Nat)
    (lower : ∀ s s', pass s = .ok (some s') → variant s' < variant s) {s t : σ}
    (reached : Reaches pass s t) (exit : pass t = .ok none) {fuel : Nat} (low : variant s < fuel) :
    exceptLoop stuck pass fuel s = .ok t := by
  obtain ⟨fuel', low', same⟩ := @exceptLoop_reaches _ _ stuck _ variant lower _ _ reached _ low
  cases fuel' with
  | zero => omega
  | succ fuel' => rw [same, exceptLoop, exit]

/-- An error in a state that is reached is the result. -/
theorem exceptLoop_of_error {stuck : ε} {pass : σ → Except ε (Option σ)} (variant : σ → Nat)
    (lower : ∀ s s', pass s = .ok (some s') → variant s' < variant s) {s t : σ} {e : ε}
    (reached : Reaches pass s t) (fails : pass t = .error e) {fuel : Nat} (low : variant s < fuel) :
    exceptLoop stuck pass fuel s = .error e := by
  obtain ⟨fuel', low', same⟩ := @exceptLoop_reaches _ _ stuck _ variant lower _ _ reached _ low
  cases fuel' with
  | zero => omega
  | succ fuel' => rw [same, exceptLoop, fails]

/-- The states after the first one are those of the rest of the loop. -/
theorem Reaches.cases_head {pass : σ → Except ε (Option σ)} {s t : σ} (reached : Reaches pass s t) :
    t = s ∨ ∃ s', pass s = .ok (some s') ∧ Reaches pass s' t := by
  induction reached with
  | refl => exact .inl rfl
  | step _ next ih =>
      right
      rcases ih with rfl | ⟨s', first, rest⟩
      · exact ⟨_, next, .refl⟩
      · exact ⟨s', first, .step rest next⟩

/-- Two loops whose passes stay related end in related states. -/
theorem exceptLoop_sim {stuck : ε} {pass : σ → Except ε (Option σ)} {pass' : τ → Except ε (Option τ)}
    (rel : σ → τ → Prop)
    (step : ∀ s t r, rel s t → pass s = .ok r → ∃ r', pass' t = .ok r' ∧ Option.Rel rel r r') :
    ∀ (fuel : Nat) {s s' : σ} {t : τ}, rel s t → exceptLoop stuck pass fuel s = .ok s' →
      ∃ t', exceptLoop stuck pass' fuel t = .ok t' ∧ rel s' t' := by
  intro fuel
  induction fuel with
  | zero => intro s s' t _ run; cases run
  | succ fuel ih =>
      intro s s' t related run
      unfold exceptLoop at run ⊢
      cases next : pass s with
      | error e =>
          rw [next] at run
          cases run
      | ok r =>
          obtain ⟨r', next', both⟩ := step s t r related next
          rw [next] at run
          rw [next']
          cases both with
          | none =>
              cases run
              exact ⟨t, rfl, related⟩
          | some related' => exact ih related' run

/-- A loop without errors gives the result to a related loop whose passes then have none either. -/
theorem exceptLoop_of_whileLoop {stuck : ε} {pass : σ → Option σ} {pass' : τ → Except ε (Option τ)}
    (rel : σ → τ → Prop) (step : ∀ s t, rel s t → ∃ r, pass' t = .ok r ∧ Option.Rel rel (pass s) r) :
    ∀ (fuel : Nat) {s s' : σ} {t : τ}, rel s t → whileLoop pass fuel s = some s' →
      ∃ t', exceptLoop stuck pass' fuel t = .ok t' ∧ rel s' t' := by
  intro fuel
  induction fuel with
  | zero => intro s s' t _ run; cases run
  | succ fuel ih =>
      intro s s' t related run
      obtain ⟨r, next', both⟩ := step s t related
      unfold exceptLoop
      rw [next']
      cases next : pass s with
      | none =>
          rw [next] at both
          rw [whileLoop_exit next] at run
          cases run
          cases both
          exact ⟨t, rfl, related⟩
      | some u =>
          rw [next] at both
          rw [whileLoop_pass next] at run
          cases both with
          | some related' => exact ih related' run

/-- A loop whose passes take one item each. -/
theorem exceptLoop_items {ε σ α β : Type} {stuck : ε} {pass : σ → Except ε (Option σ)} {good : α → Prop}
    {state : β → List α → σ} {next : β → α → Except ε β}
    (one : ∀ acc x items, good x → pass (state acc (x :: items)) = (next acc x).map
      fun acc => some (state acc items))
    {items : List α} (all : ∀ x ∈ items, good x) (acc : β) (fuel : Nat) :
    exceptLoop stuck pass (items.length + fuel) (state acc items) =
      items.foldlM next acc >>= fun acc => exceptLoop stuck pass fuel (state acc []) := by
  induction items generalizing acc with
  | nil =>
      rw [List.length_nil, Nat.zero_add]
      rfl
  | cons x items ih =>
      rw [List.length_cons, Nat.add_right_comm, exceptLoop, one acc x items (all x List.mem_cons_self),
        List.foldlM_cons]
      cases next acc x with
      | error e => rfl
      | ok acc => exact ih (fun y mem => all y (List.mem_cons_of_mem _ mem)) acc

end Loop
