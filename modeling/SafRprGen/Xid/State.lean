/-
Module: SafRprGen.Xid.State
Layer: Xid
Purpose: The scratch that the don't-care identification works on (`XID.h`, `xid_adapter.c` and the
  statics of `XID.c`): two three-valued circuits per net, three ring queues and the level stacks. What
  the source writes once for the normal and once for the fault side is one definition over `Side`.
Main exports: Side, XidVarInfo, XidState, XidState.known, enqueue, dequeue, fillPush, edPushXpath
-/
import SafRprGen.Fdp.Context
import SafRprGen.Lib.LevelStack
import SafRprGen.Netlist.Level

namespace SafRprGen

/-- The good circuit and the faulty one. -/
inductive Side where
  | normal | fault
deriving DecidableEq, Repr

/-- `normal_2value`, `normal_3value` and `XID_FLAG_NORMAL`, or the same for the fault side. `none` in
`value3` is `XID_X`. -/
structure XidSide where
  value2 : Bool
  value3 : Option Bool
  flag : Bool
deriving DecidableEq, Repr

/-- `XID_ED_TAG`. -/
inductive XidEdTag where
  | UNTAGGED | STACKED | COMPUTED
deriving DecidableEq, Repr

/-- `XID_VAR_INFO`; `xid_tag` is the pair of flags. -/
structure XidVarInfo where
  side : Side → XidSide
  edTag : XidEdTag

/-- `fwd_q`, `bwd_q` and `jus_q`. -/
inductive XidQueue where
  | fwd | bwd | jus
deriving DecidableEq, Repr

/-- The persistent scratch of `InlineXID`. `exited` says that an `exit(1)` was reached. -/
structure XidState where
  varInfo : Nat → XidVarInfo
  queue : XidQueue → RingQueue Nat
  xidLev : LevelStack Nat
  exited : Bool

/-- A value for each side, `none` where the side is left alone. -/
abbrev SideValues := Side → Option Bool

/-- A value for one side. -/
def onlySide (σ : Side) (b : Bool) : SideValues := fun τ => if τ = σ then some b else none

/-- `if (v != XID_X && !(tag & FLAG)) { value3 = v; tag |= FLAG; }`. -/
def XidSide.fill (v : Option Bool) (s : XidSide) : XidSide :=
  match v with
  | none => s
  | some b => if s.flag then s else { s with value3 := some b, flag := true }

/-- The three-valued value: `XID_X` unless the flag is set. -/
def XidSide.known (s : XidSide) : Option Bool := if s.flag then s.value3 else none

namespace XidState

variable (s : XidState)

/-- The three-valued values of a net. -/
def known (n : Nat) (σ : Side) : Option Bool := ((s.varInfo n).side σ).known

def flag (n : Nat) (σ : Side) : Bool := ((s.varInfo n).side σ).flag

def value2 (n : Nat) (σ : Side) : Bool := ((s.varInfo n).side σ).value2

def value3 (n : Nat) (σ : Side) : Option Bool := ((s.varInfo n).side σ).value3

def edTag (n : Nat) : XidEdTag := (s.varInfo n).edTag

/-- `xid_tag == XID_FLAG_BOTH`. -/
def flagBoth (n : Nat) : Bool := s.flag n .normal && s.flag n .fault

/-- Some side of the net takes its value. -/
def updated (n : Nat) (v : SideValues) : Bool :=
  ((v .normal).isSome && !s.flag n .normal) || ((v .fault).isSome && !s.flag n .fault)

/-- The net with the values filled in. -/
def fill (n : Nat) (v : SideValues) : XidState :=
  { s with
    varInfo := Function.update s.varInfo n
      { s.varInfo n with side := fun σ => ((s.varInfo n).side σ).fill (v σ) } }

end XidState

namespace Netlist

variable (c : Netlist)

/-- `xid_max_level`. -/
def xidMaxLevel : Nat := ((List.range c.nNet).map c.level).foldl max 0

/-- `enqueue`: a full queue ends the program. -/
def enqueue (q : XidQueue) (n : Nat) (s : XidState) : XidState :=
  if c.nNet ≤ (s.queue q).count then { s with exited := true }
  else { s with queue := Function.update s.queue q ((s.queue q).enqueue c.nNet n) }

/-- `dequeue` of a queue that is not empty. -/
def dequeue (q : XidQueue) (s : XidState) : Nat × XidState :=
  let (n, queue) := (s.queue q).dequeue c.nNet
  (n, { s with queue := Function.update s.queue q queue })

/-- Fill in the values and, when that changed the net, enqueue it. -/
def fillPush (q : XidQueue) (n : Nat) (v : SideValues) (s : XidState) : XidState :=
  if s.updated n v then c.enqueue q n (s.fill n v) else s

/-- `push_lev_net`. -/
def pushLevNet (n : Nat) (s : XidState) : XidState :=
  { s with xidLev := s.xidLev.push (c.level n) n }

/-- `ED_push_Xpath`. -/
def edPushXpath (n : Nat) (s : XidState) : XidState :=
  if s.flagBoth n then s
  else (c.pushLevNet n s).fill n (fun σ => some (s.value2 n σ))

end Netlist

/-! ### Reading a net after filling -/

theorem onlySide_eq_some {σ τ : Side} {b b' : Bool} :
    onlySide σ b τ = some b' ↔ τ = σ ∧ b' = b := by
  unfold onlySide
  split
  · rename_i same
    simp [same, eq_comm]
  · rename_i other
    simp [other]

namespace XidState

variable (s : XidState) (n k : Nat) (v : SideValues) (σ : Side)

@[simp] theorem value2_fill : (s.fill n v).value2 k σ = s.value2 k σ := by
  by_cases here : k = n
  · subst here
    simp only [value2, fill, Function.update_self, XidSide.fill]
    split
    · rfl
    · split <;> rfl
  · simp [value2, fill, here]

@[simp] theorem edTag_fill : (s.fill n v).edTag k = s.edTag k := by
  by_cases here : k = n
  · simp [edTag, fill, here]
  · simp [edTag, fill, here]

@[simp] theorem queue_fill : (s.fill n v).queue = s.queue := rfl

@[simp] theorem xidLev_fill : (s.fill n v).xidLev = s.xidLev := rfl

@[simp] theorem exited_fill : (s.fill n v).exited = s.exited := rfl

theorem flag_fill_of_ne {k : Nat} (h : k ≠ n) : (s.fill n v).flag k σ = s.flag k σ := by
  simp [flag, fill, h]

theorem value3_fill_of_ne {k : Nat} (h : k ≠ n) : (s.fill n v).value3 k σ = s.value3 k σ := by
  simp [value3, fill, h]

/-- A side is flagged after filling when it was before or a value was given. -/
theorem flag_fill_self : (s.fill n v).flag n σ = (s.flag n σ || (v σ).isSome) := by
  simp only [flag, fill, Function.update_self, XidSide.fill]
  cases h : v σ with
  | none => simp
  | some b => cases hf : ((s.varInfo n).side σ).flag <;> simp [hf]

theorem value3_fill_old (old : s.flag n σ = true) : (s.fill n v).value3 n σ = s.value3 n σ := by
  simp only [flag] at old
  simp only [value3, fill, Function.update_self, XidSide.fill]
  cases v σ with
  | none => rfl
  | some b => simp [old]

theorem value3_fill_new {b : Bool} (new : s.flag n σ = false) (given : v σ = some b) :
    (s.fill n v).value3 n σ = some b := by
  simp only [flag] at new
  simp [value3, fill, XidSide.fill, given, new]

theorem known_of_flag {n : Nat} {σ : Side} (h : s.flag n σ = true) : s.known n σ = s.value3 n σ := by
  simp only [flag] at h
  simp [known, XidSide.known, h, value3]

theorem known_of_not_flag {n : Nat} {σ : Side} (h : s.flag n σ = false) : s.known n σ = none := by
  simp only [flag] at h
  simp [known, XidSide.known, h]

/-- A side that is filled stays flagged. -/
theorem flag_fill_mono {k : Nat} {σ : Side} (h : s.flag k σ = true) :
    (s.fill n v).flag k σ = true := by
  by_cases here : k = n
  · subst here
    rw [flag_fill_self, h, Bool.true_or]
  · rw [flag_fill_of_ne _ _ _ _ here, h]

/-- A flagged side keeps its value. -/
theorem value3_fill_mono {k : Nat} {σ : Side} (h : s.flag k σ = true) :
    (s.fill n v).value3 k σ = s.value3 k σ := by
  by_cases here : k = n
  · subst here
    exact value3_fill_old s k v σ h
  · exact value3_fill_of_ne s n v σ here

theorem updated_eq_false_iff :
    s.updated n v = false ↔ ∀ σ, (v σ).isSome = true → s.flag n σ = true := by
  simp only [updated, Bool.or_eq_false_iff, Bool.and_eq_false_iff, Bool.not_eq_false']
  constructor
  · rintro ⟨normal, fault⟩ σ given
    cases σ with
    | normal => exact normal.resolve_left (by simp [given])
    | fault => exact fault.resolve_left (by simp [given])
  · intro all
    refine ⟨?_, ?_⟩
    · cases h : (v .normal).isSome with
      | false => exact .inl rfl
      | true => exact .inr (all .normal h)
    · cases h : (v .fault).isSome with
      | false => exact .inl rfl
      | true => exact .inr (all .fault h)

theorem flagBoth_iff : s.flagBoth n = true ↔ ∀ σ, s.flag n σ = true := by
  simp only [flagBoth, Bool.and_eq_true]
  constructor
  · rintro ⟨normal, fault⟩ σ
    cases σ with
    | normal => exact normal
    | fault => exact fault
  · exact fun all => ⟨all .normal, all .fault⟩

end XidState

/-! ### The queues -/

namespace Netlist

variable {c : Netlist} {s : XidState}

theorem queue_enqueue_ne {p q : XidQueue} (h : p ≠ q) (n : Nat) :
    (c.enqueue q n s).queue p = s.queue p := by
  unfold enqueue
  split
  · rfl
  · exact Function.update_of_ne h _ _

theorem queue_enqueue_self {q : XidQueue} (space : (s.queue q).count < c.nNet) (n : Nat) :
    (c.enqueue q n s).queue q = (s.queue q).enqueue c.nNet n := by
  rw [enqueue, if_neg (Nat.not_le.mpr space)]
  exact Function.update_self _ _ _

theorem enqueue_full {q : XidQueue} (full : c.nNet ≤ (s.queue q).count) (n : Nat) :
    c.enqueue q n s = { s with exited := true } := by
  rw [enqueue, if_pos full]

@[simp] theorem varInfo_enqueue (q : XidQueue) (n : Nat) : (c.enqueue q n s).varInfo = s.varInfo := by
  unfold enqueue
  split <;> rfl

@[simp] theorem xidLev_enqueue (q : XidQueue) (n : Nat) : (c.enqueue q n s).xidLev = s.xidLev := by
  unfold enqueue
  split <;> rfl

@[simp] theorem flag_enqueue (q : XidQueue) (n k : Nat) (σ : Side) :
    (c.enqueue q n s).flag k σ = s.flag k σ := by
  simp [XidState.flag]

@[simp] theorem value2_enqueue (q : XidQueue) (n k : Nat) (σ : Side) :
    (c.enqueue q n s).value2 k σ = s.value2 k σ := by
  simp [XidState.value2]

@[simp] theorem value3_enqueue (q : XidQueue) (n k : Nat) (σ : Side) :
    (c.enqueue q n s).value3 k σ = s.value3 k σ := by
  simp [XidState.value3]

@[simp] theorem edTag_enqueue (q : XidQueue) (n k : Nat) :
    (c.enqueue q n s).edTag k = s.edTag k := by
  simp [XidState.edTag]

/-- An overflow is final. -/
theorem exited_of_enqueue {q : XidQueue} {n : Nat} (running : (c.enqueue q n s).exited = false) :
    s.exited = false := by
  by_cases full : c.nNet ≤ (s.queue q).count
  · rw [enqueue_full full] at running
    cases running
  · rwa [enqueue, if_neg full] at running

end Netlist

theorem Netlist.level_le_xidMaxLevel (c : Netlist) {n : Nat} (hn : n < c.nNet) :
    c.level n ≤ c.xidMaxLevel :=
  (le_foldl_max _ 0).2 _ (List.mem_map_of_mem (List.mem_range.mpr hn))

end SafRprGen
