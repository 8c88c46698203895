/-
Module: SafRprGen.Fdp.Context
Layer: Fdp
Purpose: The globals that the analysis of one fault shares with the next (`context.c`, `traversal.c` and
  the statics of `normal_scope.c`), and the stack and queue operations on them. A call of
  `exit(EXIT_FAILURE)` sets `exited`; nothing computed after that counts.
Main exports: Globals, initGlobalVars, ccadicalAdd, stackPUSH, queENQ, queDEQ
-/
import SafRprGen.Lib.Dimacs
import SafRprGen.Lib.RingQueue
import SafRprGen.Netlist.Basic

namespace SafRprGen

open Dimacs

/-- `UNIQUE_DOWN`, `UNIQUE_UP` and `UNIQUE_MIDDLE`. -/
inductive UniqueFlag where
  | DOWN | UP | MIDDLE
deriving DecidableEq, Repr

/-- The mutable globals. The fields of `NLIST` that change during the analysis are functions of the net
index; `fp`, `tfo` and `tpo` are the bits `FP`, `TFO` and `TPO` of `flag`, and `eaFlag` is true for
`EA_UP`. `logicValue` is read only for nets in state `EA_UP`, so `EA_UNKNOWN` needs no value of its
own. `needed` and `detection` are null until `NormalScopeBuild` first runs. `solver` holds the clauses
sent to the solver of the current fault. -/
@[ext]
structure Globals where
  fp : Nat → Bool
  tfo : Nat → Bool
  tpo : Nat → Bool
  varsfc : Nat → Nat
  varprop : Nat → Nat
  totalVars : Nat
  numtranpo : Nat
  stack : List Nat
  que : RingQueue Nat
  logicValue : Nat → Bool
  eaFlag : Nat → Bool
  uniqueFlag : Nat → UniqueFlag
  needed : Option (Nat → Bool)
  detection : Option (Nat → Bool)
  instances : Nat
  solver : List Clause
  exited : Bool

/-- `InitGlobalVars`, with the statics as the C runtime starts them. -/
def initGlobalVars : Globals where
  fp := fun _ => false
  tfo := fun _ => false
  tpo := fun _ => false
  varsfc := fun _ => 0
  varprop := fun _ => 0
  totalVars := 0
  numtranpo := 0
  stack := []
  que := ⟨fun _ => 0, 0, 0, 0⟩
  logicValue := fun _ => false
  eaFlag := fun _ => false
  uniqueFlag := fun _ => .DOWN
  needed := none
  detection := none
  instances := 0
  solver := []
  exited := false

namespace Globals

/-- `ccadical_add` for the literals of a clause and the closing 0. -/
def ccadicalAdd (g : Globals) (cl : Clause) : Globals := { g with solver := g.solver ++ [cl] }

/-- The same for several clauses. -/
def ccadicalAddAll (g : Globals) (cls : List Clause) : Globals := { g with solver := g.solver ++ cls }

/-- The literals sent so far. -/
def literals (g : Globals) : List Int := stream g.solver

/-- `NormalScopeRequiredNet`. -/
def normalScopeRequiredNet (g : Globals) (index : Nat) : Bool :=
  match g.needed with
  | none => true
  | some needed => needed index

/-- `NormalScopeInDetectionCone`. -/
def normalScopeInDetectionCone (g : Globals) (index : Nat) : Bool :=
  match g.detection with
  | none => true
  | some detection => detection index

end Globals

namespace Netlist

variable (c : Netlist)

/-- `stack.maxnum`, `n_net * MAXSIZE_STACK`. -/
def stackMaxnum : Nat := c.nNet * 100

/-- `que.maxnum`, `n_net * MAXSIZE_QUEUE`. -/
def queMaxnum : Nat := c.nNet * 100

/-- `stackPUSH`: the overflow test follows the store. -/
def stackPUSH (g : Globals) (n : Nat) : Globals :=
  { g with
    stack := n :: g.stack
    exited := g.exited || decide (c.stackMaxnum ≤ g.stack.length + 1) }

/-- `queENQ`. -/
def queENQ (g : Globals) (n : Nat) : Globals :=
  if c.queMaxnum ≤ g.que.count then { g with exited := true }
  else { g with que := g.que.enqueue c.queMaxnum n }

/-- `queDEQ` of a queue that is not empty. -/
def queDEQ (g : Globals) : Nat × Globals :=
  let (n, que) := g.que.dequeue c.queMaxnum
  (n, { g with que })

end Netlist

end SafRprGen
