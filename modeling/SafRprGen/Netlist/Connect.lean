/-
Module: SafRprGen.Netlist.Connect
Layer: Netlist
Purpose: `connection_signal` and `read_nl` of `netlist.c`. The slots of `in` and `out` are allocated by
  counting and filled while the gates are connected; a signal with more than one fanout gets a FOUT net for
  every use and for its output port. A slot that stays NULL is `none`.
Main exports: Node, Wiring, allocNlInOut, connectionNSignal, Accepted, readNl
-/
import SafRprGen.Netlist.Signals
import Mathlib.Algebra.GroupWithZero.Nat

namespace SafRprGen

/-- A net while it is connected; `n_in` and `n_out` are the numbers of slots. -/
structure Node where
  name : CStr
  type : GateType
  ins : List (Option Nat)
  outs : List (Option Nat)
deriving DecidableEq, Repr

/-- The nets and `po[]`. `nl` is the array, of which the first `n_net` cells are used. -/
structure Wiring where
  nNet : Nat
  nl : Nat → Node
  po : List Nat

/-- Write one cell of `nl`. -/
def Wiring.set (w : Wiring) (n : Nat) (node : Node) : Wiring :=
  { w with nl := Function.update w.nl n node }

/-- The first NULL slot is filled; `none` when the search runs past the array. -/
def fillSlot (slots : List (Option Nat)) (n : Nat) : Option (List (Option Nat)) :=
  if slots.idxOf none < slots.length then some (slots.set (slots.idxOf none) (some n)) else none

/-- `while (nl[n].out[no] != NULL) no++; nl[n].out[no] = &nl[target];` -/
def Wiring.addOut (w : Wiring) (n target : Nat) : Option Wiring :=
  (fillSlot (w.nl n).outs target).map fun outs => w.set n { w.nl n with outs }

/-- `while (nl[n].in[no] != NULL) no++; nl[n].in[no] = &nl[source];` -/
def Wiring.addIn (w : Wiring) (n source : Nat) : Option Wiring :=
  (fillSlot (w.nl n).ins source).map fun ins => w.set n { w.nl n with ins }

/-- `pin_name_array`. -/
def pinNameArray : List Char := ['A', 'B', 'C', 'D', 'E', 'F', 'G', 'H', 'I', 'J']

/-- `alloc_nl_in_out`: the `n_in` of a net is that of the last gate that drives it. -/
def allocNIn (gates : List Wires) : Nat → Nat :=
  gates.foldl (fun nIn gate => Function.update nIn gate.outNid gate.inNid.length) fun _ => 0

/-- `alloc_nl_in_out`: the `n_out` of a net counts its uses and, when there are any, its ports. -/
def allocNOut (s : Signals) : Nat → Nat :=
  s.po.foldl
    (fun nOut p => if 1 ≤ s.parserArray false p then Function.update nOut p (nOut p + 1) else nOut)
    (s.parserArray false)

/-- `alloc_nl_in_out`. -/
def allocNlInOut (s : Signals) (gates : List Wires) : Wiring where
  nNet := s.nNet
  nl := fun n =>
    ⟨s.name n, s.type n, List.replicate (allocNIn gates n) none, List.replicate (allocNOut s n) none⟩
  po := s.po

/-- `connection_no_fout`. -/
def connectionNoFout (gate : Wires) (src : Nat) (w : Wiring) : Option Wiring :=
  let w := w.set src { w.nl src with outs := (w.nl src).outs.set 0 (some gate.outNid) }
  (w.addIn gate.outNid src).map fun w => w.set gate.outNid { w.nl gate.outNid with type := gate.type }

/-- `connection_yes_fout`. -/
def connectionYesFout (gate : Wires) (inNo src : Nat) (w : Wiring) : Option Wiring :=
  let fout := w.nNet
  let name := (w.nl src).name ++ '_' :: (w.nl gate.outNid).name ++ ['_', pinNameArray.getD inNo ' ']
  let w := w.set fout ⟨name, .FOUT, [none], [none]⟩
  (w.addOut src fout).bind fun w =>
    (w.addIn gate.outNid fout).map fun w =>
      let w := w.set gate.outNid { w.nl gate.outNid with type := gate.type }
      let w := w.set fout { w.nl fout with ins := [some src], outs := [some gate.outNid] }
      { w with nNet := fout + 1 }

/-- `connection_po_fout`. -/
def connectionPoFout (src : Nat) (w : Wiring) : Option Wiring :=
  let fout := w.nNet
  let w := w.set fout ⟨(w.nl src).name, .FOUT, [none], []⟩
  (w.addOut src fout).map fun w =>
    let w := w.set src { w.nl src with name := (w.nl fout).name ++ "_stem".toList }
    let w := w.set fout { w.nl fout with ins := [some src] }
    { w with nNet := fout + 1 }

/-- The body of the loop of `connection_n_signal` for one pin and its signal. -/
def connectPin (gate : Wires) (w : Wiring) (pin : Nat × Nat) : Option Wiring :=
  let (src, inNo) := pin
  if (w.nl src).outs.length = 1 then connectionNoFout gate src w
  else if 2 ≤ (w.nl src).outs.length then
    (connectionYesFout gate inNo src w).bind fun w =>
      let k := w.po.idxOf src
      if k < w.po.length then connectionPoFout src { w with po := w.po.set k w.nNet } else some w
  else some w

/-- `connection_n_signal`. -/
def connectionNSignal (gates : List Wires) (w : Wiring) : Option Wiring :=
  gates.foldlM (fun w gate => gate.inNid.zipIdx.foldlM (connectPin gate) w) w

/-- `connection_signal`. -/
def connectionSignal (s : Signals) (gates : List Wires) : Option Wiring :=
  connectionNSignal gates (allocNlInOut s gates)

/-! ### `read_nl` -/

/-- What `read_file` and `parser` accept. -/
structure Accepted where
  counts : Counts
  records : List GateRecord
  gates : List Wires
  signals : Signals

/-- `alloc_nl`: the length of `nl[]`. -/
def nlNum (counts : Counts) (records : List GateRecord) : Nat :=
  counts.nPi + counts.nPo + counts.nModule + (records.map (·.inName.length)).sum

/-- `read_file` and `parser`. A record or a `po[]` entry that the passes leave unset is used
later on, and so is one behind the end of its array; `nl_num` is an `int`. -/
def readFile (text : List Char) : Except Stop Accepted :=
  match read1st text with
  | .error e => .error e
  | .ok counts =>
      match read2nd counts.nModule text with
      | .error e => .error e
      | .ok modules =>
          match modules.mapM ModuleRecord.complete with
          | none => .error .undefined
          | some records =>
              if records.length ≠ counts.nModule ∨ intMax < nlNum counts records then .error .undefined
              else
                let (gates, signals) := storeSignal .empty records
                match storePorts hashSearchPiPo signals text with
                | .error e => .error e
                | .ok signals =>
                    if counts.nPi < signals.pi.length ∨ signals.po.length ≠ counts.nPo then
                      .error .undefined
                    else
                      match analyzeAsyntaxError signals with
                      | .error e => .error e
                      | .ok _ => .ok ⟨counts, records, gates, signals⟩

/-- The globals that `read_nl` sets. -/
structure ReadNet where
  wiring : Wiring
  pi : List Nat
  /-- `n_dff`, `n_rdff`, `n_dffs` and `n_rdffs`. -/
  nFF : GateType → Nat

/-- `read_nl`. Writing behind the end of `nl[]` and a `pi[]` entry that is never set are undefined. -/
def readNl (text : List Char) : Except Stop ReadNet :=
  match readFile text with
  | .error e => .error e
  | .ok a =>
      match connectionSignal a.signals a.gates with
      | none => .error .undefined
      | some w =>
          if nlNum a.counts a.records < w.nNet ∨ a.signals.pi.length ≠ a.counts.nPi then .error .undefined
          else .ok ⟨w, a.signals.pi, fun t => a.records.countP fun r => r.type = t⟩

end SafRprGen
