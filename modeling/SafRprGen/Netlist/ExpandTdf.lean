/-
Module: SafRprGen.Netlist.ExpandTdf
Layer: Netlist
Purpose: The launch-on-capture expansion of a sequential circuit (`expand_tdf.c`) and the check in front of
  it (`PrepareCircuitForFaultModel` of `main.c`). Inputs are shared by the two time frames, a flip-flop
  becomes a free input in frame 1 and a buffer in frame 2. A NULL slot that is used shows as `none`.
Main exports: netId, expandNet, buildScanPorts, expandTdfNetlist, prepareCircuit
-/
import SafRprGen.Netlist.Basic
import SafRprGen.Netlist.Connect

namespace SafRprGen

/-- The netlist globals after `read_nl`; NULL slots are left out. -/
def Wiring.netlist (w : Wiring) (pi : List Nat) : Netlist where
  nl := (List.range w.nNet).map fun n =>
    ⟨(w.nl n).name, (w.nl n).type, (w.nl n).ins.reduceOption, (w.nl n).outs.reduceOption, none⟩
  pi := pi
  po := w.po
  ppo := []

/-- The time frames 1 and 2. -/
inductive Frame where
  | one | two
deriving DecidableEq, Repr

/-- `frame1_net_ids`: an input has one copy, any other net two. -/
def frame1NetId (type : Nat → GateType) : Nat → Nat
  | 0 => 0
  | n + 1 => frame1NetId type n + if type n = .IN then 1 else 2

/-- `frame1_net_ids` and `frame2_net_ids`. -/
def netId (type : Nat → GateType) (frame : Frame) (n : Nat) : Nat :=
  match frame with
  | .one => frame1NetId type n
  | .two => if type n = .IN then frame1NetId type n else frame1NetId type n + 1

/-- `count_frame_outputs`. -/
def countFrameOutputs (type : Nat → GateType) (outs : List Nat) (frame : Frame) : Nat :=
  outs.countP fun o => type o ≠ .DFF || frame = .one

/-- `connect_frame_outputs`: the slots that are written, in their order. -/
def connectFrameOutputs (type : Nat → GateType) (outs : List Nat) (frame : Frame) : List Nat :=
  outs.filterMap fun o =>
    if type o = .DFF then if frame = .one then some (netId type .two o) else none
    else some (netId type frame o)

/-- `duplicate_frame_name`. -/
def duplicateFrameName (name : CStr) (frame : Frame) : CStr :=
  match frame with
  | .one => name ++ "_1t".toList
  | .two => name

namespace Wiring

variable (w : Wiring)

/-- The type of a net of `original_nets`. -/
def type (n : Nat) : GateType := (w.nl n).type

/-- The `out` array of a copy, allocated by counting and filled by connecting; both read every slot of the
original net. -/
def frameOutputs (n : Nat) (frame : Frame) : Option (List Nat) := do
  let outs ← (w.nl n).outs.mapM id
  let outputs := connectFrameOutputs w.type outs frame
  if outputs.length = countFrameOutputs w.type outs frame then some outputs else none

/-- The copies of one net in the loop of `expand_tdf_netlist`. -/
def expandNet (n : Nat) : Option (List NLIST) := do
  let name := (w.nl n).name
  let outs1 ← w.frameOutputs n .one
  let outs2 ← w.frameOutputs n .two
  let id1 := netId w.type .one n
  if w.type n = .IN then
    some [⟨duplicateFrameName name .two, .IN, [], outs1 ++ outs2, some id1⟩]
  else if w.type n = .DFF then do
    let data ← (w.nl n).ins.head?.join
    some [⟨duplicateFrameName name .one, .IN, [], outs1, none⟩,
      ⟨duplicateFrameName name .two, .BUF, [netId w.type .one data], outs2, some id1⟩]
  else do
    let ins ← (w.nl n).ins.mapM id
    some [⟨duplicateFrameName name .one, w.type n, ins.map (netId w.type .one), outs1, none⟩,
      ⟨duplicateFrameName name .two, w.type n, ins.map (netId w.type .two), outs2, some id1⟩]

/-- `build_scan_ports`: `ppi[]` and `ppo[]`. -/
def buildScanPorts : Option (List Nat × List Nat) := do
  let dffs := (List.range w.nNet).filter fun n => w.type n = .DFF
  let datas ← dffs.mapM fun n => (w.nl n).ins.head?.join
  some (dffs.map (netId w.type .one), datas.map (netId w.type .two))

/-- `expand_tdf_netlist`. -/
def expandTdfNetlist (pi : List Nat) : Option Netlist := do
  let copies ← (List.range w.nNet).mapM w.expandNet
  let (ppi, ppo) ← w.buildScanPorts
  some {
    nl := copies.flatten
    pi := pi.map (netId w.type .one) ++ ppi
    po := w.po.map (netId w.type .two)
    ppo }

end Wiring

/-- `PrepareCircuitForFaultModel`; `none` also when the expansion uses a NULL slot. -/
def prepareCircuit (m : FaultModel) (net : ReadNet) : Option Netlist :=
  match m with
  | .SAF =>
      if 0 < net.nFF .DFF + net.nFF .RDFF + net.nFF .DFFS + net.nFF .RDFFS then none
      else some (net.wiring.netlist net.pi)
  | .TDF =>
      if 0 < net.nFF .RDFF + net.nFF .DFFS + net.nFF .RDFFS then none
      else if net.nFF .DFF = 0 then none
      else net.wiring.expandTdfNetlist net.pi

end SafRprGen
