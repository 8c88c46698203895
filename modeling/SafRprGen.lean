import SafRprGen.Lib.Loop
import SafRprGen.Lib.Dag
import SafRprGen.Lib.Dimacs
import SafRprGen.Lib.Search
import SafRprGen.Lib.UnionFind
import SafRprGen.Lib.CText
import SafRprGen.Lib.RingQueue
import SafRprGen.Lib.LevelStack
import SafRprGen.Lib.HoareSort
import SafRprGen.Lib.FirstMin
import SafRprGen.Lib.NameTable
import SafRprGen.Lib.Related
import SafRprGen.Lib.Blocks
import SafRprGen.Lib.Percent
import SafRprGen.Lib.Significant
import SafRprGen.Lib.Sampling
import SafRprGen.Netlist.Basic
import SafRprGen.Netlist.Level
import SafRprGen.Netlist.Token
import SafRprGen.Netlist.Parse
import SafRprGen.Netlist.Pins
import SafRprGen.Netlist.Signals
import SafRprGen.Netlist.Connect
import SafRprGen.Netlist.Wired
import SafRprGen.Netlist.Slots
import SafRprGen.Netlist.Ports
import SafRprGen.Netlist.Records
import SafRprGen.Netlist.NetCount
import SafRprGen.Netlist.ExpandTdf
import SafRprGen.Netlist.Expanded
import SafRprGen.Netlist.ReadNet
import SafRprGen.Netlist.ReadGraph
import SafRprGen.Netlist.GateText
import SafRprGen.Netlist.PortText
import SafRprGen.Netlist.FileText
import SafRprGen.Netlist.Names
import SafRprGen.Netlist.Ready
import SafRprGen.Netlist.Branched
import SafRprGen.Netlist.LaunchCapture
import SafRprGen.Netlist.Detect
import SafRprGen.Fault.Collapse
import SafRprGen.Fault.Equivalence
import SafRprGen.Fault.External
import SafRprGen.Fault.FaultList
import SafRprGen.Fault.HashRange
import SafRprGen.Fault.Denote
import SafRprGen.Fault.NetNames
import SafRprGen.Fault.Target
import SafRprGen.Fault.Presentation
import SafRprGen.Fault.Reported
import SafRprGen.Fdp.GoodCircuit
import SafRprGen.Fdp.Context
import SafRprGen.Fdp.FaultyCircuit
import SafRprGen.Fdp.DetectionCircuit
import SafRprGen.Fdp.NormalScope
import SafRprGen.Fdp.EssentialAssignment
import SafRprGen.Fdp.Que2Sort
import SafRprGen.Fdp.EssentialLog
import SafRprGen.Fdp.TpgModel
import SafRprGen.Fdp.ConeSearch
import SafRprGen.Fdp.History
import SafRprGen.Xid.State
import SafRprGen.Xid.Invariant
import SafRprGen.Xid.ForwardImp
import SafRprGen.Xid.BackwardImp
import SafRprGen.Xid.FaultPath
import SafRprGen.Xid.ModelValues
import SafRprGen.Xid.Fsim
import SafRprGen.Xid.Moves
import SafRprGen.Xid.Worklists
import SafRprGen.Xid.Capacity
import SafRprGen.Xid.Xfilling
import SafRprGen.Xid.History
import SafRprGen.Analysis.Process
import SafRprGen.Analysis.Simulation
import SafRprGen.Analysis.Worklists
import SafRprGen.Analysis.History
import SafRprGen.Analysis.Probability
import SafRprGen.Analysis.Density
import SafRprGen.Analysis.Serial
import SafRprGen.Analysis.Limit
import SafRprGen.Output.CubeText
import SafRprGen.Output.FaultCsv
import SafRprGen.Output.Reported
import SafRprGen.Output.Densities
import SafRprGen.Output.CubeDirectory
import SafRprGen.Coverage.Options
import SafRprGen.Coverage.Model
import SafRprGen.Coverage.Csv
import SafRprGen.Coverage.Rounding
import SafRprGen.Coverage.Report
import SafRprGen.Cli.Options
import SafRprGen.Cli.SetFile
import SafRprGen.Output.Log
import SafRprGen.Lib.Transition
import SafRprGen.Lib.Bytes
import SafRprGen.Pool.Reply
import SafRprGen.Pool.Model
import SafRprGen.Pool.Link
import SafRprGen.Pool.Books
import SafRprGen.Pool.Invariant
import SafRprGen.Pool.Parent
import SafRprGen.Pool.Run
import SafRprGen.Pool.Progress
import SafRprGen.Pool.Returns
import SafRprGen.Pool.Success
import SafRprGen.Output.Workers
