import LoopSafety.Operator
import LoopSafety.MathFn
import LoopSafety.Value
import LoopSafety.LoopRange
import LoopSafety.ArrayShape
import LoopSafety.Config
import LoopSafety.Table
import LoopSafety.Json.Parser
import LoopSafety.Json.Printer
import LoopSafety.Json.Decode
import LoopSafety.Node.Format
import LoopSafety.Term
import LoopSafety.Kernel.Format
import LoopSafety.Session.Evaluation
import LoopSafety.Session.Basic
import LoopSafety.Program.Construct
import LoopSafety.Digraph
import LoopSafety.Nest.Subscript
import LoopSafety.Dependence
import LoopSafety.Report
import LoopSafety.Main
import LoopSafety.CommandLine.Desk
import LoopSafety.Proofs.Scanning
import LoopSafety.Proofs.Enclosure
import LoopSafety.Proofs.Passes
import LoopSafety.Proofs.Building
import LoopSafety.Proofs.Sessions
import LoopSafety.Proofs.Occurrences
import LoopSafety.Proofs.Cycles
import LoopSafety.Proofs.Parallel
import LoopSafety.Proofs.IndexSafety
import LoopSafety.Proofs.Insertions
import LoopSafety.Proofs.Execution
import LoopSafety.Proofs.Separation
import LoopSafety.Proofs.Aliases
import LoopSafety.Proofs.Subscripts
import LoopSafety.Proofs.Conflicts
import LoopSafety.Proofs.Frames
import LoopSafety.Proofs.Histories
import LoopSafety.Proofs.Retries
import LoopSafety.Proofs.OverflowSafety
import LoopSafety.Proofs.ReadOnly
import LoopSafety.Proofs.Memoization
import LoopSafety.Proofs.ScanHistories
import LoopSafety.Proofs.Registration
import LoopSafety.Proofs.SharedLoops
import LoopSafety.Proofs.Privatization
import LoopSafety.Proofs.LoopVariables
import LoopSafety.Proofs.Scoping
import LoopSafety.Proofs.Lookups
import LoopSafety.Proofs.ClosedSessions
import LoopSafety.Proofs.HandleSafety
import LoopSafety.Proofs.LiteralArithmetic
import LoopSafety.Proofs.Orientation
import LoopSafety.Proofs.LoopValues
import LoopSafety.Proofs.ResolvedRanges
import LoopSafety.Proofs.Isolation
import LoopSafety.Proofs.Regressions
import LoopSafety.Proofs.Folding
import LoopSafety.Proofs.Narrowing
import LoopSafety.Proofs.CheckPasses
import LoopSafety.Proofs.Circularity
import LoopSafety.Proofs.NarrowedBounds
import LoopSafety.Proofs.KernelFiles
import LoopSafety.Proofs.ShiftedSubscripts
import LoopSafety.Proofs.CostWalks
import LoopSafety.Proofs.InsertedEdges
import LoopSafety.Proofs.IterationCounts
import LoopSafety.Proofs.RoundTrips
