import LoopSafety.CommandLine.Arguments
import LoopSafety.CommandLine.Help
import LoopSafety.CommandLine.Host
import LoopSafety.CommandLine.Summary
import LoopSafety.Json.Printer
import LoopSafety.Kernel.Format
import LoopSafety.Text.Blank

/-! The commands: analyse the regions of a kernel file, and look for a cycle among given edges. -/
namespace LoopSafety.CommandLine

/-- A command prints a text or fails with a message. -/
abbrev Command (m : Type → Type) := ExceptT String m

variable {m : Type → Type} [Monad m]

/-- Read a file and decode its text; faults are told with what was attempted. -/
def load {α : Type} (host : Host m) (attempt path : String) (decode : String → Except Error α) :
    Command m α := do
  match (← host.read path).mapError Error.file >>= decode with
  | .ok a => return a
  | .error e => throw (attempt ++ ": " ++ e.message)

namespace AnalyzeRequest

/-- The options override what the configuration file says. -/
def adjust (r : AnalyzeRequest) (c : Config) : Config :=
  { c with
    scanMinMax := c.scanMinMax && !r.noScan
    scanUniqueness := c.scanUniqueness || r.scanUniqueness
    offloadThreshold := r.threshold.getD c.offloadThreshold
    concurrent := c.concurrent && !r.sequential }

def analyzer (host : Host m) (r : AnalyzeRequest) (c : Config) : Command m Analyzer := do
  let oracle ← match r.oracle with
    | some (program, args) => pure (.external program (← host.run program args))
    | none => pure .subscript
  return { config := r.adjust c, oracle }

def reportText (outcomes : List RegionOutcome) : String :=
  (Json.arr (outcomes.map RegionOutcome.toJson)).pretty 0

/-- The report goes to the output file if there is one, else it is printed. -/
def deliver (host : Host m) (r : AnalyzeRequest) (report : String) : Command m String := do
  match r.output with
  | none => return report ++ "\n"
  | some path =>
    match ← host.write path report with
    | .ok () => return ""
    | .error fault => throw ("Failed to write report: " ++ fault.message)

def summary (r : AnalyzeRequest) (outcomes : List RegionOutcome) : String :=
  if r.verbose then
    unlines (summaryLines outcomes ++ r.output.elim [] fun path => ["", "Report: " ++ path])
  else ""

/-- The configuration is read before the kernel. -/
def run (host : Host m) (r : AnalyzeRequest) : Command m String := do
  let config ← match r.config with
    | some path => load host "Failed to load config" path Config.ofText
    | none => pure {}
  let kernel ← load host "Failed to import kernel" r.input Kernel.ofText
  let outcomes := (← analyzer host r config).analyzeKernel kernel
  return (← deliver host r (reportText outcomes)) ++ r.summary outcomes

end AnalyzeRequest

/-- An edge's two ends stand around its first colon. -/
def edge? (text : String) : Option (String × String) :=
  let source := text.toList.takeWhile (· != ':')
  (text.toList.dropWhile (· != ':')).tail?.map fun sink =>
    (Text.trim (String.ofList source), Text.trim (String.ofList sink))

/-- The first edge that cannot be read is reported. -/
def edges (texts : List String) : Except String (List (String × String)) :=
  texts.mapM fun text =>
    match edge? text with
    | some e => .ok e
    | none => .error ("Invalid edge '" ++ text ++ "', expected SOURCE:SINK")

def cycleText (g : Digraph) : String :=
  match g.findCycle with
  | some cycle => "cyclic: " ++ " -> ".intercalate cycle
  | none =>
    "acyclic (" ++ toString g.vertexCount ++ " vertices, " ++ toString g.edgeCount ++ " edges)"

def cycles (texts : List String) : Except String String := do
  return cycleText (Digraph.ofEdges (← edges texts)) ++ "\n"

/-- How a run ended: success, an error of its own, or arguments that make no request. -/
inductive Outcome where
  | success (printed : String)
  | failure (message : String)
  | usage
  deriving DecidableEq, Repr

def Outcome.status : Outcome → UInt8
  | success _ => 0
  | failure _ => 1
  | usage => 2

def versionText : String := "loopguard 1.0\n"

def Request.run (host : Host m) : Request → Command m String
  | .analyze r => r.run host
  | .cycles texts => ExceptT.mk (pure (CommandLine.cycles texts))

/-- Run the program on its arguments. -/
def run (host : Host m) (args : List String) : m Outcome := do
  match Request.parse args with
  | .error .usage => return .usage
  | .error (.help topic full) => return .success (unlines (topic.screen full))
  | .error .version => return .success versionText
  | .ok request =>
    match ← (request.run host).run with
    | .ok printed => return .success printed
    | .error message => return .failure message

end LoopSafety.CommandLine
