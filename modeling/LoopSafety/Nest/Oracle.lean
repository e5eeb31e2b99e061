import LoopSafety.Error
import LoopSafety.Json.Parser
import LoopSafety.Json.Printer
import LoopSafety.Nest.Format
import LoopSafety.Nest.Subscript

/-! Dependence oracles: the subscript test, a fixed answer, and an external command. -/
namespace LoopSafety

/-- How the run of an external command ended. -/
inductive CommandRun where
  | notStarted (fault : FileFault)
  | failed (complaint : String)
  | printed (output : Bytes)

structure Oracle where
  name : String
  test : Nest → Except Error DependenceResult

namespace Oracle

def subscript : Oracle where
  name := "subscript"
  test nest := .ok nest.subscriptTest

/-- All loops or none are independent, and the same flow dependences hold of every nest. -/
def fixed (independent : Bool) (flows : List (String × String)) : Oracle where
  name := "static"
  test nest :=
    .ok { independent := if independent then Nest.sortedSet nest.loopLabels else [], flows }

/-- Read what a run left behind. -/
def ofRun (program : String) : CommandRun → Except Error DependenceResult
  | .notStarted fault => .error (.oracle (.notStarted program fault))
  | .failed complaint => .error (.oracle (.failed program complaint))
  | .printed output =>
    match (Json.parseBytes? output).bind DependenceResult.ofJson? with
    | some result => .ok result
    | none => .error .malformed

/-- A command that reads the nest as text and prints the answer; how it runs on an input is given. -/
def external (program : String) (run : Bytes → CommandRun) : Oracle where
  name := "process"
  test nest := ofRun program (run (Bytes.ofText nest.toJson.compact))

end Oracle

end LoopSafety
