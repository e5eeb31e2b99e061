import LoopSafety.Decimal
import LoopSafety.Report

/-! The summary of an analysis for people to read. -/
namespace LoopSafety.CommandLine

def requiredCount (checks : List CheckReport) : String :=
  toString (checks.countP (·.required)) ++ "/" ++ toString checks.length

def verdictLine (v : ParallelVerdict) : String :=
  "  " ++ v.label ++ ": " ++ (if v.safe then "parallel" else "sequential")

def dependenceLines (d : Dependences) : List String :=
  d.loops.map verdictLine ++ if d.cyclic then ["  ! Flow dependences form a cycle"] else []

def reportLines (r : LoopReport) : List String :=
  ["  Array accesses needing checks: " ++ requiredCount r.accesses,
    "  Integer ops needing checks: " ++ requiredCount r.overflowChecks]
  ++ r.dependences.elim [] dependenceLines
  ++ ["  Parallel depth: " ++ toString r.parallelDepth,
    "  Cost estimate: " ++ Decimal.fixed 1 r.offload.estimate ++ " (threshold "
      ++ Decimal.fixed 0 r.offload.threshold ++ ") -> "
      ++ (if r.offload.offload then "offload" else "keep on host")]
  ++ if 0 < r.retries then ["  Bound rebuilds: " ++ toString r.retries] else []

def outcomeLines (o : RegionOutcome) : List String :=
  match o.result with
  | .ok r => ("Loop " ++ o.root.text ++ ":") :: reportLines r
  | .error e => ["Loop " ++ o.root.text ++ ": sequential (" ++ e.message ++ ")"]

def totalLines (total : Profile) : List String :=
  ["", "Totals:",
    "  Binary ops: " ++ Decimal.fixed 1 total.binaryOps,
    "  Math calls: " ++ Decimal.fixed 1 total.mathFns,
    "  Array accesses: " ++ Decimal.fixed 1 total.accesses,
    "  Branches: " ++ Decimal.fixed 1 total.conditionals]

def rule : String := String.ofList (List.replicate 66 '=')

def headingLines : List String :=
  ["", rule, "                        Analysis Summary                          ", rule, ""]

def summaryLines (outcomes : List RegionOutcome) : List String :=
  headingLines ++ outcomes.flatMap outcomeLines
  ++ totalLines (Profile.summarize (outcomes.filterMap fun o => o.result.toOption.map (·.profile)))

def unlines (lines : List String) : String := String.join (lines.map (· ++ "\n"))

end LoopSafety.CommandLine
