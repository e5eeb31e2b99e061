import LoopSafety.Cost.Model
import LoopSafety.Dependence
import LoopSafety.Session.Basic

/-! The full analysis of regions and what it reports. -/
namespace LoopSafety

structure CheckReport where
  node : NodeId
  text : String
  required : Bool
  /-- The verdict on each dimension of an access; empty for an operation. -/
  dimensions : List Bool

structure LoopRangeReport where
  induction : String
  range : Option Span

structure ScannedArray where
  name : String
  contents : Contents

structure LoopReport where
  root : NodeId
  accesses : List CheckReport
  overflowChecks : List CheckReport
  loops : List LoopRangeReport
  scannedArrays : List ScannedArray
  minimumIndex : Int64
  retries : Nat
  dependences : Option Dependences
  /-- How many of the outermost loops, two at most, may run in parallel together. -/
  parallelDepth : Nat
  profile : Profile
  offload : OffloadDecision

/-- A region's report, or why there is none. -/
structure RegionOutcome where
  root : NodeId
  result : Except Error LoopReport

namespace CheckReport

def toJson (c : CheckReport) : Json :=
  .obj ([("node", .int c.node.toNat), ("text", .str c.text),
    ("requires_runtime_check", .bool c.required)]
    ++ if c.dimensions.isEmpty then [] else [("dimensions", .arr (c.dimensions.map .bool))])

end CheckReport

namespace LoopReport

/-- The first verdict on a node. -/
def requiresCheck (r : LoopReport) (node : NodeId) : Option Bool :=
  ((r.accesses ++ r.overflowChecks).find? (·.node == node)).map (·.required)

def toJson (r : LoopReport) : Json :=
  .obj ([("root", .int r.root.toNat),
    ("accesses", .arr (r.accesses.map CheckReport.toJson)),
    ("overflow_checks", .arr (r.overflowChecks.map CheckReport.toJson)),
    ("loops", .arr (r.loops.map fun l =>
      .obj [("induction", .str l.induction), ("range", l.range.elim .null Span.toJson)])),
    ("scanned_arrays", .arr (r.scannedArrays.map fun a =>
      .obj [("name", .str a.name), ("min", .int a.contents.min.toInt),
        ("max", .int a.contents.max.toInt), ("uniqueness", .str a.contents.uniqueness.name)])),
    ("minimum_index", .int r.minimumIndex.toInt), ("retries", .int r.retries)]
    ++ r.dependences.toList.map (fun d => ("dependences", d.toJson))
    ++ [("parallel_depth", .int r.parallelDepth), ("profile", r.profile.toJson),
      ("offload", r.offload.toJson)])

end LoopReport

namespace RegionOutcome

def toJson (o : RegionOutcome) : Json :=
  match o.result with
  | .ok report => .obj [("root", .int o.root.toNat), ("report", report.toJson), ("error", .null)]
  | .error e => .obj [("root", .int o.root.toNat), ("report", .null), ("error", .str e.message)]

end RegionOutcome

/-- The settings of the analysis and the oracle it asks. -/
structure Analyzer where
  config : Config := {}
  oracle : Oracle := .subscript

namespace Analyzer

def maxParallelDepth : Nat := 2

/-- How many loops from the root inward are safe, while each body is the next loop. -/
def parallelDepth (d : Dependences) : Nat → Term → Nat
  | limit + 1, .mk _ (.forLoop loop body) =>
    if d.isSafe loop then
      match body.node with
      | .block [only] => parallelDepth d limit only + 1
      | _ => parallelDepth d limit body + 1
    else 0
  | _, _ => 0

def accessReport (p : Program) (ctx : Context) (target : Occurrence) : CheckReport where
  node := target.term.id
  text := p.describe target.term
  required := (ctx.requiresCheck target.term.id).getD true
  dimensions := (ctx.accessVerdicts.get? target.term.id).getD []

def operationReport (p : Program) (ctx : Context) (target : Occurrence) : CheckReport where
  node := target.term.id
  text := p.describe target.term
  required := (ctx.requiresCheck target.term.id).getD true
  dimensions := []

/-- Instantiate with each set of constants in turn, up to the first failure. -/
def instantiateAll (p : Program) : List Constants → Session → Except Error Session
  | [], s => .ok s
  | constants :: rest, s =>
    match s.instantiate p constants with
    | (.ok (), s) => instantiateAll p rest s
    | (.error e, _) => .error e

/-- Prepare a session and instantiate it. -/
def settle (p : Program) (root : Term) (config : Config) (constants : Constants)
    (instantiations : List Constants) : Except Error Session :=
  match (Session.new root config constants).prepare p with
  | (.error e, _) => .error e
  | (.ok (), s) => instantiateAll p instantiations s

/-- Analyse one region: its checks, its cost, and if asked for its dependences. -/
def analyzeLoop (a : Analyzer) (p : Program) (root : Term) (constants : Constants)
    (instantiations : List Constants) : Except Error LoopReport := do
  let session ← settle p root a.config constants instantiations
  let ctx := session.context
  let profile := ctx.profile p root
  let dependences ←
    if a.config.checkDependencies then some <$> p.dependences ctx a.oracle root else pure none
  return {
    root := root.id
    accesses := ctx.accesses.map (accessReport p ctx)
    overflowChecks := ctx.overflowChecks.map (operationReport p ctx)
    loops := ctx.loops.filterMap fun l =>
      (p.loop? l).map fun info => ⟨info.induction, ctx.resolvedRange p l⟩
    scannedArrays := p.arrays.toList.filterMap fun b => (ctx.scans.get? b).map (⟨b.name, ·⟩)
    minimumIndex := ctx.minimum
    retries := session.retries
    dependences
    parallelDepth := dependences.elim 0 fun d => parallelDepth d maxParallelDepth root
    profile
    offload := (CostModel.ofThreshold a.config.offloadThreshold).decide profile }

/-- Analyse every region of a kernel; one that fails does not hinder the others. -/
def analyzeKernel (a : Analyzer) (k : Kernel) : List RegionOutcome :=
  k.regions.map fun root =>
    { root
      result := do a.analyzeLoop k.program (← k.program.term root) k.constants k.instantiations }

end Analyzer

end LoopSafety
