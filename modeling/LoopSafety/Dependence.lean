import LoopSafety.Digraph
import LoopSafety.Nest.Lowering
import LoopSafety.Nest.Oracle

/-! Which loops of a region may run in parallel.

An oracle's word that a loop is independent is not enough: no storage that is written may be
reached under two names, and the flow dependences it reports may not form a cycle. -/
namespace LoopSafety

structure ParallelVerdict where
  label : String
  loop : LoopId
  independent : Bool
  /-- Why the loop has to stay sequential; empty if it need not. -/
  reason : String
  deriving DecidableEq, Repr

namespace ParallelVerdict

def safe (v : ParallelVerdict) : Bool := v.reason.isEmpty

def toJson (v : ParallelVerdict) : Json :=
  .obj [("label", .str v.label), ("independent", .bool v.independent),
    ("safe_to_parallelize", .bool v.safe), ("reason", .str v.reason)]

end ParallelVerdict

structure Dependences where
  loops : List ParallelVerdict
  /-- Flow dependences, statements given by their source text. -/
  flows : List (String × String)
  cyclic : Bool
  deriving DecidableEq, Repr

namespace Dependences

/-- Whether a loop may run in parallel, by the first verdict on it. -/
def isSafe (d : Dependences) (loop : LoopId) : Bool :=
  (d.loops.find? (·.loop == loop)).any ParallelVerdict.safe

def toJson (d : Dependences) : Json :=
  .obj [("loops", .arr (d.loops.map ParallelVerdict.toJson)),
    ("flow_dependences", .arr (d.flows.map DependenceResult.pairJson)), ("cyclic", .bool d.cyclic)]

end Dependences

namespace Program

/-- The arrays that a region accesses. -/
def accessed (p : Program) (root : Term) : List Binding :=
  (root.occurrences []).filterMap fun o =>
    match o.term.node with
    | .access array _ => p.array? array
    | _ => none

/-- The arrays that a region assigns to. -/
def writtenArrays (p : Program) (root : Term) : List Binding :=
  (root.occurrences []).filterMap fun o =>
    match o.term.node with
    | .assign (.mk _ (.access array _)) _ => p.array? array
    | _ => none

/-- The names under which a region reaches one storage. -/
def namesOf (bindings : List Binding) (identity : Nat) : List String :=
  Nest.sortedSet ((bindings.filter (·.identity? == some identity)).map (·.name))

/-- The names of a storage that is reached under several of them and written under one. -/
def collision? (p : Program) (root : Term) : Option (List String) :=
  let bindings := p.accessed root
  let written := (p.writtenArrays root).map (·.name)
  let identities := (bindings.filterMap Binding.identity?).mergeSort.eraseDups
  (identities.map (namesOf bindings)).find? fun names =>
    1 < names.length && names.any written.contains

def collisionText (names : List String) : String :=
  "arrays " ++ String.intercalate ", " names ++ " share storage and one is written"

/-- The source text of a labelled statement; other labels stand for themselves. -/
def renderLabel (p : Program) (statements : Table String Term) (label : String) : String :=
  match statements.get? label with
  | some t => p.describe t
  | none => label

/-- All loops are suspects until an oracle vouches for them. -/
def suspects (labels independent : List String) : List String :=
  independent.foldl (fun left label => left.filter (· != label)) labels

/-- Why an independent or dependent loop has to stay sequential. -/
def sequentialReason (independent : Bool) (collision : Option (List String))
    (cycle : Option (List String)) : String :=
  if !independent then "loop carries a dependence"
  else match collision, cycle with
    | some names, _ => collisionText names
    | none, some labels => "cyclic flow dependence " ++ String.intercalate " -> " labels
    | none, none => ""

/-- The verdict on every loop of a region. An oracle that fails has proved nothing. -/
def dependences (p : Program) (ctx : Context) (oracle : Oracle) (root : Term) :
    Except Error Dependences := do
  let (nest, labels) ← (Lowering.lower p ctx root).run {}
  let result := match oracle.test nest with
    | .ok result => result
    | .error _ => {}
  let suspects := suspects nest.loopLabels result.independent
  let cycle := (Digraph.ofEdges result.flows).findCycle
  let collision := p.collision? root
  let verdict (label : String) : Option ParallelVerdict :=
    (labels.loops.get? label).map fun loop =>
      let independent := !suspects.contains label
      { label, loop, independent, reason := sequentialReason independent collision cycle }
  let render := p.renderLabel labels.statements
  return {
    loops := nest.loopLabels.filterMap verdict
    flows := result.flows.map fun (source, sink) => (render source, render sink)
    cyclic := cycle.isSome }

end Program

end LoopSafety
