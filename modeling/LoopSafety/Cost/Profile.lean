import LoopSafety.Session.Context

/-! How often the operations of a region are expected to run.

A walk from the root carries a weight: the body of a loop with a known number of iterations weighs
that many times as much, each branch of a conditional an equal share. -/
namespace LoopSafety

structure Profile where
  binaryCounts : Table BinaryOp Float := ∅
  mathCounts : Table MathFn Float := ∅
  binaryOps : Float := 0
  mathFns : Float := 0
  assigns : Float := 0
  conditionals : Float := 0
  breaks : Float := 0
  forLoops : Float := 0
  accesses : Float := 0
  /-- Iterations of the root. -/
  iterations : Option Int64 := none
  forLoopsPerIteration : Float := 0
  conditionalsPerIteration : Float := 0
  binaryOpsPerIteration : Float := 0
  accessesPerIteration : Float := 0

def BinaryOp.rank (op : BinaryOp) : Nat := BinaryOp.all.idxOf op
def MathFn.rank (fn : MathFn) : Nat := MathFn.all.idxOf fn

namespace Profile

/-- Add a weight to the count of a key. -/
def bump {κ : Type} [DecidableEq κ] (t : Table κ Float) (key : κ) (weight : Float) :
    Table κ Float :=
  t.insert key ((t.get? key).getD 0 + weight)

def binary (op : BinaryOp) (weight : Float) (p : Profile) : Profile :=
  { p with binaryOps := p.binaryOps + weight, binaryCounts := bump p.binaryCounts op weight }

def math (fn : MathFn) (weight : Float) (p : Profile) : Profile :=
  { p with mathFns := p.mathFns + weight, mathCounts := bump p.mathCounts fn weight }

def assign (weight : Float) (p : Profile) : Profile := { p with assigns := p.assigns + weight }
def conditional (weight : Float) (p : Profile) : Profile :=
  { p with conditionals := p.conditionals + weight }
def brk (weight : Float) (p : Profile) : Profile := { p with breaks := p.breaks + weight }
def forLoop (weight : Float) (p : Profile) : Profile := { p with forLoops := p.forLoops + weight }
def access (weight : Float) (p : Profile) : Profile := { p with accesses := p.accesses + weight }

/-- Counts of both profiles together; iterations add up where both are known. -/
def merge (a b : Profile) : Profile where
  binaryCounts :=
    (b.binaryCounts.sortedBy BinaryOp.rank).foldl (fun t e => bump t e.1 e.2) a.binaryCounts
  mathCounts := (b.mathCounts.sortedBy MathFn.rank).foldl (fun t e => bump t e.1 e.2) a.mathCounts
  binaryOps := a.binaryOps + b.binaryOps
  mathFns := a.mathFns + b.mathFns
  assigns := a.assigns + b.assigns
  conditionals := a.conditionals + b.conditionals
  breaks := a.breaks + b.breaks
  forLoops := a.forLoops + b.forLoops
  accesses := a.accesses + b.accesses
  iterations := match a.iterations, b.iterations with
    | some m, some n => some (Saturating.add m n)
    | m, n => m.or n
  forLoopsPerIteration := a.forLoopsPerIteration + b.forLoopsPerIteration
  conditionalsPerIteration := a.conditionalsPerIteration + b.conditionalsPerIteration
  binaryOpsPerIteration := a.binaryOpsPerIteration + b.binaryOpsPerIteration
  accessesPerIteration := a.accessesPerIteration + b.accessesPerIteration

def summarize (profiles : List Profile) : Profile := profiles.foldl merge {}

def toJson (p : Profile) : Json :=
  .obj [
    ("binary_op_count",
      .obj ((p.binaryCounts.sortedBy BinaryOp.rank).map fun (op, n) => (op.name, .real n))),
    ("math_func_count",
      .obj ((p.mathCounts.sortedBy MathFn.rank).map fun (fn, n) => (fn.name, .real n))),
    ("binary_ops", .real p.binaryOps), ("math_funcs", .real p.mathFns),
    ("assign_count", .real p.assigns), ("if_count", .real p.conditionals),
    ("break_count", .real p.breaks), ("for_count", .real p.forLoops),
    ("array_access_count", .real p.accesses),
    ("iterations", p.iterations.elim .null fun n => .int n.toInt),
    ("for_per_iter", .real p.forLoopsPerIteration),
    ("if_per_iter", .real p.conditionalsPerIteration),
    ("binary_op_per_iter", .real p.binaryOpsPerIteration),
    ("array_access_per_iter", .real p.accessesPerIteration)]

end Profile

/-- The walk: the weight of the construct at hand and the counts so far. -/
structure Walk where
  weight : Float := 1
  profile : Profile := {}

namespace Walk

def count (tally : Float → Profile → Profile) (w : Walk) : Walk :=
  { w with profile := tally w.weight w.profile }

def withWeight (weight : Float) (w : Walk) : Walk := { w with weight }

section

variable (p : Program) (ctx : Context)

/-- The number of iterations of a loop, if its range is known. -/
def trips (loop : LoopId) : Option Int64 := (ctx.resolvedRange p loop).bind Span.iterationCount

/-- The weight of a loop's body. -/
def bodyWeight (loop : LoopId) (weight : Float) : Float :=
  match (trips p ctx loop).filter (0 < ·) with
  | some n => weight * n.toFloat
  | none => weight

/-- The weight of a branch. -/
def branchWeight (weight : Float) : Float := weight / (max ctx.config.branchFanout 1).toFloat

mutual

/-- Count a construct and its parts; a smaller or larger minimum counts as a conditional. -/
def visit : Term → Walk → Walk
  | .mk _ (.literal _), w | .mk _ (.var ..), w => w
  | .mk _ (.binary op left right _), w => visit right (visit left (w.count (Profile.binary op)))
  | .mk _ (.unary _ operand _), w => visit operand w
  | .mk _ (.access _ indices), w => visitAll indices (w.count Profile.access)
  | .mk _ (.builtin _ args _), w => visitAll args (w.count Profile.conditional)
  | .mk _ (.math fn args _), w => visitAll args (w.count (Profile.math fn))
  | .mk _ (.cond condition thenPart none _), w =>
    let tested := visit condition (w.count Profile.conditional)
    (visit thenPart (tested.withWeight (branchWeight ctx w.weight))).withWeight w.weight
  | .mk _ (.cond condition thenPart (some elsePart) _), w =>
    let tested := visit condition (w.count Profile.conditional)
    let taken := visit thenPart (tested.withWeight (branchWeight ctx w.weight))
    (visit elsePart taken).withWeight w.weight
  | .mk _ (.forLoop loop body), w =>
    let entered := w.count Profile.forLoop
    (visit body (entered.withWeight (bodyWeight p ctx loop w.weight))).withWeight w.weight
  | .mk _ (.whileLoop condition body), w => visit body (visit condition w)
  | .mk _ (.block statements), w => visitAll statements w
  | .mk _ (.assign target value), w => visit value (visit target (w.count Profile.assign))
  | .mk _ (.call _ args), w => visitAll args w
  | .mk _ (.ret value), w => visit value w
  | .mk _ .brk, w => w.count Profile.brk

def visitAll : List Term → Walk → Walk
  | [], w => w
  | t :: ts, w => visitAll ts (visit t w)

end

end

end Walk

/-- The profile of a region, with averages over the iterations of its root. -/
def Context.profile (p : Program) (ctx : Context) (root : Term) : Profile :=
  let counts := (Walk.visit p ctx root {}).profile
  let iterations := match root.node with
    | .forLoop loop _ => Walk.trips p ctx loop
    | _ => none
  let per := match iterations.filter (0 < ·) with
    | some n => n.toFloat
    | none => 1
  { counts with
    iterations
    forLoopsPerIteration := counts.forLoops / per
    conditionalsPerIteration := counts.conditionals / per
    binaryOpsPerIteration := counts.binaryOps / per
    accessesPerIteration := counts.accesses / per }

end LoopSafety
