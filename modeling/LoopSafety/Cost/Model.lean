import LoopSafety.Cost.Profile

/-! Whether running a region elsewhere pays off. -/
namespace LoopSafety

/-- What each kind of operation costs, and from which total on a region is worth moving. -/
structure CostModel where
  arithmetic : Float := 1
  division : Float := 4
  math : Float := 8
  memory : Float := 2
  branch : Float := 1
  threshold : Float := 1000

structure OffloadDecision where
  estimate : Float
  threshold : Float
  offload : Bool

namespace CostModel

def ofThreshold (threshold : UInt64) : CostModel := { threshold := threshold.toFloat }

/-- The weighted cost of a profile. An empty sum is a negative zero, the neutral element of
addition of doubles. -/
def estimate (m : CostModel) (p : Profile) : Float :=
  let counts := (p.binaryCounts.sortedBy BinaryOp.rank).filter (·.1.isDivision)
  let divisions := counts.foldl (fun sum e => sum + e.2) (-0.0)
  let plain := p.binaryOps - divisions
  plain * m.arithmetic + divisions * m.division + p.mathFns * m.math + p.accesses * m.memory
    + (p.conditionals + p.forLoops) * m.branch

def decide (m : CostModel) (p : Profile) : OffloadDecision :=
  let estimate := m.estimate p
  { estimate, threshold := m.threshold, offload := estimate ≥ m.threshold }

def toJson (m : CostModel) : Json :=
  .obj [("arith_weight", .real m.arithmetic), ("division_weight", .real m.division),
    ("math_weight", .real m.math), ("memory_weight", .real m.memory),
    ("branch_weight", .real m.branch), ("threshold", .real m.threshold)]

end CostModel

def OffloadDecision.toJson (d : OffloadDecision) : Json :=
  .obj [("estimate", .real d.estimate), ("threshold", .real d.threshold),
    ("offload", .bool d.offload)]

end LoopSafety
