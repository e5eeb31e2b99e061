import LoopSafety.Handle
import LoopSafety.DataType
import LoopSafety.Saturating
import LoopSafety.Json.Decode

/-! The ranges that loops run over. -/
namespace LoopSafety

/-- From `start` up or down to before `stop`, in steps of `step`. -/
structure Span where
  start : Int64
  stop : Int64
  step : Int64
  deriving DecidableEq, Repr

namespace Span

/-- The exact number as a 64-bit integer; none if it does not fit. -/
def fit? (n : Int) : Option Int64 :=
  if Saturating.least ≤ n ∧ n ≤ Saturating.greatest then some (Int64.ofInt n) else none

/-- The floor of the length over the step; none for a zero step or where a 64-bit integer
overflows. -/
def iterationCount (s : Span) : Option Int64 := do
  let length ← fit? (s.stop.toInt - s.start.toInt)
  if s.step = 0 then none
  let quotient ← fit? (length.toInt.tdiv s.step.toInt)
  if length.toInt.tmod s.step.toInt ≠ 0 ∧ (decide (length < 0)) ≠ (decide (s.step < 0)) then
    return quotient - 1
  else
    return quotient

def text (s : Span) : String :=
  "range(" ++ toString s.start ++ ", " ++ toString s.stop ++ ", " ++ toString s.step ++ ")"

def toJson (s : Span) : Json :=
  .obj [("start", .int s.start.toInt), ("stop", .int s.stop.toInt), ("step", .int s.step.toInt)]

example : iterationCount ⟨0, -5, 2⟩ = some (-3) := by decide
example : iterationCount ⟨0, Int64.minValue, -1⟩ = none := by decide

end Span

def NodeId.toJson (id : NodeId) : Json := .int id.toNat
def NodeId.ofJson? (j : Json) : Option NodeId := j.uint32?.map NodeId.mk

/-- A range known from the start, or one whose parts are expressions; a part left out has a
default. -/
inductive LoopRange where
  | simple (span : Span)
  | symbolic (start stop step : Option NodeId) (defaults : Span)
  deriving DecidableEq, Repr

structure LoopInfo where
  induction : String
  ty : DataType
  range : LoopRange
  deriving DecidableEq, Repr

namespace LoopRange

def symbolicDefaults : Span := ⟨0, 0, 1⟩

def span? : LoopRange → Option Span
  | simple span => some span
  | symbolic .. => none

def handleJson : Option NodeId → Json
  | some id => id.toJson
  | none => .null

def toJson : LoopRange → Json
  | simple s =>
    .obj [("form", .str "simple"), ("start", .int s.start.toInt), ("stop", .int s.stop.toInt),
      ("step", .int s.step.toInt)]
  | symbolic start stop step d =>
    .obj [("form", .str "symbolic"), ("start", handleJson start), ("stop", handleJson stop),
      ("step", handleJson step),
      ("defaults", .arr [.int d.start.toInt, .int d.stop.toInt, .int d.step.toInt])]

def defaults? : Json → Option Span
  | .arr [a, b, c] => do return ⟨← a.int64?, ← b.int64?, ← c.int64?⟩
  | _ => none

/-- How many containers may be open inside a range of a kernel file. -/
def nestingLimit : Nat := 124

def ofJson? (j : Json) : Option LoopRange := do
  match ← j.tagged? .direct nestingLimit "form" ["simple", "symbolic"] with
  | ("simple", j) =>
    match ← j.record? [.required "start", .required "stop", .required "step"] with
    | [start, stop, step] =>
      return simple ⟨← Json.needed Json.int64? start, ← Json.needed Json.int64? stop,
        ← Json.needed Json.int64? step⟩
    | _ => none
  | (_, j) =>
    match ← j.record? [.optional "start", .optional "stop", .optional "step",
        .defaulted "defaults"] with
    | [start, stop, step, defaults] =>
      return symbolic (← Json.maybe NodeId.ofJson? start) (← Json.maybe NodeId.ofJson? stop)
        (← Json.maybe NodeId.ofJson? step) (← Json.orElse symbolicDefaults defaults? defaults)
    | _ => none

end LoopRange

namespace LoopInfo

def simpleSpan? (info : LoopInfo) : Option Span := info.range.span?

def toJson (info : LoopInfo) : Json :=
  .obj [("induction", .str info.induction), ("ty", .str info.ty.name), ("range", info.range.toJson)]

def ofJson? (j : Json) : Option LoopInfo := do
  match ← j.record? [.required "induction", .defaulted "ty", .required "range"] with
  | [induction, ty, range] =>
    return {
      induction := ← Json.needed Json.string? induction
      ty := ← Json.orElse .int (Json.named? .direct DataType.ofName?) ty
      range := ← Json.needed LoopRange.ofJson? range }
  | _ => none

end LoopInfo

end LoopSafety
