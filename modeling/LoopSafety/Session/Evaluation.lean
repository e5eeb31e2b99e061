import LoopSafety.Session.Context

/-! Narrowing symbolic bounds to intervals.

A variable stands for a parameter of an inlined call, a constant, or the variable of a loop, whose
range is narrowed in turn. Whatever cannot be narrowed fails and makes the check unsafe. -/
namespace LoopSafety

/-- Where a bound is narrowed: the loops around it, outermost first; the parameters of the inlined
calls around it and the loops whose ranges are being narrowed, innermost first. -/
structure Frame where
  loops : List LoopId := []
  scopes : List (Table String Bound) := []
  resolving : List LoopId := []

/-- What narrowing leaves behind. -/
structure Probe where
  safe : Bool := true
  scans : ScanCache := {}

abbrev Probing := StateM Probe

namespace Evaluation

def markUnsafe : Probing Unit := modify fun s => { s with safe := false }

def fail : Probing Bound := do
  markUnsafe
  return .fail

/-- The least interval around two intervals, whose ends may be in either order. -/
def hull (a b : Bound) (ty : DataType) : Probing Bound :=
  match a.interval?, b.interval? with
  | some (a₁, a₂), some (b₁, b₂) =>
    return .interval (min (min (min a₁ a₂) b₁) b₂) (max (max (max a₁ a₂) b₁) b₂) ty
  | _, _ => fail

/-- The result on two literals; a division by zero is unsafe and leaves the dividend. -/
def applyBinary (a : Int64) (op : BinaryOp) (b : Int64) : Probing Int64 :=
  match op.apply a b with
  | some v => return v
  | none => do
    markUnsafe
    return a

/-- The operator on the lower ends and on the upper ends. This encloses all values only for
operators that grow or shrink with both operands. A divisor that may be zero is unsafe. -/
def binaryInterval (a : Int64 × Int64) (op : BinaryOp) (b : Int64 × Int64) (ty : DataType) :
    Probing Bound := do
  if op.isDivision ∧ min b.1 b.2 ≤ 0 ∧ 0 ≤ max b.1 b.2 then
    markUnsafe
  let lo ← applyBinary a.1 op b.1
  let hi ← applyBinary a.2 op b.2
  return .interval (ty.saturate lo) (ty.saturate hi) ty

/-- All values of the variable of a loop whose start, stop and step lie in intervals. The step has
to keep its sign. -/
def inductionInterval (start stop step : Option (Int64 × Int64)) (ty : DataType) : Probing Bound :=
  match start, stop, step with
  | some (startLo, startHi), some (stopLo, stopHi), some (stepLo, stepHi) =>
    if 0 < stepLo then return .interval startLo (Saturating.sub stopHi 1) ty
    else if stepHi < 0 then return .interval (Saturating.add stopLo 1) startHi ty
    else fail
  | _, _, _ => fail

/-- Start, stop and step of a loop: the built range, or a range known from the start. -/
def rangeParts (p : Program) (ctx : Context) (loop : LoopId) : Option (Bound × Bound × Bound) :=
  match ctx.loopBounds.get? loop with
  | some (.range start stop step) => some (start, stop, step)
  | _ => do
    let info ← p.loop? loop
    let span ← info.simpleSpan?
    return (.literal span.start info.ty, .literal span.stop info.ty, .literal span.step info.ty)

def loopType (p : Program) (loop : LoopId) : DataType := (p.loop? loop).elim .none (·.ty)

/-- The loop whose variable a name is: the innermost around the bound, else the last of the
region. -/
def loopOf? (p : Program) (ctx : Context) (frame : Frame) (name : String) : Option LoopId :=
  (frame.loops.reverse ++ ctx.loops.reverse).find? fun l =>
    (p.loop? l).any fun info => info.induction == name

/-- The contents of an array, if scanning is on and the array is eligible. -/
def arrayContents (p : Program) (ctx : Context) (array : ArrayId) (ty : DataType) :
    Probing Bound := do
  match (p.array? array).filter Binding.isScanEligible with
  | none => fail
  | some binding =>
    if ctx.config.scanMinMax then
      let (found, scans) := (← get).scans.getOrScan binding ctx.config.scanUniqueness
      modify fun s => { s with scans }
      match found with
      | some c => return .interval c.min c.max ty
      | none => fail
    else fail

/-- The image of intervals under a real function, rounded outward. -/
def mathInterval (fn : MathFn) (args : List (Int64 × Int64)) (ty : DataType) : Probing Bound :=
  match fn.image (args.map fun (lo, hi) => (lo.toFloat, hi.toFloat)) with
  | some (lo, hi) => return .interval lo.floor.toInt64 hi.ceil.toInt64 ty
  | none => fail

section

variable (p : Program) (ctx : Context) (induction : Frame → LoopId → Probing Bound)

/-- What a name stands for, given the bound of each loop variable. -/
def resolve (frame : Frame) (name : String) (ty : DataType) : Probing Bound :=
  match frame.scopes.findSome? (·.get? name) with
  | some bound => return bound
  | none =>
    match ctx.constants.get? name with
    | some value => return .literal value ty
    | none =>
      match loopOf? p ctx frame name with
      | some loop => induction frame loop
      | none => fail

mutual

/-- Narrow a bound, given the bound of each loop variable. -/
def narrow : Frame → Bound → Probing Bound
  | _, .literal value ty => return .literal value ty
  | frame, .limit lo hi ty => do hull (← narrow frame lo) (← narrow frame hi) ty
  | frame, .either thenPart elsePart ty => do
    hull (← narrow frame thenPart) (← narrow frame elsePart) ty
  | frame, .range start stop step => do
    return .range (← narrow frame start) (← narrow frame stop) (← narrow frame step)
  | frame, .var name ty => resolve p ctx induction frame name ty
  | frame, .binary op left right ty => do
    let l ← narrow frame left
    let r ← narrow frame right
    match l.interval?, r.interval? with
    | some a, some b => binaryInterval a op b ty
    | _, _ => fail
  | frame, .builtin kind left right ty => do
    let l ← narrow frame left
    let r ← narrow frame right
    match l.interval?, r.interval? with
    | some a, some b => return .interval (kind.apply a.1 b.1) (kind.apply a.2 b.2) ty
    | _, _ => fail
  | frame, .math fn args ty => do
    match ← narrowArgs frame args with
    | some intervals => mathInterval fn intervals ty
    | none => fail
  | frame, .call _ params ret _ => do
    let scope ← narrowParams frame params ∅
    narrow { frame with scopes := scope :: frame.scopes } ret
  | _, .array id _ ty => arrayContents p ctx id ty
  | _, .fail => fail

/-- The intervals of arguments, up to the first that has none. -/
def narrowArgs : Frame → List Bound → Probing (Option (List (Int64 × Int64)))
  | _, [] => return some []
  | frame, b :: bs => do
    match (← narrow frame b).interval? with
    | none => return none
    | some interval => return (← narrowArgs frame bs).map (interval :: ·)

/-- Bind parameters to their narrowed arguments; the last of a repeated name counts. -/
def narrowParams : Frame → List (String × Bound) → Table String Bound → Probing (Table String Bound)
  | _, [], scope => return scope
  | frame, (name, b) :: bs, scope => do narrowParams frame bs (scope.insert name (← narrow frame b))

end

end

/-- The bound of a loop variable, through at most `depth` further loops. A loop that is already
being narrowed fails. -/
def inductionBound (p : Program) (ctx : Context) : Nat → Frame → LoopId → Probing Bound
  | 0, _, _ => fail
  | depth + 1, frame, loop =>
    if loop ∈ frame.resolving then fail
    else
      match rangeParts p ctx loop with
      | none => fail
      | some (start, stop, step) => do
        let inner := { frame with resolving := loop :: frame.resolving }
        let start ← narrow p ctx (inductionBound p ctx depth) inner start
        let stop ← narrow p ctx (inductionBound p ctx depth) inner stop
        let step ← narrow p ctx (inductionBound p ctx depth) inner step
        inductionInterval start.interval? stop.interval? step.interval? (loopType p loop)

/-- No chain of loop variables visits a loop twice, so it is no longer than the list of loops. -/
def depth (ctx : Context) (frame : Frame) : Nat := frame.loops.length + ctx.loops.length + 1

end Evaluation

/-- Narrow a bound against the constants, loops and arrays of a context. -/
def Context.evaluate (p : Program) (ctx : Context) (frame : Frame) (bound : Bound) :
    Probing Bound :=
  Evaluation.narrow p ctx (Evaluation.inductionBound p ctx (Evaluation.depth ctx frame)) frame bound

end LoopSafety
