import LoopSafety.Bound.Basic
import LoopSafety.Program.Basic
import LoopSafety.Table

/-! Building symbolic bounds from syntax trees.

Literal arithmetic is folded on the way. A call stands for the function's result with each
parameter bound to the arguments of all call sites together, so every call of a function has the
same bound; it is kept once built. -/
namespace LoopSafety

/-- The bounds of the functions built so far. -/
abbrev Memo := Table FunctionId Bound

/-- Building keeps the functions that it completed even when it fails. -/
abbrev Building := ExceptT Error (StateM Memo)

namespace Build

def uncovered {α : Type} (p : Program) (t : Term) (obstacle : Obstacle) : Building α :=
  throw (.unsupported (p.describe t) obstacle)

/-- An operation on two bounds: a failed operand fails, two literals fold. -/
def arith (p : Program) (t : Term) (op : BinaryOp) (left right : Bound) (ty : DataType) :
    Building Bound :=
  match left, right with
  | .fail, _ | _, .fail => return .fail
  | .literal a _, .literal b _ =>
    match op.apply a b with
    | some v => return .literal (ty.saturate v) ty
    | none => uncovered p t .zeroDivisor
  | _, _ => return .binary op left right ty

def arrayBound (p : Program) (array : ArrayId) : Building Bound :=
  match p.array? array with
  | some binding => return .array array binding.name binding.shape.ty.element
  | none => throw (.missing (.array array))

section

variable (p : Program) (call : FunctionId → Term → Building Bound)

mutual

/-- The bound of a construct, given the bound of each call. -/
def term : Term → Building Bound
  | .mk _ (.literal value) => return .literal value.toInt64 value.dataType
  | .mk _ (.var _ _ (some definition)) => term definition
  | .mk _ (.var name ty none) => return .var name ty
  | .mk id (.binary op left right ty) => do
    let l ← term left
    let r ← term right
    arith p (.mk id (.binary op left right ty)) op l r ty
  | .mk _ (.unary .cast operand _) => term operand
  | .mk id (.unary .neg operand ty) => do
    let inner ← term operand
    arith p (.mk id (.unary .neg operand ty)) .sub (.literal 0 ty) inner ty
  | .mk id (.unary .not operand ty) =>
    uncovered p (.mk id (.unary .not operand ty)) .logicalNegation
  | .mk _ (.access array _) => arrayBound p array
  | .mk _ (.builtin kind [left, right] ty) => do
    let l ← term left
    let r ← term right
    return .builtin kind l r ty
  | .mk id (.builtin kind args ty) =>
    uncovered p (.mk id (.builtin kind args ty)) (.builtinArity kind.text args.length)
  | .mk id (.math fn args ty) => do
    if args.length ≠ fn.arity then
      uncovered p (.mk id (.math fn args ty)) (.mathArity fn.text fn.arity)
    else
      return .math fn (← terms args) ty
  | .mk _ (.cond _ thenPart (some elsePart) ty) => do
    let t ← term thenPart
    let e ← term elsePart
    return .either t e ty
  | .mk id (.cond condition thenPart none ty) =>
    uncovered p (.mk id (.cond condition thenPart none ty)) .missingElse
  | .mk id (.call function args) => call function (.mk id (.call function args))
  | t@(.mk _ (.forLoop ..)) | t@(.mk _ (.whileLoop ..)) | t@(.mk _ (.block _))
  | t@(.mk _ (.assign ..)) | t@(.mk _ (.ret _)) | t@(.mk _ .brk) =>
    uncovered p t (.unbounded t.kind)

def terms : List Term → Building (List Bound)
  | [] => return []
  | t :: ts => do
    let b ← term t
    return b :: (← terms ts)

end

/-- Join an argument with those of earlier call sites. -/
def join (previous : Option Bound) (bound : Bound) (ty : DataType) : Bound :=
  match previous with
  | none => bound
  | some b => .either b bound ty

/-- Join the arguments of one call site to those of earlier ones. -/
def joinArgs : List Param → List (Option Bound) → List Term → Building (List (Option Bound))
  | param :: params, previous :: rest, arg :: args => do
    let bound ← term p call arg
    return some (join previous bound param.ty) :: (← joinArgs params rest args)
  | _, _, _ => return []

/-- Join the arguments of call sites, in order. -/
def joinSites (f : FunctionDef) : List Term → List (Option Bound) → Building (List (Option Bound))
  | [], joined => return joined
  | site :: sites, joined => do
    let args := site.children
    if args.length ≠ f.params.length then
      uncovered p site (.callArity f.name f.params.length args.length)
    else
      joinSites f sites (← joinArgs p call f.params joined args)

/-- The bound of a function: arguments of all call sites, then the result. -/
def function (id : FunctionId) (f : FunctionDef) : Building Bound := do
  let joined ← joinSites p call f (p.callSites id) (f.params.map fun _ => none)
  let params := (f.params.zip joined).map fun (param, bound) => (param.name, bound.getD .fail)
  match p.term? f.ret with
  | none => throw (.missing (.node f.ret))
  | some result => return .call f.name params (← term p call result) f.retTy

end

/-- The bound of a call through at most `depth` further functions, while those in `active` are
being built. -/
def callBound (p : Program) : Nat → List FunctionId → FunctionId → Term → Building Bound
  | 0, _, _, site => uncovered p site .recursiveCall
  | depth + 1, active, id, site => do
    match (← get).get? id with
    | some bound => return bound
    | none =>
      if id ∈ active then uncovered p site .recursiveCall
      else
        match p.function? id with
        | none => throw (.missing (.function id))
        | some f =>
          let bound ← function p (callBound p depth (id :: active)) id f
          modify fun memo => memo.insert id bound
          return bound

/-- No chain of calls being built repeats a function, so it is no longer than the table. -/
def depth (p : Program) : Nat := p.functions.size + 1

end Build

namespace Program

/-- The symbolic bound of a construct. -/
def build (p : Program) (t : Term) : Building Bound :=
  Build.term p (Build.callBound p (Build.depth p) []) t

/-- One part of a symbolic range, or its default. -/
def buildPart (p : Program) (default : Int64) (ty : DataType) : Option NodeId → Building Bound
  | none => return .literal default ty
  | some id =>
    match p.term? id with
    | some t => p.build t
    | none => throw (.missing (.node id))

/-- The symbolic range of a loop. -/
def buildRange (p : Program) (loop : LoopId) : Building Bound :=
  match p.loop? loop with
  | none => throw (.missing (.loop loop))
  | some info =>
    match info.range with
    | .simple span =>
      return .range (.literal span.start info.ty) (.literal span.stop info.ty)
        (.literal span.step info.ty)
    | .symbolic start stop step defaults => do
      let start ← p.buildPart defaults.start info.ty start
      let stop ← p.buildPart defaults.stop info.ty stop
      let step ← p.buildPart defaults.step info.ty step
      return .range start stop step

end Program

end LoopSafety
