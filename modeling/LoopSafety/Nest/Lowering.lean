import LoopSafety.Nest.Basic
import LoopSafety.Session.Context

/-! Lowering a region to the nest that an oracle is asked about. -/
namespace LoopSafety.Lowering

open Nest (Expr Stmt LoopHead)

def loopLabel (loop : LoopId) : String := "for_" ++ loop.text
def statementLabel (id : NodeId) : String := "S_" ++ id.text

/-- What the labels of a nest stand for, and the scalars that its statements assign to. -/
structure Labels where
  loops : Table String LoopId := ∅
  statements : Table String Term := ∅
  assigned : List String := []

inductive Entry where
  | loop (loop : LoopId)
  | statement (t : Term)
  | assigned (name : String)

def Labels.enter (labels : Labels) : Entry → Labels
  | .loop loop => { labels with loops := labels.loops.insert (loopLabel loop) loop }
  | .statement t =>
    { labels with statements := labels.statements.insert (statementLabel t.id) t }
  | .assigned name => { labels with assigned := labels.assigned ++ [name] }

/-- Steps of lowering enter the labels that they make. -/
abbrev Labelling := StateT Labels (Except Error)

def enter (entry : Entry) : Labelling Unit := modify (·.enter entry)

def enterTarget : Term → Labelling Unit
  | .mk _ (.var name ..) => enter (.assigned name)
  | _ => return ()

section

variable (p : Program)

mutual

def expr : Term → Except Error Expr
  | .mk _ (.literal value) => return .literal value.toInt64
  | .mk _ (.var name _ _) => return .var name
  | .mk _ (.binary op left right _) => do return .binary op (← expr left) (← expr right)
  | .mk _ (.unary op operand _) => do return .unary op (← expr operand)
  | .mk _ (.access array indices) =>
    match p.array? array with
    | none => throw (.missing (.array array))
    | some binding => do return .subscript binding.name (← exprs indices)
  | .mk _ (.builtin kind args _) => do return .intrinsic kind.text (← exprs args)
  | .mk _ (.math fn args _) => do return .intrinsic fn.text (← exprs args)
  | .mk _ (.cond condition thenPart (some elsePart) _) => do
    return .ternary (← expr condition) (← expr thenPart) (← expr elsePart)
  | .mk _ (.call function args) =>
    match p.function? function with
    | none => throw (.missing (.function function))
    | some f => do return .call f.name (← exprs args)
  | t@(.mk _ (.cond _ _ none _)) | t@(.mk _ (.forLoop ..)) | t@(.mk _ (.whileLoop ..))
  | t@(.mk _ (.block _)) | t@(.mk _ (.assign ..)) | t@(.mk _ (.ret _)) | t@(.mk _ .brk) =>
    throw (.unsupported (p.describe t) (.notAnExpression t.kind))

def exprs : List Term → Except Error (List Expr)
  | [] => return []
  | t :: ts => do
    let e ← expr t
    return e :: (← exprs ts)

end

variable (ctx : Context)

/-- The distance that moves every index found so far to zero or above. -/
def shift : Int64 := max (-ctx.minimum) 0

/-- A part of a range that has not been resolved, or its default. -/
def part (default : Int64) : Option NodeId → Except Error Expr
  | none => return .literal default
  | some id => do expr p (← p.term id)

/-- Label, variable and range of a loop; a resolved range is shifted. -/
def loopHead (loop : LoopId) : Except Error LoopHead :=
  match p.loop? loop with
  | none => throw (.missing (.loop loop))
  | some info => do
    let label := loopLabel loop
    let induction := info.induction
    match ctx.resolvedRange p loop, info.range with
    | some span, _ =>
      return {
        label, induction
        start := .literal (Saturating.add span.start (shift ctx))
        stop := .literal (Saturating.add span.stop (shift ctx))
        step := .literal span.step }
    | none, .symbolic start stop step defaults =>
      return {
        label, induction
        start := ← part p defaults.start start
        stop := ← part p defaults.stop stop
        step := ← part p defaults.step step }
    | none, .simple span =>
      return {
        label, induction
        start := .literal span.start
        stop := .literal span.stop
        step := .literal span.step }

mutual

/-- The statements of a construct; blocks dissolve into those around them. -/
def lowerBlock : Term → Labelling (List Stmt)
  | .mk _ (.block statements) => lowerBlocks statements
  | .mk _ (.forLoop loop body) => do
    enter (.loop loop)
    let head ← loopHead p ctx loop
    return [.loop head (← lowerBlock body)]
  | .mk id (.assign target value) => do
    enterTarget target
    enter (.statement (.mk id (.assign target value)))
    let target ← expr p target
    let value ← expr p value
    return [.assign (statementLabel id) target value]
  | .mk id (.cond condition thenPart none ty) => do
    enter (.statement (.mk id (.cond condition thenPart none ty)))
    let c ← expr p condition
    let t ← lowerBlock thenPart
    return [.cond (statementLabel id) c t []]
  | .mk id (.cond condition thenPart (some elsePart) ty) => do
    enter (.statement (.mk id (.cond condition thenPart (some elsePart) ty)))
    let c ← expr p condition
    let t ← lowerBlock thenPart
    let e ← lowerBlock elsePart
    return [.cond (statementLabel id) c t e]
  | .mk id .brk => do
    enter (.statement (.mk id .brk))
    return [.brk (statementLabel id)]
  | t@(.mk _ (.whileLoop ..)) | t@(.mk _ (.ret _)) =>
    throw (.unsupported (p.describe t) .notAStatement)
  | t@(.mk id (.literal _)) | t@(.mk id (.var ..)) | t@(.mk id (.binary ..))
  | t@(.mk id (.unary ..)) | t@(.mk id (.access ..)) | t@(.mk id (.builtin ..))
  | t@(.mk id (.math ..)) | t@(.mk id (.call ..)) => do
    enter (.statement t)
    return [.expr (statementLabel id) (← expr p t)]

def lowerBlocks : List Term → Labelling (List Stmt)
  | [] => return []
  | t :: ts => do
    let first ← lowerBlock t
    return first ++ (← lowerBlocks ts)

end

/-- The nest of a region. -/
def lower (root : Term) : Labelling Nest :=
  match root.node with
  | .forLoop loop body => do
    enter (.loop loop)
    let head ← loopHead p ctx loop
    let body ← lowerBlock p ctx body
    return {
      root := ⟨head, body⟩
      locals := Nest.sortedSet (← get).assigned
      constants := ctx.constants }
  | node => throw (.unsupported (p.describe root) (.nestNotLoop node.kind))

def nest (root : Term) : Except Error Nest := (lower p ctx root).run' {}

end

end LoopSafety.Lowering
