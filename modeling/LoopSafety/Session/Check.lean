import LoopSafety.Bound.Build
import LoopSafety.Session.Evaluation

/-! Building the bounds of a context's targets and deciding which checks stay.

Deciding either stores its verdicts, or compares them with the stored ones: a target that was
stored as safe and is not provable any more invalidates the bounds. -/
namespace LoopSafety

/-- Steps on a context keep what they did before they failed. -/
abbrev Analysis := ExceptT Error (StateM Context)

/-- A context with the flag of the check at hand. -/
structure Checker where
  context : Context
  safe : Bool := true

abbrev Checking := ExceptT Error (StateM Checker)

namespace Context

/-- Build with the functions known so far. -/
def building {α : Type} (step : Building α) (memo : Memo) : Analysis (α × Memo) :=
  match (step.run memo).run with
  | (.ok a, memo) => return (a, memo)
  | (.error e, _) => throw e

def buildLoops (p : Program) : List LoopId → Memo → Analysis Memo
  | [], memo => return memo
  | loop :: loops, memo => do
    let (range, memo) ← building (p.buildRange loop) memo
    modify fun ctx => { ctx with loopBounds := ctx.loopBounds.insert loop range }
    buildLoops p loops memo

def buildAccesses (p : Program) : List Occurrence → Memo → Analysis Memo
  | [], memo => return memo
  | target :: targets, memo => do
    match target.term.node with
    | .access _ indices =>
      let (bounds, memo) ← building (indices.mapM p.build) memo
      modify fun ctx => { ctx with accessBounds := ctx.accessBounds.insert target.term.id bounds }
      buildAccesses p targets memo
    | node => throw (.unsupported (p.describe target.term) (.notAnAccess node.kind))

def buildOverflows (p : Program) : List Occurrence → Memo → Analysis Memo
  | [], memo => return memo
  | target :: targets, memo => do
    let (bound, memo) ← building (p.build target.term) memo
    modify fun ctx => { ctx with overflowBounds := ctx.overflowBounds.insert target.term.id bound }
    buildOverflows p targets memo

/-- Build the bounds of all loops, accesses and overflow checks, in this order. -/
def buildAll (p : Program) : Analysis Unit := do
  let ctx ← get
  let memo ← buildLoops p ctx.loops ∅
  let memo ← buildAccesses p ctx.accesses memo
  let _ ← buildOverflows p ctx.overflowChecks memo

end Context

namespace Checker

/-- Narrow a bound; its effect on the flag and the scanned contents stays. -/
def evaluate (p : Program) (frame : Frame) (bound : Bound) : StateM Checker Bound := fun c =>
  let (result, probe) :=
    (c.context.evaluate p frame bound).run { safe := c.safe, scans := c.context.scans }
  (result, { context := { c.context with scans := probe.scans }, safe := probe.safe })

/-- Narrow a bound for a check of its own under the given loops. -/
def check (p : Program) (loops : List LoopId) (bound : Bound) : StateM Checker Bound := do
  modify fun c => { c with safe := true }
  evaluate p { loops } bound

/-- The three parts as literals, narrowed up to the first that is none. -/
def literalRange (p : Program) (start stop step : Bound) : StateM Checker (Option Span) := do
  match (← evaluate p {} start).literal? with
  | none => return none
  | some start =>
    match (← evaluate p {} stop).literal? with
    | none => return none
    | some stop =>
      match (← evaluate p {} step).literal? with
      | none => return none
      | some step => return some ⟨start, stop, step⟩

/-- Resolve a loop's range under the current constants. -/
def resolveLoop (p : Program) (loop : LoopId) : StateM Checker (Option Span) := do
  match (p.loop? loop).bind LoopInfo.simpleSpan? with
  | some span => return some span
  | none =>
    match (← get).context.loopBounds.get? loop with
    | some (.range start stop step) =>
      modify fun c => { c with safe := true }
      match ← literalRange p start stop step with
      | none => return none
      | some span =>
        modify fun c =>
          { c with context := { c.context with ranges := c.context.ranges.insert loop span } }
        return some span
    | _ => return none

/-- Resolve the ranges of all loops. -/
def resolveLoops (p : Program) : StateM Checker Unit := do
  (← get).context.loops.forM fun loop => do
    let _ ← resolveLoop p loop

/-- Lower the least index to a literal of an evaluated bound. -/
def noteIndex (bound : Bound) (c : Checker) : Checker :=
  match bound.lowest? with
  | some low =>
    if low < c.context.minimum then { c with context := { c.context with minimum := low } } else c
  | none => c

/-- Whether an index into a dimension of the given size needs its check. -/
def indexNeedsCheck (p : Program) (loops : List LoopId) (bound : Option Bound) (size : Int64) :
    StateM Checker Bool := do
  match (← get).context.config.boundCheck, bound with
  | true, some bound =>
    let resolved ← check p loops bound
    modify (noteIndex resolved)
    return !((← get).safe && resolved.within size)
  | _, _ => return true

/-- The verdict on each dimension of an access. -/
def accessVerdict (p : Program) (loops : List LoopId) : List Int64 → List (Option Bound) →
    StateM Checker (List Bool)
  | size :: sizes, bound :: bounds => do
    let needed ← indexNeedsCheck p loops bound size
    return needed :: (← accessVerdict p loops sizes bounds)
  | _, _ => return []

/-- Whether an integer operation needs its check. -/
def operationNeedsCheck (p : Program) (target : Occurrence) : StateM Checker Bool := do
  let ctx := (← get).context
  match (p.typeOf target.term).limits, ctx.config.boundCheck,
    ctx.overflowBounds.get? target.term.id with
  | none, _, _ => return false
  | some (lo, hi), true, some bound =>
    let resolved ← check p target.loops bound
    return !((← get).safe && resolved.avoids lo hi)
  | _, _, _ => return true

/-- Whether a target that was safe in some dimension is not so now. -/
def regressed (stored now : List Bool) : Bool := (stored.zip now).any fun (was, is) => !was && is

def storeAccess (node : NodeId) (verdict : List Bool) (c : Checker) : Checker :=
  { c with context :=
      { c.context with accessVerdicts := c.context.accessVerdicts.insert node verdict } }

def storeOperation (node : NodeId) (verdict : Bool) (c : Checker) : Checker :=
  { c with context :=
      { c.context with overflowVerdicts := c.context.overflowVerdicts.insert node verdict } }

/-- Decide one access; a target that is no access is passed over. -/
def checkAccess (p : Program) (strict : Bool) (target : Occurrence) : Checking Unit := do
  match target.term.node with
  | .access array indices =>
    match p.array? array with
    | none => throw (.missing (.array array))
    | some binding =>
      let sizes := binding.shape.dimensions
      if indices.length ≠ sizes.length then
        throw (.unsupported (p.describe target.term) (.indexCount indices.length sizes.length))
      let bounds := ((← get).context.accessBounds.get? target.term.id).getD []
      let verdict ← accessVerdict p target.loops sizes
        ((List.range sizes.length).map fun d => bounds[d]?)
      if strict then
        match (← get).context.accessVerdicts.get? target.term.id with
        | some stored => if regressed stored verdict then throw .boundInvalidated
        | none => return
      else
        modify (storeAccess target.term.id verdict)
  | _ => return

/-- Decide one integer operation. -/
def checkOperation (p : Program) (strict : Bool) (target : Occurrence) : Checking Unit := do
  let needed ← operationNeedsCheck p target
  if strict then
    if (← get).context.overflowVerdicts.get? target.term.id = some false ∧ needed then
      throw .boundInvalidated
  else
    modify (storeOperation target.term.id needed)

/-- Resolve all loops, then decide all accesses and all operations. -/
def checkAll (p : Program) (strict : Bool) : Checking Unit := do
  resolveLoops p
  (← get).context.accesses.forM (checkAccess p strict)
  (← get).context.overflowChecks.forM (checkOperation p strict)

end Checker

namespace Context

/-- Run steps with a flag of their own. -/
def checking {α : Type} (step : Checking α) : Analysis α := fun ctx =>
  let (result, c) := (step.run).run { context := ctx }
  (result, c.context)

/-- Decide all targets of a context. -/
def checkAll (p : Program) (strict : Bool) : Analysis Unit := checking (Checker.checkAll p strict)

/-- Resolve the ranges of all loops. -/
def resolveLoops (p : Program) : Analysis Unit := checking (Checker.resolveLoops p)

/-- Resolve the range of one loop. -/
def resolveLoop (p : Program) (loop : LoopId) : Analysis (Option Span) :=
  checking (Checker.resolveLoop p loop)

end Context

end LoopSafety
