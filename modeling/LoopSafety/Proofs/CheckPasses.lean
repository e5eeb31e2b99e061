import LoopSafety.Proofs.Narrowing

/-! A whole pass on one narrower.

A check begins with the flag raised, the loops of its target and empty stacks, whatever the check before
it has left. The ranges of loops are resolved before the first check and without such a beginning, where
the narrower is still new. Since narrowing leaves the stacks as it found them, a pass on one narrower
comes to what it comes to with every bound narrowed at a place of its own. -/
namespace LoopSafety

/-- Steps of a pass may fail. -/
abbrev Pass := ExceptT Error Narrowing

namespace Narrower

def checker (n : Narrower) : Checker := ⟨n.context, n.safe⟩

@[simp] lemma checker_context (n : Narrower) : n.checker.context = n.context := rfl

/-- Change the context and the flag alone. -/
def update (f : Checker → Checker) (n : Narrower) : Narrower :=
  { n with context := (f n.checker).context, safe := (f n.checker).safe }

/-- The fields that a check has to itself are assigned. -/
def beginCheck (loops : List LoopId) (n : Narrower) : Narrower :=
  { n with safe := true, loops, scopes := [], resolving := [] }

section

variable (p : Program) (depth : Nat)

/-- The three parts as literals, narrowed where the narrower is. -/
def literalRange (start stop step : Bound) : Narrowing (Option Span) := do
  match (← evaluate p depth start).literal? with
  | none => return none
  | some start =>
    match (← evaluate p depth stop).literal? with
    | none => return none
    | some stop =>
      match (← evaluate p depth step).literal? with
      | none => return none
      | some step => return some ⟨start, stop, step⟩

def resolveLoop (loop : LoopId) : Narrowing (Option Span) := do
  match (p.loop? loop).bind LoopInfo.simpleSpan? with
  | some span => return some span
  | none =>
    match (← get).context.loopBounds.get? loop with
    | some (.range start stop step) =>
      modify (update fun c => { c with safe := true })
      match ← literalRange p depth start stop step with
      | none => return none
      | some span =>
        modify (update fun c =>
          { c with context := { c.context with ranges := c.context.ranges.insert loop span } })
        return some span
    | _ => return none

def resolveLoops : Narrowing Unit := do
  (← get).context.loops.forM fun loop => do
    let _ ← resolveLoop p depth loop

def check (loops : List LoopId) (b : Bound) : Narrowing Bound := do
  modify (beginCheck loops)
  evaluate p depth b

def indexNeedsCheck (loops : List LoopId) (bound : Option Bound) (size : Int64) : Narrowing Bool := do
  match (← get).context.config.boundCheck, bound with
  | true, some bound =>
    let resolved ← check p depth loops bound
    modify (update (Checker.noteIndex resolved))
    return !((← get).safe && resolved.within size)
  | _, _ => return true

def accessVerdict (loops : List LoopId) : List Int64 → List (Option Bound) → Narrowing (List Bool)
  | size :: sizes, bound :: bounds => do
    let needed ← indexNeedsCheck p depth loops bound size
    return needed :: (← accessVerdict loops sizes bounds)
  | _, _ => return []

def operationNeedsCheck (target : Occurrence) : Narrowing Bool := do
  let ctx := (← get).context
  match (p.typeOf target.term).limits, ctx.config.boundCheck,
    ctx.overflowBounds.get? target.term.id with
  | none, _, _ => return false
  | some (lo, hi), true, some bound =>
    let resolved ← check p depth target.loops bound
    return !((← get).safe && resolved.avoids lo hi)
  | _, _, _ => return true

def checkAccess (strict : Bool) (target : Occurrence) : Pass Unit := do
  match target.term.node with
  | .access array indices =>
    match p.array? array with
    | none => throw (.missing (.array array))
    | some binding =>
      let sizes := binding.shape.dimensions
      if indices.length ≠ sizes.length then
        throw (.unsupported (p.describe target.term) (.indexCount indices.length sizes.length))
      let bounds := ((← get).context.accessBounds.get? target.term.id).getD []
      let verdict ← accessVerdict p depth target.loops sizes
        ((List.range sizes.length).map fun d => bounds[d]?)
      if strict then
        match (← get).context.accessVerdicts.get? target.term.id with
        | some stored => if Checker.regressed stored verdict then throw .boundInvalidated
        | none => return
      else
        modify (update (Checker.storeAccess target.term.id verdict))
  | _ => return

def checkOperation (strict : Bool) (target : Occurrence) : Pass Unit := do
  let needed ← operationNeedsCheck p depth target
  if strict then
    if (← get).context.overflowVerdicts.get? target.term.id = some false ∧ needed then
      throw .boundInvalidated
  else
    modify (update (Checker.storeOperation target.term.id needed))

/-- Resolve all loops, then decide all accesses and all operations. -/
def checkAll (strict : Bool) : Pass Unit := do
  resolveLoops p depth
  (← get).context.accesses.forM (checkAccess p depth strict)
  (← get).context.overflowChecks.forM (checkOperation p depth strict)

end

end Narrower

/-- What a pass goes through. -/
def Context.agenda (ctx : Context) : List LoopId × List Occurrence × List Occurrence :=
  (ctx.loops, ctx.accesses, ctx.overflowChecks)

namespace Narrower

/-- A narrower that is a checker at a place of some kind, on the agenda of a context. -/
structure Stands (ctx : Context) (place : Frame → Prop) (n : Narrower) (c : Checker) : Prop where
  checker : n.checker = c
  agenda : c.context.agenda = ctx.agenda
  frame : place n.frame

/-- Steps of a narrower do what steps of a checker do, and stay at places of one kind. -/
def Simulates (ctx : Context) (place : Frame → Prop) {α : Type} (x : StateM Checker α)
    (y : Narrowing α) : Prop :=
  ∀ n c, Stands ctx place n c → ∃ n', y.run n = some ((x.run c).1, n') ∧
    Stands ctx place n' (x.run c).2

namespace Simulates

variable {ctx : Context} {place : Frame → Prop} {α β : Type} {x : StateM Checker α}
  {y : Narrowing α} {f : α → StateM Checker β} {g : α → Narrowing β}

theorem pure (a : α) : Simulates ctx place (Pure.pure a) (Pure.pure a) :=
  fun n _ h => ⟨n, rfl, h⟩

theorem bind (h : Simulates ctx place x y) (hf : ∀ a, Simulates ctx place (f a) (g a)) :
    Simulates ctx place (x >>= f) (y >>= g) := by
  intro n c hn
  obtain ⟨n', hrun, hn'⟩ := h n c hn
  obtain ⟨n'', hnext, hn''⟩ := hf _ n' _ hn'
  refine ⟨n'', ?_, hn''⟩
  rw [StateT.run_bind, hrun]
  exact hnext

/-- The state is read, as far as a checker has it. -/
theorem read {f : Checker → StateM Checker α} {g : Narrower → Narrowing α}
    (h : ∀ n : Narrower, Simulates ctx place (f n.checker) (g n)) :
    Simulates ctx place (get >>= f) (get >>= g) := by
  rintro n _ ⟨rfl, hagenda, hframe⟩
  exact h n n _ ⟨rfl, hagenda, hframe⟩

theorem update {f : Checker → Checker} (hf : ∀ c, (f c).context.agenda = c.context.agenda) :
    Simulates ctx place (modify f) (modify (Narrower.update f)) := by
  rintro n _ ⟨rfl, hagenda, hframe⟩
  exact ⟨_, rfl, rfl, (hf _).trans hagenda, hframe⟩

theorem forM {γ : Type} {f : γ → StateM Checker Unit} {g : γ → Narrowing Unit} (as : List γ)
    (h : ∀ a ∈ as, Simulates ctx place (f a) (g a)) :
    Simulates ctx place (as.forM f) (as.forM g) := by
  induction as with
  | nil => exact pure ()
  | cons a as ih =>
    obtain ⟨ha, has⟩ := List.forall_mem_cons.mp h
    exact ha.bind fun _ => ih has

end Simulates

/-- The same of steps that may fail: both fail, and with the same error. -/
def Accords (ctx : Context) (place : Frame → Prop) {α : Type} (x : Checking α) (y : Pass α) :
    Prop :=
  Simulates ctx place x.run y.run

namespace Accords

variable {ctx : Context} {place : Frame → Prop} {α β : Type} {x : Checking α} {y : Pass α}
  {f : α → Checking β} {g : α → Pass β}

theorem pure (a : α) : Accords ctx place (Pure.pure a) (Pure.pure a) :=
  fun n _ h => ⟨n, rfl, h⟩

theorem throw (e : Error) :
    Accords ctx place (MonadExcept.throw e : Checking α) (MonadExcept.throw e) :=
  fun n _ h => ⟨n, rfl, h⟩

theorem throw_bind (e : Error) :
    Accords ctx place (MonadExcept.throw e >>= f) (MonadExcept.throw e >>= g) :=
  fun n _ h => ⟨n, rfl, h⟩

theorem bind (h : Accords ctx place x y) (hf : ∀ a, Accords ctx place (f a) (g a)) :
    Accords ctx place (x >>= f) (y >>= g) := by
  change Simulates ctx place (x.run >>= ExceptT.bindCont f) (y.run >>= ExceptT.bindCont g)
  refine .bind h fun r => ?_
  cases r with
  | ok a => exact hf a
  | error e => exact throw e

theorem lift {x : StateM Checker α} {y : Narrowing α} (h : Simulates ctx place x y) :
    Accords ctx place (liftM x) (liftM y) := by
  intro n c hn
  obtain ⟨n', hrun, hn'⟩ := h n c hn
  refine ⟨n', ?_, hn'⟩
  change (Except.ok <$> y).run n = _
  rw [StateT.run_map, hrun]
  rfl

theorem read {f : Checker → Checking α} {g : Narrower → Pass α}
    (h : ∀ n : Narrower, n.context.agenda = ctx.agenda → Accords ctx place (f n.checker) (g n)) :
    Accords ctx place (get >>= f) (get >>= g) := by
  rintro n _ ⟨rfl, hagenda, hframe⟩
  exact h n hagenda n _ ⟨rfl, hagenda, hframe⟩

theorem forM {γ : Type} {f : γ → Checking Unit} {g : γ → Pass Unit} (as : List γ)
    (h : ∀ a ∈ as, Accords ctx place (f a) (g a)) :
    Accords ctx place (as.forM f) (as.forM g) := by
  induction as with
  | nil => exact pure ()
  | cons a as ih =>
    obtain ⟨ha, has⟩ := List.forall_mem_cons.mp h
    exact ha.bind fun _ => ih has

end Accords

variable {p : Program} {depth : Nat} {ctx : Context}

/-- Narrowing at a place, from there back to there. -/
lemma evaluate_simulates {frame : Frame} (hdepth : (frame.loops ++ ctx.loops).toFinset.card < depth)
    (b : Bound) : Simulates ctx (· = frame) (Checker.evaluate p frame b) (evaluate p depth b) := by
  rintro n _ ⟨rfl, hagenda, rfl⟩
  have hloops : n.context.loops = ctx.loops := congrArg Prod.fst hagenda
  have hremaining : (remaining n.context n.frame).card < depth := by
    refine Nat.lt_of_le_of_lt (Finset.card_le_card Finset.sdiff_subset) ?_
    rwa [hloops]
  obtain ⟨new, hrun, -⟩ := evaluate_run p n b
  exact ⟨_, hrun depth hremaining, rfl, hagenda, rfl⟩

/-- A check may begin anywhere. -/
lemma check_simulates {loops : List LoopId} (hdepth : (loops ++ ctx.loops).toFinset.card < depth)
    (b : Bound) : Simulates ctx (fun _ => True) (Checker.check p loops b) (check p depth loops b) := by
  rintro n _ ⟨rfl, hagenda, -⟩
  have heval : Simulates ctx (· = { loops }) (Checker.evaluate p { loops } b) (evaluate p depth b) :=
    evaluate_simulates hdepth b
  obtain ⟨n', hrun, hn'⟩ := heval (beginCheck loops n) { n.checker with safe := true }
    ⟨rfl, hagenda, rfl⟩
  exact ⟨n', hrun, hn'.checker, hn'.agenda, trivial⟩

section

variable (hdepth : ctx.loops.toFinset.card < depth)
include hdepth

lemma literalRange_simulates (start stop step : Bound) :
    Simulates ctx (· = {}) (Checker.literalRange p start stop step)
      (literalRange p depth start stop step) := by
  have heval (b : Bound) : Simulates ctx (· = {}) (Checker.evaluate p {} b) (evaluate p depth b) :=
    evaluate_simulates hdepth b
  unfold Checker.literalRange literalRange
  refine .bind (heval start) fun b => ?_
  cases b.literal? with
  | none => exact .pure none
  | some start =>
    refine .bind (heval stop) fun b => ?_
    cases b.literal? with
    | none => exact .pure none
    | some stop =>
      refine .bind (heval step) fun b => ?_
      cases b.literal? with
      | none => exact .pure none
      | some step => exact .pure _

lemma resolveLoop_simulates (loop : LoopId) :
    Simulates ctx (· = {}) (Checker.resolveLoop p loop) (resolveLoop p depth loop) := by
  unfold Checker.resolveLoop resolveLoop
  cases (p.loop? loop).bind LoopInfo.simpleSpan? with
  | some span => exact .pure _
  | none =>
    refine .read fun n => ?_
    rw [checker_context]
    cases n.context.loopBounds.get? loop with
    | none => exact .pure none
    | some b =>
      cases b with
      | range start stop step =>
        refine .bind (.update fun _ => rfl) fun _ => ?_
        refine .bind (literalRange_simulates hdepth start stop step) fun span => ?_
        cases span with
        | none => exact .pure none
        | some span => exact .bind (.update fun _ => rfl) fun _ => .pure _
      | _ => exact .pure none

lemma resolveLoops_simulates :
    Simulates ctx (· = {}) (Checker.resolveLoops p) (resolveLoops p depth) :=
  .read fun _ => .forM _ fun loop _ => .bind (resolveLoop_simulates hdepth loop) fun _ => .pure ()

end

section

variable {loops : List LoopId} (hdepth : (loops ++ ctx.loops).toFinset.card < depth)
include hdepth

lemma indexNeedsCheck_simulates (bound : Option Bound) (size : Int64) :
    Simulates ctx (fun _ => True) (Checker.indexNeedsCheck p loops bound size)
      (indexNeedsCheck p depth loops bound size) := by
  unfold Checker.indexNeedsCheck indexNeedsCheck
  refine .read fun n => ?_
  rw [checker_context]
  cases n.context.config.boundCheck with
  | false => exact .pure true
  | true =>
    cases bound with
    | none => exact .pure true
    | some b =>
      refine .bind (check_simulates hdepth b) fun resolved => ?_
      refine .bind (.update fun c => by rw [Checker.noteIndex_eq]; rfl) fun _ => ?_
      exact .read fun n => .pure _

lemma accessVerdict_simulates (sizes : List Int64) (bounds : List (Option Bound)) :
    Simulates ctx (fun _ => True) (Checker.accessVerdict p loops sizes bounds)
      (accessVerdict p depth loops sizes bounds) := by
  induction sizes generalizing bounds with
  | nil =>
    rw [Checker.accessVerdict, accessVerdict]
    · exact .pure []
    all_goals simp
  | cons size sizes ih =>
    cases bounds with
    | nil =>
      rw [Checker.accessVerdict, accessVerdict]
      · exact .pure []
      all_goals simp
    | cons bound bounds =>
      rw [Checker.accessVerdict, accessVerdict]
      exact .bind (indexNeedsCheck_simulates hdepth bound size) fun _ => .bind (ih bounds) fun _ =>
        .pure _

end

lemma operationNeedsCheck_simulates {target : Occurrence}
    (hdepth : (target.loops ++ ctx.loops).toFinset.card < depth) :
    Simulates ctx (fun _ => True) (Checker.operationNeedsCheck p target)
      (operationNeedsCheck p depth target) := by
  unfold Checker.operationNeedsCheck operationNeedsCheck
  refine .read fun n => ?_
  dsimp only
  rw [checker_context]
  cases (p.typeOf target.term).limits with
  | none => exact .pure false
  | some limits =>
    cases n.context.config.boundCheck with
    | false => exact .pure true
    | true =>
      cases n.context.overflowBounds.get? target.term.id with
      | none => exact .pure true
      | some b =>
        exact .bind (check_simulates hdepth b) fun _ => .read fun n => .pure _

section

variable {target : Occurrence} (hdepth : (target.loops ++ ctx.loops).toFinset.card < depth)
include hdepth

lemma checkAccess_accords (strict : Bool) :
    Accords ctx (fun _ => True) (Checker.checkAccess p strict target)
      (checkAccess p depth strict target) := by
  unfold Checker.checkAccess checkAccess
  cases target.term.node with
  | access array indices =>
    dsimp only
    cases p.array? array with
    | none => exact .throw _
    | some binding =>
      dsimp only
      by_cases hrank : indices.length = binding.shape.dimensions.length
      · rw [if_neg (not_not_intro hrank), if_neg (not_not_intro hrank)]
        refine .read fun n _ => ?_
        refine .bind (.lift (accessVerdict_simulates hdepth _ _)) fun verdict => ?_
        cases strict with
        | false => exact .lift (.update fun _ => rfl)
        | true =>
          refine .read fun n _ => ?_
          rw [checker_context]
          cases n.context.accessVerdicts.get? target.term.id with
          | none => exact .pure ()
          | some stored =>
            dsimp only
            split
            · exact .throw _
            · exact .pure ()
      · rw [if_pos hrank, if_pos hrank]
        exact .throw_bind _
  | _ => exact .pure ()

lemma checkOperation_accords (strict : Bool) :
    Accords ctx (fun _ => True) (Checker.checkOperation p strict target)
      (checkOperation p depth strict target) := by
  unfold Checker.checkOperation checkOperation
  refine .bind (.lift (operationNeedsCheck_simulates hdepth)) fun needed => ?_
  cases strict with
  | false => exact .lift (.update fun _ => rfl)
  | true =>
    refine .read fun n _ => ?_
    rw [checker_context]
    split
    · exact .throw _
    · exact .pure ()

end

/-- What follows the resolution of the loops. -/
lemma checkTargets_accords (strict : Bool)
    (hdepth : ∀ t ∈ ctx.accesses ++ ctx.overflowChecks, (t.loops ++ ctx.loops).toFinset.card < depth) :
    Accords ctx (fun _ => True)
      (do (← get).context.accesses.forM (Checker.checkAccess p strict)
          (← get).context.overflowChecks.forM (Checker.checkOperation p strict))
      (do (← get).context.accesses.forM (checkAccess p depth strict)
          (← get).context.overflowChecks.forM (checkOperation p depth strict)) := by
  refine .read fun n hn => .bind (.forM _ fun t ht => ?_) fun _ =>
    .read fun n' hn' => .forM _ fun t ht => ?_
  · have haccesses : n.context.accesses = ctx.accesses := congrArg (·.2.1) hn
    exact checkAccess_accords (hdepth t (List.mem_append_left _ (haccesses ▸ ht))) strict
  · have hoperations : n'.context.overflowChecks = ctx.overflowChecks := congrArg (·.2.2) hn'
    exact checkOperation_accords (hdepth t (List.mem_append_right _ (hoperations ▸ ht))) strict

/-- A pass on one new narrower has a result, and it comes to what the pass of the analysis comes to: the
outcome and the context. -/
theorem checkAll_run (p : Program) (strict : Bool) (ctx : Context)
    (hloops : ctx.loops.toFinset.card < depth)
    (htargets : ∀ t ∈ ctx.accesses ++ ctx.overflowChecks,
      (t.loops ++ ctx.loops).toFinset.card < depth) :
    ∃ n, (checkAll p depth strict).run.run { context := ctx } =
        some (((Context.checkAll p strict).run.run ctx).1, n) ∧
      n.context = ((Context.checkAll p strict).run.run ctx).2 := by
  -- the loops are resolved at the place of a new narrower, the targets wherever the last check ended
  obtain ⟨n, hresolve, hn⟩ := resolveLoops_simulates (p := p) hloops { context := ctx }
    { context := ctx } ⟨rfl, rfl, rfl⟩
  obtain ⟨n', htarget, hn'⟩ := checkTargets_accords (p := p) strict htargets n _
    ⟨hn.checker, hn.agenda, trivial⟩
  refine ⟨n', ?_, congrArg Checker.context hn'.checker⟩
  unfold checkAll
  rw [ExceptT.run_bind]
  change ((Except.ok <$> resolveLoops p depth) >>= _).run _ = _
  rw [bind_map_left, StateT.run_bind, hresolve]
  exact htarget

end Narrower

end LoopSafety
