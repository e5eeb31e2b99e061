import LoopSafety.Proofs.Passes

/-! Building bounds reads the targets of a context and writes its bounds, and touches nothing else.
In particular bounds do not depend on constants. -/
namespace LoopSafety

namespace Context

/-- The symbolic bounds of a context's loops and targets. -/
structure Bounds where
  loop : Table LoopId Bound
  access : Table NodeId (List Bound)
  overflow : Table NodeId Bound

def bounds (ctx : Context) : Bounds := ⟨ctx.loopBounds, ctx.accessBounds, ctx.overflowBounds⟩

def withBounds (ctx : Context) (b : Bounds) : Context :=
  { ctx with loopBounds := b.loop, accessBounds := b.access, overflowBounds := b.overflow }

/-- Steps that read and change nothing but bounds. -/
def ActsOnBounds {α : Type} (m : Analysis α) : Prop :=
  ∃ act : Bounds → Except Error α × Bounds,
    ∀ ctx : Context, m.run.run ctx = ((act ctx.bounds).1, ctx.withBounds (act ctx.bounds).2)

namespace ActsOnBounds

variable {α β : Type} {m : Analysis α} {f : α → Analysis β}

theorem pure (a : α) : ActsOnBounds (Pure.pure a : Analysis α) := ⟨fun b => (.ok a, b), fun _ => rfl⟩

theorem throw (e : Error) : ActsOnBounds (MonadExcept.throw e : Analysis α) :=
  ⟨fun b => (.error e, b), fun _ => rfl⟩

theorem bind (h : ActsOnBounds m) (hf : ∀ a, ActsOnBounds (f a)) : ActsOnBounds (m >>= f) := by
  obtain ⟨act, hact⟩ := h
  choose next hnext using hf
  refine ⟨fun b =>
    match act b with
    | (.ok a, b') => next a b'
    | (.error e, b') => (.error e, b'), fun ctx => ?_⟩
  rw [run_bind_step, hact]
  dsimp only
  rcases act ctx.bounds with ⟨e | a, b⟩
  · rfl
  · dsimp only
    rw [hnext]
    rfl

theorem building (step : Building α) (memo : Memo) : ActsOnBounds (Context.building step memo) := by
  unfold Context.building
  split
  · exact pure _
  · exact throw _

end ActsOnBounds

variable {p : Program}

lemma buildLoops_actsOnBounds (loops : List LoopId) (memo : Memo) :
    ActsOnBounds (buildLoops p loops memo) := by
  induction loops generalizing memo with
  | nil => exact .pure _
  | cons loop loops ih =>
    unfold buildLoops
    refine .bind (.building _ _) fun (range, memo) => .bind ?_ fun _ => ih memo
    exact ⟨fun b => (.ok (), { b with loop := b.loop.insert loop range }), fun _ => rfl⟩

lemma buildAccesses_actsOnBounds (targets : List Occurrence) (memo : Memo) :
    ActsOnBounds (buildAccesses p targets memo) := by
  induction targets generalizing memo with
  | nil => exact .pure _
  | cons t targets ih =>
    unfold buildAccesses
    split
    · refine .bind (.building _ _) fun (bounds, memo) => .bind ?_ fun _ => ih memo
      exact ⟨fun b => (.ok (), { b with access := b.access.insert t.term.id bounds }), fun _ => rfl⟩
    · exact .throw _

lemma buildOverflows_actsOnBounds (targets : List Occurrence) (memo : Memo) :
    ActsOnBounds (buildOverflows p targets memo) := by
  induction targets generalizing memo with
  | nil => exact .pure _
  | cons t targets ih =>
    unfold buildOverflows
    refine .bind (.building _ _) fun (bound, memo) => .bind ?_ fun _ => ih memo
    exact ⟨fun b => (.ok (), { b with overflow := b.overflow.insert t.term.id bound }), fun _ => rfl⟩

/-- All bounds are built from the targets alone. -/
theorem buildAll_actsOnBounds (ctx : Context) :
    ∃ act : Bounds → Except Error Unit × Bounds, ∀ ctx' : Context, ctx'.loops = ctx.loops →
      ctx'.accesses = ctx.accesses → ctx'.overflowChecks = ctx.overflowChecks →
      (buildAll p).run.run ctx' = ((act ctx'.bounds).1, ctx'.withBounds (act ctx'.bounds).2) := by
  have hsteps : ActsOnBounds (do
      let memo ← buildLoops p ctx.loops ∅
      let memo ← buildAccesses p ctx.accesses memo
      let _ ← buildOverflows p ctx.overflowChecks memo) :=
    .bind (buildLoops_actsOnBounds _ _) fun _ => .bind (buildAccesses_actsOnBounds _ _) fun _ =>
      .bind (buildOverflows_actsOnBounds _ _) fun _ => .pure _
  obtain ⟨act, hact⟩ := hsteps
  refine ⟨act, fun ctx' hloops haccesses hoverflows => ?_⟩
  rw [← hact, buildAll, run_bind_step, run_get_step]
  dsimp only
  rw [hloops, haccesses, hoverflows]

lemma buildAll_frame {ctx built : Context} {r : Except Error Unit}
    (h : (buildAll p).run.run ctx = (r, built)) : built = ctx.withBounds built.bounds := by
  obtain ⟨act, hact⟩ := buildAll_actsOnBounds (p := p) ctx
  rw [hact ctx rfl rfl rfl, Prod.mk.injEq] at h
  obtain ⟨-, rfl⟩ := h
  rfl

/-- The bounds of a context are those that building anew would give it. -/
def Built (p : Program) (ctx : Context) : Prop :=
  ∃ built, (buildAll p).run.run ctx.reset = (.ok (), built) ∧ ctx.basis = built.basis

lemma reset_congr {ctx ctx' : Context} (h : ctx.basis = ctx'.basis) : ctx.reset = ctx'.reset := by
  obtain ⟨hconfig, hconstants, hloops, haccesses, hoverflows, -⟩ := basis_eq_iff.mp h
  simp only [reset, hconfig, hconstants, hloops, haccesses, hoverflows]

lemma targets_of_reset_eq {ctx ctx' : Context} (h : ctx.reset = ctx'.reset) :
    ctx.accesses = ctx'.accesses ∧ ctx.overflowChecks = ctx'.overflowChecks := by
  simp only [reset, mk.injEq] at h
  exact ⟨h.2.2.2.1, h.2.2.2.2.1⟩

lemma Built.congr {ctx ctx' : Context} (h : ctx.Built p) (hbasis : ctx'.basis = ctx.basis) :
    ctx'.Built p := by
  obtain ⟨built, hrun, heq⟩ := h
  exact ⟨built, by rw [reset_congr hbasis, hrun], hbasis.trans heq⟩

/-- Constants may change without a need to build again. -/
lemma Built.withConstants {ctx : Context} (h : ctx.Built p) (constants : Constants) :
    ({ ctx with constants } : Context).Built p := by
  obtain ⟨built, hrun, heq⟩ := h
  obtain ⟨act, hact⟩ := buildAll_actsOnBounds (p := p) ctx
  rw [hact ctx.reset rfl rfl rfl, Prod.mk.injEq] at hrun
  obtain ⟨hok, rfl⟩ := hrun
  have hnew := hact { ctx.reset with constants } rfl rfl rfl
  refine ⟨_, hnew.trans (congrArg (·, _) hok), ?_⟩
  obtain ⟨-, -, -, -, -, hloop, haccess, hoverflow⟩ := basis_eq_iff.mp heq
  exact basis_eq_iff.mpr ⟨rfl, rfl, rfl, rfl, rfl, hloop, haccess, hoverflow⟩

end Context

end LoopSafety
