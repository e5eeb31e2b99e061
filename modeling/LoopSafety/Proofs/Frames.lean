import LoopSafety.Proofs.Building
import LoopSafety.Session.Basic

/-! What building and checking leave alone, and how they can fail.

Both keep what they did before they failed, so what they leave alone they have to leave alone on
every way out. Bounds are invalidated by a comparison of verdicts and by nothing else: all other
failures end a session. -/
namespace LoopSafety

/-- A view of the state is as it was before. -/
def Unchanged {σ β : Type} (view : σ → β) (s s' : σ) : Prop := view s' = view s

instance {σ β : Type} {view : σ → β} : IsPreorder σ (Unchanged view) where
  refl _ := rfl
  trans _ _ _ h h' := Eq.trans h' h

/-- Steps that leave a view of the state as it was, whether they succeed or fail, and that fail only
with errors of one kind. -/
def Leaves {σ β α : Type} (view : σ → β) (kind : Error → Prop)
    (m : ExceptT Error (StateM σ) α) : Prop :=
  ∀ s, view (m.run.run s).2 = view s ∧ ∀ e, (m.run.run s).1 = .error e → kind e

namespace Leaves

variable {σ β α γ : Type} {view : σ → β} {kind : Error → Prop} {m : ExceptT Error (StateM σ) α}
  {f : α → ExceptT Error (StateM σ) γ}

theorem weaken {kind' : Error → Prop} (h : Leaves view kind m) (himp : ∀ e, kind e → kind' e) :
    Leaves view kind' m := fun s => ⟨(h s).1, fun e he => himp e ((h s).2 e he)⟩

theorem lift {m : StateM σ α} (h : Stays (Unchanged view) m) :
    Leaves view kind (liftM m : ExceptT Error (StateM σ) α) := by
  intro s
  rw [run_lift_step]
  exact ⟨h s, by simp⟩

theorem pure (a : α) : Leaves view kind (Pure.pure a : ExceptT Error (StateM σ) α) :=
  lift (.pure a)

theorem get : Leaves view kind (MonadState.get : ExceptT Error (StateM σ) σ) := lift .get

theorem update {g : σ → σ} (h : ∀ s, view (g s) = view s) :
    Leaves view kind (modify g : ExceptT Error (StateM σ) PUnit) :=
  lift (m := modify g) h

theorem throw {e : Error} (h : kind e) :
    Leaves view kind (MonadExcept.throw e : ExceptT Error (StateM σ) α) := by
  refine fun s => ⟨rfl, ?_⟩
  rintro _ ⟨⟩
  exact h

theorem bind (h : Leaves view kind m) (hf : ∀ a, Leaves view kind (f a)) :
    Leaves view kind (m >>= f) := by
  intro s
  have hfirst := h s
  rw [run_bind_step]
  rcases hrun : m.run.run s with ⟨e | a, s'⟩ <;> rw [hrun] at hfirst
  · refine ⟨hfirst.1, ?_⟩
    rintro _ ⟨⟩
    exact hfirst.2 e rfl
  · obtain ⟨hview, hkind⟩ := hf a s'
    exact ⟨hview.trans hfirst.1, hkind⟩

theorem forM {xs : List α} {f : α → ExceptT Error (StateM σ) PUnit}
    (h : ∀ x, Leaves view kind (f x)) : Leaves view kind (xs.forM f) := by
  induction xs with
  | nil => exact pure _
  | cons x xs ih => exact bind (h x) fun _ => ih

theorem mapM {xs : List α} (h : ∀ x, Leaves view kind (f x)) : Leaves view kind (xs.mapM f) := by
  induction xs with
  | nil =>
    rw [List.mapM_nil]
    exact pure _
  | cons x xs ih =>
    rw [List.mapM_cons]
    exact bind (h x) fun _ => bind ih fun _ => pure _

end Leaves

/-- Building steps fail only in ways that end a session. -/
abbrev Ends {α : Type} (m : Building α) : Prop := Leaves (fun _ => ()) (·.isFatal = true) m

namespace Build

variable {p : Program} {call : FunctionId → Term → Building Bound}

lemma uncovered_ends {α : Type} (t : Term) (obstacle : Obstacle) :
    Ends (uncovered p t obstacle : Building α) := .throw rfl

lemma arith_ends (t : Term) (op : BinaryOp) (left right : Bound) (ty : DataType) :
    Ends (arith p t op left right ty) := by
  unfold arith
  split
  · exact .pure _
  · exact .pure _
  · split
    · exact .pure _
    · exact uncovered_ends _ _
  · exact .pure _

lemma arrayBound_ends (array : ArrayId) : Ends (arrayBound p array) := by
  unfold arrayBound
  split
  · exact .pure _
  · exact .throw rfl

mutual

theorem term_ends (hcall : ∀ id site, Ends (call id site)) : ∀ t, Ends (term p call t)
  | .mk _ (.literal _) => by
    rw [term]
    exact .pure _
  | .mk _ (.var _ _ (some definition)) => by
    rw [term]
    exact term_ends hcall definition
  | .mk _ (.var _ _ none) => by
    rw [term]
    exact .pure _
  | .mk _ (.binary _ left right _) => by
    rw [term]
    exact .bind (term_ends hcall left) fun _ => .bind (term_ends hcall right) fun _ =>
      arith_ends _ _ _ _ _
  | .mk _ (.unary .cast operand _) => by
    rw [term]
    exact term_ends hcall operand
  | .mk _ (.unary .neg operand _) => by
    rw [term]
    exact .bind (term_ends hcall operand) fun _ => arith_ends _ _ _ _ _
  | .mk _ (.unary .not _ _) => by
    rw [term]
    exact uncovered_ends _ _
  | .mk _ (.access array _) => by
    rw [term]
    exact arrayBound_ends array
  | .mk _ (.builtin _ [left, right] _) => by
    rw [term]
    exact .bind (term_ends hcall left) fun _ => .bind (term_ends hcall right) fun _ => .pure _
  | .mk _ (.builtin _ [] _) | .mk _ (.builtin _ [_] _) | .mk _ (.builtin _ (_ :: _ :: _ :: _) _) => by
    rw [term]
    · exact uncovered_ends _ _
    · simp
  | .mk _ (.math _ args _) => by
    rw [term]
    split
    · exact uncovered_ends _ _
    · exact .bind (terms_ends hcall args) fun _ => .pure _
  | .mk _ (.cond _ thenPart (some elsePart) _) => by
    rw [term]
    exact .bind (term_ends hcall thenPart) fun _ => .bind (term_ends hcall elsePart) fun _ => .pure _
  | .mk _ (.cond _ _ none _) => by
    rw [term]
    exact uncovered_ends _ _
  | .mk _ (.call function _) => by
    rw [term]
    exact hcall function _
  | .mk _ (.forLoop ..) | .mk _ (.whileLoop ..) | .mk _ (.block _) | .mk _ (.assign ..)
  | .mk _ (.ret _) | .mk _ .brk => by
    rw [term]
    exact uncovered_ends _ _

theorem terms_ends (hcall : ∀ id site, Ends (call id site)) : ∀ ts, Ends (terms p call ts)
  | [] => by
    rw [terms]
    exact .pure _
  | t :: ts => by
    rw [terms]
    exact .bind (term_ends hcall t) fun _ => .bind (terms_ends hcall ts) fun _ => .pure _

end

section

variable (hcall : ∀ id site, Ends (call id site))
include hcall

lemma joinArgs_ends (params : List Param) (previous : List (Option Bound)) (args : List Term) :
    Ends (joinArgs p call params previous args) := by
  fun_induction joinArgs p call params previous args with
  | case1 param params previous rest arg args ih =>
    exact .bind (term_ends hcall arg) fun _ => .bind ih fun _ => .pure _
  | case2 => exact .pure _

lemma joinSites_ends (f : FunctionDef) (sites : List Term) (joined : List (Option Bound)) :
    Ends (joinSites p call f sites joined) := by
  induction sites generalizing joined with
  | nil => exact .pure _
  | cons site sites ih =>
    unfold joinSites
    dsimp only
    split
    · exact uncovered_ends _ _
    · exact .bind (joinArgs_ends hcall _ _ _) fun _ => ih _

lemma function_ends (id : FunctionId) (f : FunctionDef) : Ends (function p call id f) := by
  unfold function
  refine .bind (joinSites_ends hcall _ _ _) fun _ => ?_
  dsimp only
  split
  · exact .throw rfl
  · exact .bind (term_ends hcall _) fun _ => .pure _

end

theorem callBound_ends (depth : Nat) (active : List FunctionId) (id : FunctionId) (site : Term) :
    Ends (callBound p depth active id site) := by
  induction depth generalizing active id site with
  | zero => exact uncovered_ends _ _
  | succ depth ih =>
    unfold callBound
    refine .bind .get fun _ => ?_
    split
    · exact .pure _
    · split
      · exact uncovered_ends _ _
      · split
        · exact .throw rfl
        · exact .bind (function_ends (ih _) _ _) fun _ => .bind (.update fun _ => rfl) fun _ => .pure _

end Build

namespace Program

variable {p : Program}

theorem build_ends (t : Term) : Ends (p.build t) := Build.term_ends (Build.callBound_ends _ _) t

lemma buildPart_ends (default : Int64) (ty : DataType) (part : Option NodeId) :
    Ends (p.buildPart default ty part) := by
  unfold buildPart
  split
  · exact .pure _
  · split
    · exact build_ends _
    · exact .throw rfl

theorem buildRange_ends (loop : LoopId) : Ends (p.buildRange loop) := by
  unfold buildRange
  split
  · exact .throw rfl
  · split
    · exact .pure _
    · exact .bind (buildPart_ends _ _ _) fun _ => .bind (buildPart_ends _ _ _) fun _ =>
        .bind (buildPart_ends _ _ _) fun _ => .pure _

end Program

namespace Context

variable {p : Program} {β : Type} {view : Context → β}

lemma building_leaves {α : Type} {step : Building α} (h : Ends step) (memo : Memo) :
    Leaves view (·.isFatal = true) (building step memo) := by
  unfold building
  split
  · exact .pure _
  · next e memo' hrun => exact .throw ((h memo).2 e (congrArg Prod.fst hrun))

lemma buildLoops_leaves (hview : ∀ ctx loopBounds, view { ctx with loopBounds } = view ctx)
    (loops : List LoopId) (memo : Memo) :
    Leaves view (·.isFatal = true) (buildLoops p loops memo) := by
  induction loops generalizing memo with
  | nil => exact .pure _
  | cons loop loops ih =>
    unfold buildLoops
    exact .bind (building_leaves (Program.buildRange_ends loop) memo) fun _ =>
      .bind (.update fun _ => hview _ _) fun _ => ih _

lemma buildAccesses_leaves (hview : ∀ ctx accessBounds, view { ctx with accessBounds } = view ctx)
    (targets : List Occurrence) (memo : Memo) :
    Leaves view (·.isFatal = true) (buildAccesses p targets memo) := by
  induction targets generalizing memo with
  | nil => exact .pure _
  | cons t targets ih =>
    unfold buildAccesses
    split
    · exact .bind (building_leaves (.mapM Program.build_ends) memo) fun _ =>
        .bind (.update fun _ => hview _ _) fun _ => ih _
    · exact .throw rfl

lemma buildOverflows_leaves
    (hview : ∀ ctx overflowBounds, view { ctx with overflowBounds } = view ctx)
    (targets : List Occurrence) (memo : Memo) :
    Leaves view (·.isFatal = true) (buildOverflows p targets memo) := by
  induction targets generalizing memo with
  | nil => exact .pure _
  | cons t targets ih =>
    unfold buildOverflows
    exact .bind (building_leaves (Program.build_ends t.term) memo) fun _ =>
      .bind (.update fun _ => hview _ _) fun _ => ih _

/-- Building leaves everything but bounds alone. -/
theorem buildAll_leaves : Leaves reset (·.isFatal = true) (buildAll p) :=
  .bind .get fun _ => .bind (buildLoops_leaves (fun _ _ => rfl) _ _) fun _ =>
    .bind (buildAccesses_leaves (fun _ _ => rfl) _ _) fun _ =>
      .bind (buildOverflows_leaves (fun _ _ => rfl) _ _) fun _ => .pure _

end Context

namespace Checker

variable {p : Program} {β : Type} {view : Checker → β}

/-- A view that shows nothing of what the check of a target notes down on its way. -/
structure Overlooks (view : Checker → β) : Prop where
  flag : ∀ c safe, view { c with safe } = view c
  scans : ∀ c scans, view { c with context := { c.context with scans } } = view c
  minimum : ∀ c minimum, view { c with context := { c.context with minimum } } = view c

/-- A view that shows nothing of what loops resolve to either. -/
structure Blind (view : Checker → β) : Prop extends Overlooks view where
  ranges : ∀ c ranges, view { c with context := { c.context with ranges } } = view c

lemma Blind.allows (blind : Blind view) : Allows p (Unchanged view) where
  flag := blind.flag
  ranges := blind.ranges
  evaluate _ _ c := (blind.flag _ _).trans (blind.scans c _)

section

variable (overlooks : Overlooks view)
include overlooks

lemma check_unchanged (loops : List LoopId) (b : Bound) :
    Stays (Unchanged view) (check p loops b) :=
  fun c => (overlooks.flag _ _).trans ((overlooks.scans _ _).trans (overlooks.flag c true))

lemma noteIndex_view (b : Bound) (c : Checker) : view (noteIndex b c) = view c := by
  unfold noteIndex
  split
  · split
    · exact overlooks.minimum c _
    · rfl
  · rfl

lemma indexNeedsCheck_unchanged (loops : List LoopId) (bound : Option Bound) (size : Int64) :
    Stays (Unchanged view) (indexNeedsCheck p loops bound size) := by
  unfold indexNeedsCheck
  refine .bind .get fun _ => ?_
  split
  · exact .bind (check_unchanged overlooks _ _) fun _ => .bind (noteIndex_view overlooks _) fun _ =>
      .bind .get fun _ => .pure _
  · exact .pure _

lemma accessVerdict_unchanged (loops : List LoopId) (sizes : List Int64)
    (bounds : List (Option Bound)) : Stays (Unchanged view) (accessVerdict p loops sizes bounds) := by
  fun_induction accessVerdict p loops sizes bounds with
  | case1 size sizes bound bounds ih =>
    exact .bind (indexNeedsCheck_unchanged overlooks _ _ _) fun _ => .bind ih fun _ => .pure _
  | case2 => exact .pure _

lemma operationNeedsCheck_unchanged (target : Occurrence) :
    Stays (Unchanged view) (operationNeedsCheck p target) := by
  unfold operationNeedsCheck
  refine .bind .get fun _ => ?_
  dsimp only
  split
  · exact .pure _
  · exact .bind (check_unchanged overlooks _ _) fun _ => .bind .get fun _ => .pure _
  · exact .pure _

variable {strict : Bool}

/-- Only a comparison invalidates bounds, and only a pass that does not compare stores verdicts. -/
lemma checkAccess_leaves
    (hstore : strict = false → ∀ node v c, view (storeAccess node v c) = view c)
    (target : Occurrence) :
    Leaves view (fun e => strict = false → e.isFatal = true) (checkAccess p strict target) := by
  unfold checkAccess
  split
  · split
    · exact .throw fun _ => rfl
    · dsimp only
      split
      · exact .throw fun _ => rfl
      · refine .bind .get fun _ => .bind (.lift (accessVerdict_unchanged overlooks _ _ _)) fun _ => ?_
        split
        · next hstrict =>
          refine .bind .get fun _ => ?_
          split
          · split
            · exact .throw fun h => by simp [h] at hstrict
            · exact .pure _
          · exact .pure _
        · next hstrict => exact .update (hstore (by simpa using hstrict) _ _)
  · exact .pure _

/-- On integer operations nothing but a comparison fails. -/
lemma checkOperation_leaves
    (hstore : strict = false → ∀ node v c, view (storeOperation node v c) = view c)
    (target : Occurrence) : Leaves view (fun _ => strict = true) (checkOperation p strict target) := by
  unfold checkOperation
  refine .bind (.lift (operationNeedsCheck_unchanged overlooks _)) fun _ => ?_
  split
  · next hstrict =>
    refine .bind .get fun _ => ?_
    split
    · exact .throw hstrict
    · exact .pure _
  · next hstrict => exact .update (hstore (by simpa using hstrict) _ _)

end

/-- Checks leave settings, targets and bounds alone. -/
theorem checkAll_leaves (strict : Bool) :
    Leaves (·.context.basis) (fun e => strict = false → e.isFatal = true) (checkAll p strict) := by
  have blind : Blind fun c => c.context.basis :=
    ⟨⟨fun _ _ => rfl, fun _ _ => rfl, fun _ _ => rfl⟩, fun _ _ => rfl⟩
  refine .bind (.lift (resolveLoops_stays blind.allows)) fun _ => .bind .get fun _ => .bind ?_ fun _ =>
    .bind .get fun _ => ?_
  · exact .forM (checkAccess_leaves blind.toOverlooks fun _ _ _ _ => rfl)
  · exact .forM fun t => (checkOperation_leaves blind.toOverlooks (fun _ _ _ _ => rfl) t).weaken
      fun e hstrict hnot => by simp [hstrict] at hnot

/-- A pass that stores verdicts fails on accesses, before it comes to integer operations. -/
theorem checkAll_error {c c' : Checker} {e : Error}
    (h : (checkAll p false).run.run c = (.error e, c')) :
    c'.context.overflowVerdicts = c.context.overflowVerdicts := by
  have blind : Blind fun c => c.context.overflowVerdicts :=
    ⟨⟨fun _ _ => rfl, fun _ _ => rfl, fun _ _ => rfl⟩, fun _ _ => rfl⟩
  have hloops := resolveLoops_stays (p := p) blind.allows c
  rw [checkAll_run] at h
  generalize ((resolveLoops p).run c).2 = c₁ at h hloops
  dsimp only at h
  split at h
  · next c₂ hrun =>
    have hnever : Leaves (fun _ => ()) (fun _ => false = true)
        (c₂.context.overflowChecks.forM (checkOperation p false)) :=
      .forM (checkOperation_leaves ⟨fun _ _ => rfl, fun _ _ => rfl, fun _ _ => rfl⟩
        fun _ _ _ _ => rfl)
    cases (hnever c₂).2 e (congrArg Prod.fst h)
  · next e₂ c₂ hrun =>
    cases h
    have haccesses : Leaves (·.context.overflowVerdicts) (fun e => false = false → e.isFatal = true)
        (c₁.context.accesses.forM (checkAccess p false)) :=
      .forM (checkAccess_leaves blind.toOverlooks fun _ _ _ _ => rfl)
    have hview := (haccesses c₁).1
    rw [hrun] at hview
    exact hview.trans hloops

end Checker

/-- A failed rebuild ends the session, and settings, constants and targets survive every rebuild. -/
theorem Session.rebuild_leaves {p : Program} :
    Leaves Context.reset (·.isFatal = true) (rebuild p) := by
  refine .bind (.update fun _ => rfl) fun _ => .bind Context.buildAll_leaves fun _ => ?_
  intro ctx
  obtain ⟨hbasis, hfatal⟩ := Checker.checkAll_leaves (p := p) false { context := ctx }
  exact ⟨Context.reset_congr hbasis, fun e he => hfatal e he rfl⟩

end LoopSafety
