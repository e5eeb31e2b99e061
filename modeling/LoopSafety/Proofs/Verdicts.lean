import Mathlib.Order.Defs.Unbundled
import LoopSafety.Proofs.Settling
import LoopSafety.Session.Check

/-! What the checks of a context decide.

The verdict on a target depends on the bounds, the constants and the loops of a context, and on
nothing that earlier checks have left in it. So it is a function of the context, and a pass over all
targets either enters this function in the tables or compares it with them. What has been scanned
before enters only through the answers for arrays; where the cache is faithful, these are the contents
of the arrays, and verdicts are those of a context without a cache. -/
namespace LoopSafety

namespace Context

/-- A context without the results of earlier checks. -/
def basis (ctx : Context) : Context :=
  { ctx with ranges := ∅, accessVerdicts := ∅, overflowVerdicts := ∅, scans := {}, minimum := 0 }

end Context

namespace Evaluation

variable {p : Program} {ctx : Context}

section

variable (induction : Frame → LoopId → Probing Bound)

mutual

theorem narrow_basis : ∀ (frame : Frame) (b : Bound),
    narrow p ctx.basis induction frame b = narrow p ctx induction frame b
  | _, .literal _ _ => by rw [narrow, narrow]
  | frame, .limit lo hi ty => by rw [narrow, narrow, narrow_basis frame lo, narrow_basis frame hi]
  | frame, .either t e ty => by rw [narrow, narrow, narrow_basis frame t, narrow_basis frame e]
  | frame, .range start stop step => by
    rw [narrow, narrow, narrow_basis frame start, narrow_basis frame stop, narrow_basis frame step]
  | frame, .var name ty => by
    rw [narrow, narrow]
    rfl
  | frame, .binary op left right ty => by
    rw [narrow, narrow, narrow_basis frame left, narrow_basis frame right]
  | frame, .builtin kind left right ty => by
    rw [narrow, narrow, narrow_basis frame left, narrow_basis frame right]
  | frame, .math fn args ty => by rw [narrow, narrow, narrowArgs_basis frame args]
  | frame, .call name params ret ty => by
    rw [narrow, narrow, narrowParams_basis frame params]
    simp only [narrow_basis _ ret]
  | _, .array id _ ty => by
    rw [narrow, narrow]
    rfl
  | _, .fail => by rw [narrow, narrow]

theorem narrowArgs_basis : ∀ (frame : Frame) (bs : List Bound),
    narrowArgs p ctx.basis induction frame bs = narrowArgs p ctx induction frame bs
  | _, [] => by rw [narrowArgs, narrowArgs]
  | frame, b :: bs => by
    rw [narrowArgs, narrowArgs, narrow_basis frame b, narrowArgs_basis frame bs]

theorem narrowParams_basis : ∀ (frame : Frame) (bs : List (String × Bound))
    (scope : Table String Bound),
    narrowParams p ctx.basis induction frame bs scope = narrowParams p ctx induction frame bs scope
  | _, [], scope => by rw [narrowParams, narrowParams]
  | frame, (name, b) :: bs, scope => by
    rw [narrowParams, narrowParams, narrow_basis frame b]
    simp only [narrowParams_basis frame bs]

end

end

theorem inductionBound_basis (depth : Nat) :
    inductionBound p ctx.basis depth = inductionBound p ctx depth := by
  induction depth with
  | zero => rfl
  | succ depth ih =>
    funext frame loop
    rw [inductionBound, inductionBound]
    simp only [narrow_basis, ih]
    rfl

end Evaluation

/-- Narrowing reads nothing that checks write. -/
theorem Context.evaluate_basis (p : Program) (ctx : Context) (frame : Frame) (b : Bound) :
    ctx.basis.evaluate p frame b = ctx.evaluate p frame b := by
  unfold evaluate
  rw [Evaluation.narrow_basis, Evaluation.inductionBound_basis]
  rfl

lemma Context.evaluate_congr {p : Program} {ctx ctx' : Context} (h : ctx.basis = ctx'.basis)
    (frame : Frame) (b : Bound) : ctx.evaluate p frame b = ctx'.evaluate p frame b := by
  rw [← evaluate_basis, h, evaluate_basis]

/-- The sizes that the indices of an access have to stay within, if there is one index for each. A
target that is no access has none. -/
def Program.extents (p : Program) (target : Occurrence) : Except Error (Option (List Int64)) :=
  match target.term.node with
  | .access array indices =>
    match p.array? array with
    | none => .error (.missing (.array array))
    | some binding =>
      let sizes := binding.shape.dimensions
      if indices.length ≠ sizes.length then
        .error (.unsupported (p.describe target.term) (.indexCount indices.length sizes.length))
      else .ok (some sizes)
  | _ => .ok none

namespace Context

variable (p : Program) (ctx : Context)

/-- What a bound narrows to under the given loops, and whether that is safe to use. -/
def narrowed (loops : List LoopId) (b : Bound) : Bound × Bool :=
  let r := (ctx.evaluate p { loops } b).run {}
  (r.1, r.2.safe)

/-- Whether an index is proved to lie in a dimension of the given size. -/
def provesIndex (loops : List LoopId) (size : Int64) (bound : Option Bound) : Bool :=
  ctx.config.boundCheck && bound.any fun b =>
    (ctx.narrowed p loops b).2 && (ctx.narrowed p loops b).1.within size

/-- The index bounds of a node, one for each of so many dimensions. -/
def indexBounds (node : NodeId) (rank : Nat) : List (Option Bound) :=
  (List.range rank).map fun d => ((ctx.accessBounds.get? node).getD [])[d]?

/-- For every dimension of an access whether its check stays. A target that is no access has no
verdict. -/
def decideAccess (target : Occurrence) : Except Error (Option (List Bool)) :=
  match target.term.node with
  | .access array indices =>
    match p.array? array with
    | none => .error (.missing (.array array))
    | some binding =>
      let sizes := binding.shape.dimensions
      if indices.length ≠ sizes.length then
        .error (.unsupported (p.describe target.term) (.indexCount indices.length sizes.length))
      else
        .ok (some (List.zipWith (fun size bound => !ctx.provesIndex p target.loops size bound) sizes
          (ctx.indexBounds target.term.id sizes.length)))
  | _ => .ok none

/-- Whether the check of an integer operation stays. -/
def decideOperation (target : Occurrence) : Bool :=
  match (p.typeOf target.term).limits with
  | none => false
  | some (lo, hi) =>
    !(ctx.config.boundCheck && (ctx.overflowBounds.get? target.term.id).any fun b =>
      (ctx.narrowed p target.loops b).2 && (ctx.narrowed p target.loops b).1.avoids lo hi)

/-- What a bound narrows to under the given loops with the contents that are in the cache, and whether
that is safe to use. -/
def checked (loops : List LoopId) (b : Bound) : Bound × Bool :=
  let r := (ctx.evaluate p { loops } b).run ⟨true, ctx.scans⟩
  (r.1, r.2.safe)

/-- Whether the check of an index stays, with the contents that are in the cache. -/
def judgeIndex (loops : List LoopId) (size : Int64) (bound : Option Bound) : Bool :=
  !(ctx.config.boundCheck && bound.any fun b =>
    (ctx.checked p loops b).2 && (ctx.checked p loops b).1.within size)

/-- The least literal that a check of an index comes upon. -/
def lowIndex? (loops : List LoopId) (bound : Option Bound) : Option Int64 :=
  if ctx.config.boundCheck then bound.bind fun b => (ctx.checked p loops b).1.lowest? else none

/-- For every dimension of an access whether its check stays, with the contents that are in the
cache. -/
def judgeAccess (target : Occurrence) : Except Error (Option (List Bool)) :=
  (p.extents target).map <| Option.map fun sizes =>
    List.zipWith (ctx.judgeIndex p target.loops) sizes (ctx.indexBounds target.term.id sizes.length)

/-- The literals by which a check of an access may lower the least index. -/
def lowIndices (target : Occurrence) : List Int64 :=
  match p.extents target with
  | .ok (some sizes) =>
    (ctx.indexBounds target.term.id sizes.length).filterMap (ctx.lowIndex? p target.loops)
  | _ => []

/-- Whether the check of an integer operation stays, with the contents that are in the cache. -/
def judgeOperation (target : Occurrence) : Bool :=
  match (p.typeOf target.term).limits with
  | none => false
  | some (lo, hi) =>
    !(ctx.config.boundCheck && (ctx.overflowBounds.get? target.term.id).any fun b =>
      (ctx.checked p target.loops b).2 && (ctx.checked p target.loops b).1.avoids lo hi)

variable {p ctx} {ctx' : Context}

lemma indexBounds_length (node : NodeId) (rank : Nat) :
    (ctx.indexBounds node rank).length = rank := by
  simp [indexBounds]

lemma basis_checked (loops : List LoopId) (b : Bound) :
    ctx.basis.checked p loops b = ctx.narrowed p loops b := by
  unfold checked narrowed
  rw [evaluate_basis]
  rfl

lemma basis_judgeIndex (loops : List LoopId) (size : Int64) (bound : Option Bound) :
    ctx.basis.judgeIndex p loops size bound = !ctx.provesIndex p loops size bound := by
  unfold judgeIndex provesIndex
  simp only [basis_checked]
  rfl

lemma basis_judgeAccess (target : Occurrence) :
    ctx.basis.judgeAccess p target = ctx.decideAccess p target := by
  have hindex : ctx.basis.judgeIndex p target.loops =
      fun size bound => !ctx.provesIndex p target.loops size bound :=
    funext₂ (basis_judgeIndex target.loops)
  unfold judgeAccess decideAccess Program.extents
  rw [hindex]
  cases target.term.node with
  | access array indices =>
    dsimp only
    cases p.array? array with
    | none => rfl
    | some binding =>
      dsimp only
      split <;> rfl
  | _ => rfl

lemma basis_judgeOperation (target : Occurrence) :
    ctx.basis.judgeOperation p target = ctx.decideOperation p target := by
  unfold judgeOperation decideOperation
  simp only [basis_checked]
  rfl

lemma basis_eq_iff : ctx.basis = ctx'.basis ↔
    ctx.config = ctx'.config ∧ ctx.constants = ctx'.constants ∧ ctx.loops = ctx'.loops ∧
    ctx.accesses = ctx'.accesses ∧ ctx.overflowChecks = ctx'.overflowChecks ∧
    ctx.loopBounds = ctx'.loopBounds ∧ ctx.accessBounds = ctx'.accessBounds ∧
    ctx.overflowBounds = ctx'.overflowBounds := by
  simp [basis]

lemma narrowed_congr (h : ctx.basis = ctx'.basis) (loops : List LoopId) (b : Bound) :
    ctx.narrowed p loops b = ctx'.narrowed p loops b := by
  unfold narrowed
  rw [evaluate_congr h]

lemma provesIndex_congr (h : ctx.basis = ctx'.basis) (loops : List LoopId) (size : Int64)
    (bound : Option Bound) :
    ctx.provesIndex p loops size bound = ctx'.provesIndex p loops size bound := by
  obtain ⟨hconfig, -⟩ := basis_eq_iff.mp h
  unfold provesIndex
  simp only [hconfig, narrowed_congr h]

lemma decideAccess_congr (h : ctx.basis = ctx'.basis) (target : Occurrence) :
    ctx.decideAccess p target = ctx'.decideAccess p target := by
  obtain ⟨-, -, -, -, -, -, hbounds, -⟩ := basis_eq_iff.mp h
  unfold decideAccess indexBounds
  simp only [hbounds, provesIndex_congr h]

lemma decideOperation_congr (h : ctx.basis = ctx'.basis) (target : Occurrence) :
    ctx.decideOperation p target = ctx'.decideOperation p target := by
  obtain ⟨hconfig, -, -, -, -, -, -, hbounds⟩ := basis_eq_iff.mp h
  unfold decideOperation
  simp only [hconfig, hbounds, narrowed_congr h]

end Context

namespace Checker

/-- From the first state to the second, settings, targets and bounds stay, and so does the
faithfulness of the cache. -/
structure Keeps (p : Program) (c c' : Checker) : Prop where
  basis : c'.context.basis = c.context.basis
  scans : c'.context.scans.Describes p

/-- Verdicts stay as well. -/
structure KeepsVerdicts (p : Program) (c c' : Checker) : Prop extends Keeps p c c' where
  access : c'.context.accessVerdicts = c.context.accessVerdicts
  overflow : c'.context.overflowVerdicts = c.context.overflowVerdicts

variable {p : Program} {c c' c'' : Checker}

lemma Keeps.trans (h : Keeps p c c') (h' : Keeps p c' c'') : Keeps p c c'' :=
  ⟨h'.basis.trans h.basis, h'.scans⟩

lemma KeepsVerdicts.refl (h : c.context.scans.Describes p) : KeepsVerdicts p c c :=
  ⟨⟨rfl, h⟩, rfl, rfl⟩

lemma KeepsVerdicts.trans (h : KeepsVerdicts p c c') (h' : KeepsVerdicts p c' c'') :
    KeepsVerdicts p c c'' :=
  ⟨h.toKeeps.trans h'.toKeeps, h'.access.trans h.access, h'.overflow.trans h.overflow⟩

lemma evaluate_run (p : Program) (frame : Frame) (b : Bound) (c : Checker) :
    (evaluate p frame b).run c =
      let r := (c.context.evaluate p frame b).run ⟨c.safe, c.context.scans⟩
      (r.1, { context := { c.context with scans := r.2.scans }, safe := r.2.safe }) := rfl

lemma check_run (p : Program) (loops : List LoopId) (b : Bound) (c : Checker) :
    (check p loops b).run c = (evaluate p { loops } b).run { c with safe := true } := rfl

/-- A state in the course of a check of a context, with a cache of a known kind. -/
structure Amid (known : ScanCache → Prop) (ctx : Context) (c : Checker) : Prop where
  basis : c.context.basis = ctx.basis
  scans : known c.context.scans

/-- From the first state to the second a check goes on: verdicts stay, and the least index is lowered
by the given literals. -/
structure Notes (known : ScanCache → Prop) (ctx : Context) (lows : List Int64) (c c' : Checker) : Prop
    extends Amid known ctx c' where
  access : c'.context.accessVerdicts = c.context.accessVerdicts
  overflow : c'.context.overflowVerdicts = c.context.overflowVerdicts
  minimum : c'.context.minimum = lows.foldl min c.context.minimum

section

variable {known : ScanCache → Prop} {ctx : Context} {lows lows' : List Int64}

lemma Notes.refl (hc : Amid known ctx c) : Notes known ctx [] c c := ⟨hc, rfl, rfl, rfl⟩

lemma Notes.trans (h : Notes known ctx lows c c') (h' : Notes known ctx lows' c' c'') :
    Notes known ctx (lows ++ lows') c c'' := by
  refine ⟨h'.toAmid, h'.access.trans h.access, h'.overflow.trans h.overflow, ?_⟩
  rw [h'.minimum, h.minimum, List.foldl_append]

lemma Notes.keepsVerdicts (h : Notes (ScanCache.Describes p) ctx lows c c')
    (hc : Amid (ScanCache.Describes p) ctx c) : KeepsVerdicts p c c' :=
  ⟨⟨h.basis.trans hc.basis.symm, h.scans⟩, h.access, h.overflow⟩

lemma noteIndex_eq (b : Bound) (c : Checker) :
    noteIndex b c = { c with context :=
      { c.context with minimum := b.lowest?.toList.foldl min c.context.minimum } } := by
  unfold noteIndex
  cases b.lowest? with
  | none => rfl
  | some low =>
    have hmin : min c.context.minimum low =
        if low < c.context.minimum then low else c.context.minimum := by
      rw [← Int64.toInt_inj, Saturating.toInt_min]
      split
      · next h =>
        have := Int64.lt_iff_toInt_lt.mp h
        omega
      · next h =>
        have := mt Int64.lt_iff_toInt_lt.mpr h
        omega
    simp only [Option.toList_some, List.foldl_cons, List.foldl_nil, hmin]
    split <;> rfl

variable (harray : ∀ id ty, SteadyOn known (Evaluation.arrayContents p ctx id ty))
include harray

lemma evaluate_notes (hc : Amid known ctx c) (frame : Frame) (b : Bound) :
    Notes known ctx [] c ((evaluate p frame b).run c).2 := by
  obtain ⟨a, ok, hrun⟩ := ctx.evaluate_steadyOn harray frame b
  obtain ⟨scans, hs, heq⟩ := hrun c.safe _ hc.scans
  rw [evaluate_run, Context.evaluate_congr hc.basis, heq]
  exact ⟨⟨hc.basis, hs⟩, rfl, rfl, rfl⟩

variable (hstart : known ctx.scans)
include hstart

/-- A check narrows its bound as if it were the first. -/
lemma check_spec (hc : Amid known ctx c) (loops : List LoopId) (b : Bound) :
    ∃ c', (check p loops b).run c = ((ctx.checked p loops b).1, c') ∧
      c'.safe = (ctx.checked p loops b).2 ∧ Notes known ctx [] c c' := by
  obtain ⟨a, ok, hrun⟩ := ctx.evaluate_steadyOn harray { loops } b
  obtain ⟨scans₀, -, heq₀⟩ := hrun true _ hstart
  obtain ⟨scans, hs, heq⟩ := hrun true _ hc.scans
  rw [check_run, evaluate_run, Context.evaluate_congr hc.basis, heq]
  unfold Context.checked
  rw [heq₀]
  exact ⟨_, rfl, rfl, ⟨hc.basis, hs⟩, rfl, rfl, rfl⟩

lemma indexNeedsCheck_spec (hc : Amid known ctx c) (loops : List LoopId) (bound : Option Bound)
    (size : Int64) :
    ∃ c', (indexNeedsCheck p loops bound size).run c = (ctx.judgeIndex p loops size bound, c') ∧
      Notes known ctx (ctx.lowIndex? p loops bound).toList c c' := by
  obtain ⟨hconfig, -⟩ := Context.basis_eq_iff.mp hc.basis
  unfold indexNeedsCheck Context.judgeIndex Context.lowIndex?
  simp only [StateT.run_bind, StateT.run_get, pure_bind, hconfig]
  cases ctx.config.boundCheck with
  | false => exact ⟨c, rfl, .refl hc⟩
  | true =>
    cases bound with
    | none => exact ⟨c, rfl, .refl hc⟩
    | some b =>
      obtain ⟨c₁, hrun, hsafe, hnotes⟩ := check_spec harray hstart hc loops b
      have hlow := noteIndex_eq (ctx.checked p loops b).1 c₁
      refine ⟨noteIndex (ctx.checked p loops b).1 c₁, ?_, ?_⟩
      · have hflag : (noteIndex (ctx.checked p loops b).1 c₁).safe = c₁.safe := by rw [hlow]
        simp only [StateT.run_bind, hrun, Option.any_some, Bool.true_and, ← hsafe, ← hflag]
        rfl
      · rw [hlow]
        exact ⟨⟨hnotes.basis, hnotes.scans⟩, hnotes.access, hnotes.overflow,
          congrArg (List.foldl min · _) hnotes.minimum⟩

lemma accessVerdict_spec (hc : Amid known ctx c) (loops : List LoopId) {sizes : List Int64}
    {bounds : List (Option Bound)} (hlength : sizes.length = bounds.length) :
    ∃ c', (accessVerdict p loops sizes bounds).run c =
        (List.zipWith (ctx.judgeIndex p loops) sizes bounds, c') ∧
      Notes known ctx (bounds.filterMap (ctx.lowIndex? p loops)) c c' := by
  induction sizes generalizing bounds c with
  | nil =>
    obtain rfl := List.length_eq_zero_iff.mp hlength.symm
    exact ⟨c, rfl, .refl hc⟩
  | cons size sizes ih =>
    cases bounds with
    | nil => cases hlength
    | cons bound bounds =>
      obtain ⟨c₁, hrun₁, hnotes₁⟩ := indexNeedsCheck_spec harray hstart hc loops bound size
      obtain ⟨c₂, hrun₂, hnotes₂⟩ := ih hnotes₁.toAmid (Nat.succ.inj hlength)
      refine ⟨c₂, ?_, ?_⟩
      · simp only [accessVerdict, StateT.run_bind, hrun₁]
        exact congrArg (fun r : List Bool × Checker =>
          (ctx.judgeIndex p loops size bound :: r.1, r.2)) hrun₂
      · have hlows : (bound :: bounds).filterMap (ctx.lowIndex? p loops) =
            (ctx.lowIndex? p loops bound).toList ++ bounds.filterMap (ctx.lowIndex? p loops) := by
          cases hlow : ctx.lowIndex? p loops bound <;> simp [hlow]
        rw [hlows]
        exact hnotes₁.trans hnotes₂

lemma operationNeedsCheck_spec (hc : Amid known ctx c) (target : Occurrence) :
    ∃ c', (operationNeedsCheck p target).run c = (ctx.judgeOperation p target, c') ∧
      Notes known ctx [] c c' := by
  obtain ⟨hconfig, -, -, -, -, -, -, hbounds⟩ := Context.basis_eq_iff.mp hc.basis
  unfold operationNeedsCheck Context.judgeOperation
  simp only [StateT.run_bind, StateT.run_get, pure_bind, hconfig, hbounds]
  cases (p.typeOf target.term).limits with
  | none => exact ⟨c, rfl, .refl hc⟩
  | some limits =>
    obtain ⟨lo, hi⟩ := limits
    cases ctx.config.boundCheck with
    | false => exact ⟨c, rfl, .refl hc⟩
    | true =>
      cases ctx.overflowBounds.get? target.term.id with
      | none => exact ⟨c, rfl, .refl hc⟩
      | some b =>
        obtain ⟨c₁, hrun, hsafe, hnotes⟩ := check_spec harray hstart hc target.loops b
        refine ⟨c₁, ?_, hnotes⟩
        simp only [StateT.run_bind, hrun, Option.any_some, Bool.true_and, ← hsafe]
        rfl

end

end Checker

/-- Steps that relate the state after them to the state before. -/
def Stays {σ α : Type} (rel : σ → σ → Prop) (m : StateM σ α) : Prop := ∀ s, rel s (m.run s).2

namespace Stays

variable {σ α β : Type} {rel : σ → σ → Prop} [IsPreorder σ rel] {m : StateM σ α} {f : α → StateM σ β}

theorem pure (a : α) : Stays rel (Pure.pure a : StateM σ α) := fun s => Std.Refl.refl s

theorem get : Stays rel (MonadState.get : StateM σ σ) := fun s => Std.Refl.refl s

theorem bind (h : Stays rel m) (hf : ∀ a, Stays rel (f a)) : Stays rel (m >>= f) :=
  fun s => IsTrans.trans _ _ _ (h s) (hf _ _)

theorem forM {xs : List α} {f : α → StateM σ PUnit} (h : ∀ x, Stays rel (f x)) :
    Stays rel (xs.forM f) := by
  induction xs with
  | nil => exact pure _
  | cons x xs ih => exact bind (h x) fun _ => ih

end Stays

namespace Checker

variable {p : Program} {rel : Checker → Checker → Prop}

/-- All that resolving a loop writes stays within a relation. -/
structure Allows (p : Program) (rel : Checker → Checker → Prop) : Prop where
  flag : ∀ c safe, rel c { c with safe }
  ranges : ∀ c ranges, rel c { c with context := { c.context with ranges } }
  evaluate : ∀ frame b, Stays rel (evaluate p frame b)

section

variable [IsPreorder Checker rel] (allows : Allows p rel)
include allows

lemma literalRange_stays (start stop step : Bound) : Stays rel (literalRange p start stop step) := by
  unfold literalRange
  refine .bind (allows.evaluate _ _) fun _ => ?_
  split
  · exact .pure _
  · refine .bind (allows.evaluate _ _) fun _ => ?_
    split
    · exact .pure _
    · refine .bind (allows.evaluate _ _) fun _ => ?_
      split
      · exact .pure _
      · exact .pure _

lemma resolveLoop_stays (loop : LoopId) : Stays rel (resolveLoop p loop) := by
  unfold resolveLoop
  split
  · exact .pure _
  · refine .bind .get fun _ => ?_
    split
    · refine .bind (fun c => allows.flag c true) fun _ =>
        .bind (literalRange_stays allows _ _ _) fun _ => ?_
      split
      · exact .pure _
      · exact .bind (fun c => allows.ranges c _) fun _ => .pure _
    · exact .pure _

theorem resolveLoops_stays : Stays rel (resolveLoops p) :=
  .bind .get fun _ => .forM fun loop => .bind (resolveLoop_stays allows loop) fun _ => .pure _

end

/-- In the course of a check of a context nothing is noted. -/
def Silent (known : ScanCache → Prop) (ctx : Context) (c c' : Checker) : Prop :=
  Amid known ctx c → Notes known ctx [] c c'

instance {known : ScanCache → Prop} {ctx : Context} : IsPreorder Checker (Silent known ctx) where
  refl _ hc := .refl hc
  trans _ _ _ h h' hc := (h hc).trans (h' (h hc).toAmid)

/-- Resolving loops changes neither verdicts nor what they are decided from. -/
lemma resolveLoops_notes {known : ScanCache → Prop} {ctx : Context} {c : Checker}
    (harray : ∀ id ty, SteadyOn known (Evaluation.arrayContents p ctx id ty))
    (hc : Amid known ctx c) : Notes known ctx [] c ((resolveLoops p).run c).2 := by
  have hallows : Allows p (Silent known ctx) :=
    ⟨fun _ _ hc => ⟨⟨hc.basis, hc.scans⟩, rfl, rfl, rfl⟩,
      fun _ _ hc => ⟨⟨hc.basis, hc.scans⟩, rfl, rfl, rfl⟩,
      fun frame b _ hc => evaluate_notes harray hc frame b⟩
  exact resolveLoops_stays hallows c hc

/-- With a faithful cache, settings, targets, bounds and verdicts stay and so does the cache. -/
def KeepsFaithful (p : Program) (c c' : Checker) : Prop :=
  c.context.scans.Describes p → KeepsVerdicts p c c'

instance : IsPreorder Checker (KeepsFaithful p) where
  refl _ hc := .refl hc
  trans _ _ _ h h' hc := (h hc).trans (h' (h hc).scans)

lemma allows_keepsFaithful (shares : p.SharesContents) : Allows p (KeepsFaithful p) where
  flag _ _ hc := ⟨⟨rfl, hc⟩, rfl, rfl⟩
  ranges _ _ hc := ⟨⟨rfl, hc⟩, rfl, rfl⟩
  evaluate frame b := by
    intro c hc
    have hamid : Amid (ScanCache.Describes p) c.context c := ⟨rfl, hc⟩
    exact (evaluate_notes (Evaluation.arrayContents_steady shares c.context) hamid frame b).keepsVerdicts
      hamid

end Checker

end LoopSafety
