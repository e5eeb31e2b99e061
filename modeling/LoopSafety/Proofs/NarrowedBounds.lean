import LoopSafety.Proofs.Circularity

/-! What bounds narrow to.

However deep a bound is and whatever its names stand for, it narrows to a literal, to an interval
between two different literals, or to a failure, and a failure is never without the flag of the check.
Only a range is narrowed to a range again, so the bounds in question are those without one. -/
namespace LoopSafety

namespace Bound

mutual

/-- No range is part of the bound. -/
def rangeFree : Bound → Bool
  | literal _ _ | var _ _ | array _ _ _ | fail => true
  | limit lo hi _ => lo.rangeFree && hi.rangeFree
  | either thenPart elsePart _ => thenPart.rangeFree && elsePart.rangeFree
  | range _ _ _ => false
  | binary _ left right _ | builtin _ left right _ => left.rangeFree && right.rangeFree
  | math _ args _ => allRangeFree args
  | call _ params ret _ => paramsRangeFree params && ret.rangeFree

def allRangeFree : List Bound → Bool
  | [] => true
  | b :: bs => b.rangeFree && allRangeFree bs

def paramsRangeFree : List (String × Bound) → Bool
  | [] => true
  | (_, b) :: bs => b.rangeFree && paramsRangeFree bs

end

/-- The bounds that nothing remains to be narrowed of. -/
inductive Narrowed : Bound → Prop
  | literal (value : Int64) (ty : DataType) : Narrowed (literal value ty)
  | limit {lo hi : Int64} (differ : lo ≠ hi) (ty₁ ty₂ ty : DataType) :
      Narrowed (limit (literal lo ty₁) (literal hi ty₂) ty)
  | fail : Narrowed fail

/-- Nothing remains to be narrowed, and a failure has cost the check its flag. -/
def NarrowedIn (safe : Bool) (b : Bound) : Prop := b.Narrowed ∧ (b = fail → safe = false)

lemma interval_narrowed (lo hi : Int64) (ty : DataType) : (interval lo hi ty).Narrowed := by
  unfold interval
  split
  · exact .literal lo ty
  · next hdiffer => exact .limit hdiffer ty ty ty

lemma interval_ne_fail (lo hi : Int64) (ty : DataType) : interval lo hi ty ≠ fail := by
  unfold interval
  split <;> simp

end Bound

/-- The parameters around a place are narrowed, and one of them fails only if the check is not safe.
-/
def Frame.Narrowed (safe : Bool) (frame : Frame) : Prop :=
  ∀ name b, frame.param? name = some b → b.NarrowedIn safe

/-- From every state a probe comes to a narrowed bound, and fails only if the check is not safe. -/
def Narrows (m : Probing Bound) : Prop := ∀ s, (m.run s).1.NarrowedIn (m.run s).2.safe

namespace Narrows

variable {α : Type} {m : Probing α} {f : α → Probing Bound}

theorem interval (lo hi : Int64) (ty : DataType) : Narrows (pure (.interval lo hi ty)) :=
  fun _ => ⟨Bound.interval_narrowed lo hi ty, fun h => absurd h (Bound.interval_ne_fail lo hi ty)⟩

theorem fail : Narrows Evaluation.fail := fun _ => ⟨.fail, fun _ => rfl⟩

/-- What has been done before does not matter. -/
theorem bind (hf : ∀ a, Narrows (f a)) : Narrows (m >>= f) := fun s => hf (m.run s).1 (m.run s).2

end Narrows

namespace Evaluation

variable {p : Program} {ctx : Context} {ind : Frame → LoopId → Probing Bound}

lemma hull_narrows (a b : Bound) (ty : DataType) : Narrows (hull a b ty) := by
  unfold hull
  split
  · exact .interval _ _ ty
  · exact .fail

lemma binaryInterval_narrows (a : Int64 × Int64) (op : BinaryOp) (b : Int64 × Int64) (ty : DataType) :
    Narrows (binaryInterval a op b ty) := by
  have hends : Narrows (do
      let lo ← applyBinary a.1 op b.1
      let hi ← applyBinary a.2 op b.2
      return Bound.interval (ty.saturate lo) (ty.saturate hi) ty) :=
    .bind fun _ => .bind fun _ => .interval _ _ ty
  unfold binaryInterval
  split
  · exact .bind fun _ => hends
  · exact hends

lemma mathInterval_narrows (fn : MathFn) (args : List (Int64 × Int64)) (ty : DataType) :
    Narrows (mathInterval fn args ty) := by
  unfold mathInterval
  split
  · exact .interval _ _ ty
  · exact .fail

lemma arrayContents_narrows (id : ArrayId) (ty : DataType) : Narrows (arrayContents p ctx id ty) := by
  unfold arrayContents
  split
  · exact .fail
  · split
    · refine .bind fun _ => .bind fun _ => ?_
      split
      · exact .interval _ _ ty
      · exact .fail
    · exact .fail

lemma inductionInterval_narrows (start stop step : Option (Int64 × Int64)) (ty : DataType) :
    Narrows (inductionInterval start stop step ty) := by
  unfold inductionInterval
  split
  · split
    · exact .interval _ _ ty
    · split
      · exact .interval _ _ ty
      · exact .fail
  · exact .fail

/-- The bound of a loop variable is narrowed, whatever the range of the loop was built as. -/
lemma inductionBound_narrows (depth : Nat) (frame : Frame) (loop : LoopId) :
    Narrows (inductionBound p ctx depth frame loop) := by
  cases depth with
  | zero => exact .fail
  | succ depth =>
    rw [inductionBound]
    split
    · exact .fail
    · split
      · exact .fail
      · exact .bind fun _ => .bind fun _ => .bind fun _ => inductionInterval_narrows _ _ _ _

/-- A name stands for a parameter, which is narrowed already, or for something that is narrowed now.
-/
lemma resolve_narrowed (hi : ∀ frame loop, Narrows (ind frame loop)) {frame : Frame} {s : Probe}
    (hframe : frame.Narrowed s.safe) (name : String) (ty : DataType) :
    ((resolve p ctx ind frame name ty).run s).1.NarrowedIn
      ((resolve p ctx ind frame name ty).run s).2.safe := by
  unfold resolve
  cases hparam : frame.scopes.findSome? (·.get? name) with
  | some b => exact hframe name b hparam
  | none =>
    cases ctx.constants.get? name with
    | some value => exact ⟨.literal value ty, by simp⟩
    | none =>
      cases loopOf? p ctx frame name with
      | some loop => exact hi frame loop s
      | none => exact Narrows.fail s

end Evaluation

/-- A failure stays accounted for as long as the check does not get safe again. -/
lemma Bound.NarrowedIn.mono {b : Bound} {safe safe' : Bool} (h : b.NarrowedIn safe)
    (hsafe : safe' = true → safe = true) : b.NarrowedIn safe' := by
  refine ⟨h.1, fun hfail => ?_⟩
  rw [← Bool.not_eq_true]
  intro hsafe'
  exact Bool.false_ne_true ((h.2 hfail).symm.trans (hsafe hsafe'))

namespace Evaluation

variable {p : Program} {ctx : Context} {ind : Frame → LoopId → Probing Bound}

/-- Parameters that are narrowed remain so while the arguments of a call are narrowed. -/
lemma frame_push_narrowed {frame : Frame} {scope : Table String Bound} {safe safe' : Bool}
    (hframe : frame.Narrowed safe) (hsafe : safe' = true → safe = true)
    (hscope : ∀ name b, scope.get? name = some b → b.NarrowedIn safe') :
    (frame.push scope).Narrowed safe' := by
  intro name b hparam
  rw [Frame.param?_push, Option.or_eq_some_iff] at hparam
  rcases hparam with hparam | ⟨-, hparam⟩
  · exact hscope name b hparam
  · exact (hframe name b hparam).mono hsafe

mutual

/-- A bound without ranges narrows to a narrowed one: all constructs but names and calls do so
whatever their parts come to, and a call binds its parameters to narrowed arguments. -/
theorem narrow_narrowed (hi : ∀ frame loop, Narrows (ind frame loop))
    (hv : ∀ frame loop, Vouches (ind frame loop) True) : ∀ {frame : Frame} {s : Probe},
      frame.Narrowed s.safe → ∀ b : Bound, b.rangeFree = true →
        ((narrow p ctx ind frame b).run s).1.NarrowedIn ((narrow p ctx ind frame b).run s).2.safe
  | _, s, _, .literal value ty, _ => by
    rw [narrow]
    exact ⟨.literal value ty, by simp⟩
  | _, s, _, .limit _ _ ty, _ => by
    rw [narrow]
    exact Narrows.bind (fun _ => .bind fun _ => hull_narrows _ _ ty) s
  | _, s, _, .either _ _ ty, _ => by
    rw [narrow]
    exact Narrows.bind (fun _ => .bind fun _ => hull_narrows _ _ ty) s
  | _, _, _, .range _ _ _, hfree => by simp [Bound.rangeFree] at hfree
  | _, _, hframe, .var name ty, _ => by
    rw [narrow]
    exact resolve_narrowed hi hframe name ty
  | _, s, _, .binary op _ _ ty, _ => by
    rw [narrow]
    refine Narrows.bind (fun l => .bind fun r => ?_) s
    rcases l.interval? with _ | a
    · exact .fail
    · rcases r.interval? with _ | b
      · exact .fail
      · exact binaryInterval_narrows a op b ty
  | _, s, _, .builtin kind _ _ ty, _ => by
    rw [narrow]
    refine Narrows.bind (fun l => .bind fun r => ?_) s
    rcases l.interval? with _ | a
    · exact .fail
    · rcases r.interval? with _ | b
      · exact .fail
      · exact .interval _ _ ty
  | _, s, _, .math fn _ ty, _ => by
    rw [narrow]
    refine Narrows.bind (fun intervals => ?_) s
    rcases intervals with _ | intervals
    · exact .fail
    · exact mathInterval_narrows fn intervals ty
  | frame, s, hframe, .call _ params ret _, hfree => by
    rw [Bound.rangeFree, Bool.and_eq_true] at hfree
    rw [narrow, StateT.run_bind]
    have hscope := narrowParams_narrowed hi hv hframe params hfree.1 ∅ (by simp)
    have hsafe : ((narrowParams p ctx ind frame params ∅).run s).2.safe = true → s.safe = true :=
      fun h => (narrowParams_vouches hv frame.binds_params params ∅ s h).1
    exact narrow_narrowed hi hv (frame_push_narrowed hframe hsafe hscope) ret hfree.2
  | _, s, _, .array id _ ty, _ => by
    rw [narrow]
    exact arrayContents_narrows id ty s
  | _, s, _, .fail, _ => by
    rw [narrow]
    exact Narrows.fail s

theorem narrowParams_narrowed (hi : ∀ frame loop, Narrows (ind frame loop))
    (hv : ∀ frame loop, Vouches (ind frame loop) True) : ∀ {frame : Frame} {s : Probe},
      frame.Narrowed s.safe → ∀ bs : List (String × Bound), Bound.paramsRangeFree bs = true →
        ∀ scope : Table String Bound, (∀ name b, scope.get? name = some b → b.NarrowedIn s.safe) →
          ∀ name b, ((narrowParams p ctx ind frame bs scope).run s).1.get? name = some b →
            b.NarrowedIn ((narrowParams p ctx ind frame bs scope).run s).2.safe
  | _, _, _, [], _, scope, hscope => by
    rw [narrowParams]
    exact hscope
  | frame, s, hframe, (name, b) :: bs, hfree, scope, hscope => by
    rw [Bound.paramsRangeFree, Bool.and_eq_true] at hfree
    rw [narrowParams, StateT.run_bind]
    have hsafe : ((narrow p ctx ind frame b).run s).2.safe = true → s.safe = true :=
      fun h => (narrow_vouches hv frame.binds_params b s h).1
    have hvalue := narrow_narrowed hi hv hframe b hfree.1
    refine narrowParams_narrowed hi hv (fun x c hparam => (hframe x c hparam).mono hsafe) bs
      hfree.2 _ ?_
    intro x c hget
    rw [Table.get?_insert] at hget
    split at hget
    · exact Option.some.inj hget ▸ hvalue
    · exact (hscope x c hget).mono hsafe

end

end Evaluation

namespace Context

variable {p : Program} {ctx : Context}

/-- No check gets safe again. -/
lemma evaluate_vouches (frame : Frame) (b : Bound) : Vouches (ctx.evaluate p frame b) True := by
  refine Vouches.mono (Evaluation.narrow_vouches ?_ frame.binds_params b) fun _ => trivial
  exact Evaluation.inductionBound_vouches _

lemma evaluate_narrowed {frame : Frame} {s : Probe} (hframe : frame.Narrowed s.safe) {b : Bound}
    (hfree : b.rangeFree = true) :
    ((ctx.evaluate p frame b).run s).1.NarrowedIn ((ctx.evaluate p frame b).run s).2.safe :=
  Evaluation.narrow_narrowed (Evaluation.inductionBound_narrows _) (Evaluation.inductionBound_vouches _)
    hframe b hfree

end Context

/-- From every state whose parameters are narrowed, and in which one of them fails only if the check
is not safe, a bound without ranges narrows to a literal, to an interval between two different
literals, or to a failure. With a failure the check is not safe, and no check gets safe again. The
loops and both stacks are as before, and of the context only what has been scanned may have changed.
-/
theorem Narrower.narrowed_and_restored (p : Program) (n : Narrower) (b : Bound)
    (hfree : b.rangeFree = true) (hparams : n.frame.Narrowed n.safe) :
    ∃ r n',
      (∀ depth, (remaining n.context n.frame).card < depth →
        (evaluate p depth b).run n = some (r, n')) ∧
      (n.context.evaluate p n.frame b).run n.probe = (r, n'.probe) ∧
      r.Narrowed ∧ (r = .fail → n'.safe = false) ∧ (n.safe = false → n'.safe = false) ∧
      n'.loops = n.loops ∧ n'.scopes = n.scopes ∧ n'.resolving = n.resolving ∧
      n'.context = { n.context with scans := n'.context.scans } := by
  obtain ⟨new, hrun, -⟩ := evaluate_run p n b
  obtain ⟨hnarrowed, hfail⟩ := Context.evaluate_narrowed (p := p) (s := n.probe) hparams hfree
  refine ⟨_, _, hrun, rfl, hnarrowed, hfail, fun hfalse => ?_, rfl, rfl, rfl, rfl⟩
  rw [← Bool.not_eq_true]
  intro hsafe
  have hbefore : n.safe = true := (Context.evaluate_vouches n.frame b n.probe hsafe).1
  exact Bool.false_ne_true (hfalse.symm.trans hbefore)

/-! A call with a parameter under a loop, in a check that has already failed. -/
namespace Inlined

def program : Program where
  loops := #[⟨"i", .int, .simple ⟨0, 10, 1⟩⟩]

def context : Context where
  loops := [⟨0⟩]

/-- What a function that adds one to its parameter gives for the loop variable. -/
def call : Bound :=
  .call "next" [("x", .var "i" .int)] (.binary .add (.var "x" .int) (.literal 1 .int) .int) .int

def state : Narrower where
  context := context
  safe := false
  loops := [⟨0⟩]
  scopes := [(Table.insert ∅ "k" .fail).insert "n" (.literal 7 .int)]

lemma state_narrowed : state.frame.Narrowed state.safe := by
  intro name b hparam
  have hlookup : ((Table.insert ∅ "k" Bound.fail).insert "n" (.literal 7 .int)).get? name = some b := by
    simpa [Frame.param?, state, Narrower.frame] using hparam
  rw [Table.get?_insert, Table.get?_insert] at hlookup
  split at hlookup
  · cases hlookup
    exact ⟨.literal 7 .int, by simp⟩
  · split at hlookup
    · cases hlookup
      exact ⟨.fail, fun _ => rfl⟩
    · simp at hlookup

/-- The parameter is gone afterwards, and those around the call are still there. -/
theorem inlined_call_narrowed :
    ∃ r n', (Narrower.evaluate program 2 call).run state = some (r, n') ∧
      r.Narrowed ∧ r.interval? = some (1, 10) ∧ n'.safe = false ∧ n'.scopes = state.scopes := by
  obtain ⟨r, n', hrun, -, hnarrowed, -, hsafe, -, hscopes, -⟩ :=
    Narrower.narrowed_and_restored program state call (by decide) state_narrowed
  have hrun := hrun 2 (by decide)
  refine ⟨r, n', hrun, hnarrowed, ?_, hsafe rfl, hscopes⟩
  have hvalue : ((Narrower.evaluate program 2 call).run state).map (·.1.interval?) =
      some (some (1, 10)) := by decide +kernel
  rw [hrun] at hvalue
  exact Option.some.inj hvalue

end Inlined

end LoopSafety
