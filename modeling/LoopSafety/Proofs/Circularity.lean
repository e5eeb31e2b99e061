import LoopSafety.Proofs.Narrowing

/-! Loops whose ranges depend on each other in a circle.

The range of a loop may mention its own variable, or that of a loop whose range leads back to it.
Narrowing ends on such ranges as on all others, and a check that comes upon a circle is not safe. -/
namespace LoopSafety

namespace Bound

mutual

/-- The names in a bound, each with the parameters that are bound where it stands. -/
def uses (bound : List String) : Bound → List (String × List String)
  | literal _ _ | array _ _ _ | fail => []
  | limit lo hi _ => lo.uses bound ++ hi.uses bound
  | either thenPart elsePart _ => thenPart.uses bound ++ elsePart.uses bound
  | range start stop step => start.uses bound ++ stop.uses bound ++ step.uses bound
  | var name _ => [(name, bound)]
  | binary _ left right _ | builtin _ left right _ => left.uses bound ++ right.uses bound
  | math _ args _ => usesOf bound args
  | call _ params ret _ => paramUses bound params ++ ret.uses (params.map (·.1) ++ bound)

def usesOf (bound : List String) : List Bound → List (String × List String)
  | [] => []
  | b :: bs => b.uses bound ++ usesOf bound bs

def paramUses (bound : List String) : List (String × Bound) → List (String × List String)
  | [] => []
  | (_, b) :: bs => b.uses bound ++ paramUses bound bs

end

end Bound

namespace Evaluation

variable (p : Program) (ctx : Context) (loops : List LoopId)

/-- The loop whose variable a name is, unless the name is that of a parameter or a constant. -/
def loopNamed? (bound : List String) (name : String) : Option LoopId :=
  if name ∈ bound ∨ (ctx.constants.get? name).isSome then none else loopOf? p ctx { loops } name

/-- From name to range to name, a bound leads back to a loop that is being narrowed. -/
inductive Circular : List LoopId → List String → Bound → Prop
  | back {resolving bound b name bound' loop} (uses : (name, bound') ∈ b.uses bound)
      (named : loopNamed? p ctx loops bound' name = some loop) (again : loop ∈ resolving) :
      Circular resolving bound b
  | onward {resolving bound b name bound' loop start stop step} (uses : (name, bound') ∈ b.uses bound)
      (named : loopNamed? p ctx loops bound' name = some loop)
      (parts : rangeParts p ctx loop = some (start, stop, step))
      (circle : Circular (loop :: resolving) bound' (.range start stop step)) :
      Circular resolving bound b

end Evaluation

lemma Table.isSome_get?_iff {κ α : Type} [DecidableEq κ] (t : Table κ α) (key : κ) :
    (t.get? key).isSome ↔ key ∈ t.keys := by
  obtain ⟨entries⟩ := t
  change (Table.lookup entries key).isSome ↔ key ∈ entries.map (·.1)
  induction entries with
  | nil => simp [Table.lookup]
  | cons entry entries ih =>
    obtain ⟨key', value⟩ := entry
    rw [Table.lookup, List.map_cons, List.mem_cons]
    by_cases hkey : key' = key
    · simp [hkey]
    · simp only [if_neg hkey, ih, Ne.symm hkey, false_or]

namespace Frame

/-- The names that are parameters of the calls around a place. -/
def params (frame : Frame) : List String := frame.scopes.flatMap Table.keys

/-- Exactly these names are parameters of the calls around a place. -/
def Binds (frame : Frame) (bound : List String) : Prop :=
  ∀ name, (frame.param? name).isSome ↔ name ∈ bound

lemma binds_params (frame : Frame) : frame.Binds frame.params := by
  intro name
  simp only [param?, params, List.findSome?_isSome_iff, List.mem_flatMap, Table.isSome_get?_iff]

end Frame

namespace Evaluation

variable {p : Program} {ctx : Context} {ind : Frame → LoopId → Probing Bound}

/-- No other names than the parameters are bound in the scope of a call. -/
lemma mem_of_narrowParams (frame : Frame) (params : List (String × Bound)) (scope : Table String Bound)
    (s : Probe) {name : String}
    (h : (((narrowParams p ctx ind frame params scope).run s).1.get? name).isSome) :
    name ∈ params.map (·.1) ∨ (scope.get? name).isSome := by
  induction params generalizing scope s with
  | nil => exact .inr h
  | cons param params ih =>
    obtain ⟨x, b⟩ := param
    rw [narrowParams, StateT.run_bind] at h
    rcases ih _ _ h with hmem | hscope
    · exact .inl (List.mem_cons_of_mem _ hmem)
    · rw [Table.get?_insert] at hscope
      split at hscope
      · next heq => exact .inl (heq ▸ List.mem_cons_self)
      · exact .inr hscope

lemma binds_push {frame : Frame} {bound : List String} (h : frame.Binds bound)
    (params : List (String × Bound)) (s : Probe) :
    (frame.push ((narrowParams p ctx ind frame params ∅).run s).1).Binds
      (params.map (·.1) ++ bound) := by
  intro name
  rw [Frame.param?_push, List.mem_append, ← h name, Option.isSome_or, Bool.or_eq_true]
  refine or_congr_left ⟨fun hsome => ?_, fun hmem => ?_⟩
  · exact (mem_of_narrowParams frame params ∅ s hsome).resolve_right (by simp)
  · exact narrowParams_binds frame params ∅ s name (.inl hmem)

/-- The variable of a loop has been narrowed somewhere around, and the check was still safe. -/
def Passed (ind : Frame → LoopId → Probing Bound) (frame : Frame) (bound : List String)
    (loop : LoopId) : Prop :=
  ∃ inner : Frame, inner.loops = frame.loops ∧ inner.resolving = frame.resolving ∧ inner.Binds bound ∧
    ∃ s, ((ind inner loop).run s).2.safe = true

/-- All loops that names stand for have been passed. -/
def AllPassed (p : Program) (ctx : Context) (ind : Frame → LoopId → Probing Bound) (frame : Frame)
    (uses : List (String × List String)) : Prop :=
  ∀ name bound loop, (name, bound) ∈ uses → loopNamed? p ctx frame.loops bound name = some loop →
    Passed ind frame bound loop

lemma allPassed_nil (frame : Frame) : AllPassed p ctx ind frame [] := by simp [AllPassed]

lemma allPassed_append {frame : Frame} {first rest : List (String × List String)} :
    AllPassed p ctx ind frame (first ++ rest) ↔
      AllPassed p ctx ind frame first ∧ AllPassed p ctx ind frame rest := by
  simp only [AllPassed, List.mem_append, or_imp, forall_and]

lemma resolve_vouches (hi : ∀ frame loop, Vouches (ind frame loop) True) {frame : Frame}
    {bound : List String} (hbinds : frame.Binds bound) (name : String) (ty : DataType) :
    Vouches (resolve p ctx ind frame name ty) (AllPassed p ctx ind frame [(name, bound)]) := by
  have hnamed {loop : LoopId} (h : loopNamed? p ctx frame.loops bound name = some loop) :
      frame.scopes.findSome? (·.get? name) = none ∧ ctx.constants.get? name = none ∧
        loopOf? p ctx frame name = some loop := by
    obtain ⟨hfree, hloop⟩ := Option.ite_none_left_eq_some.mp h
    rw [not_or, ← hbinds name, Option.not_isSome_iff_eq_none, Option.not_isSome_iff_eq_none] at hfree
    exact ⟨hfree.1, hfree.2, hloop⟩
  intro s hs
  have hstart : Vouches (resolve p ctx ind frame name ty) True := by
    unfold resolve
    cases frame.scopes.findSome? (·.get? name) with
    | some b => exact .pure b
    | none =>
      cases ctx.constants.get? name with
      | some value => exact .pure (Bound.literal value ty)
      | none =>
        cases loopOf? p ctx frame name with
        | some loop => exact hi frame loop
        | none => exact .fail
  refine ⟨(hstart s hs).1, fun name' bound' loop hmem hloop => ?_⟩
  cases List.mem_singleton.mp hmem
  obtain ⟨hparam, hconstant, hfound⟩ := hnamed hloop
  unfold resolve at hs
  rw [hparam, hconstant, hfound] at hs
  exact ⟨frame, rfl, rfl, hbinds, s, hs⟩

mutual

/-- A check that is safe after narrowing a bound was safe after each loop that the bound asks for. -/
theorem narrow_vouches (hi : ∀ frame loop, Vouches (ind frame loop) True) :
    ∀ {frame : Frame} {bound : List String}, frame.Binds bound → ∀ b : Bound,
      Vouches (narrow p ctx ind frame b) (AllPassed p ctx ind frame (b.uses bound))
  | frame, _, _, .literal _ _ => by
    rw [narrow, Bound.uses]
    exact (Vouches.pure _).mono fun _ => allPassed_nil frame
  | frame, _, hbinds, .limit lo hi' ty => by
    rw [narrow, Bound.uses, allPassed_append]
    refine ((narrow_vouches hi hbinds lo).bind fun _ => (narrow_vouches hi hbinds hi').bind fun _ =>
      .of_steadyOn (hull_steadyOn _ _ _)).mono ?_
    exact And.imp_right And.left
  | frame, _, hbinds, .either t e ty => by
    rw [narrow, Bound.uses, allPassed_append]
    refine ((narrow_vouches hi hbinds t).bind fun _ => (narrow_vouches hi hbinds e).bind fun _ =>
      .of_steadyOn (hull_steadyOn _ _ _)).mono ?_
    exact And.imp_right And.left
  | frame, _, hbinds, .range start stop step => by
    rw [narrow, Bound.uses, allPassed_append, allPassed_append]
    refine ((narrow_vouches hi hbinds start).bind fun _ => (narrow_vouches hi hbinds stop).bind fun _ =>
      (narrow_vouches hi hbinds step).bind fun _ => .pure _).mono ?_
    exact fun h => ⟨⟨h.1, h.2.1⟩, h.2.2.1⟩
  | frame, _, hbinds, .var name ty => by
    rw [narrow, Bound.uses]
    exact resolve_vouches hi hbinds name ty
  | frame, _, hbinds, .binary op left right ty => by
    rw [narrow, Bound.uses, allPassed_append]
    refine ((narrow_vouches hi hbinds left).bind fun _ => (narrow_vouches hi hbinds right).bind fun _ =>
      (?_ : Vouches _ True)).mono (And.imp_right And.left)
    split
    · exact .of_steadyOn (binaryInterval_steadyOn _ _ _ _)
    · exact .fail
  | frame, _, hbinds, .builtin kind left right ty => by
    rw [narrow, Bound.uses, allPassed_append]
    refine ((narrow_vouches hi hbinds left).bind fun _ => (narrow_vouches hi hbinds right).bind fun _ =>
      (?_ : Vouches _ True)).mono (And.imp_right And.left)
    split
    · exact .pure _
    · exact .fail
  | frame, _, hbinds, .math fn args ty => by
    rw [narrow, Bound.uses]
    exact narrowArgs_vouches hi hbinds args rfl fun _ => .of_steadyOn (mathInterval_steadyOn _ _ _)
  | frame, bound, hbinds, .call name params ret ty => by
    rw [narrow, Bound.uses, allPassed_append]
    refine (narrowParams_vouches hi hbinds params ∅).bind fun s => ?_
    exact narrow_vouches hi (binds_push hbinds params s) ret
  | frame, _, _, .array id name ty => by
    rw [narrow, Bound.uses]
    exact (arrayContents_vouches p ctx id ty).mono fun _ => allPassed_nil frame
  | frame, _, _, .fail => by
    rw [narrow]
    exact .fail

/-- Arguments after one without an interval are not narrowed, but then the check fails. -/
theorem narrowArgs_vouches (hi : ∀ frame loop, Vouches (ind frame loop) True) :
    ∀ {frame : Frame} {bound : List String}, frame.Binds bound → ∀ (bs : List Bound)
      {f : Option (List (Int64 × Int64)) → Probing Bound}, f none = fail →
      (∀ intervals, Vouches (f (some intervals)) True) →
        Vouches (narrowArgs p ctx ind frame bs >>= f)
          (AllPassed p ctx ind frame (Bound.usesOf bound bs))
  | frame, _, _, [], f, _, hsome => by
    rw [narrowArgs, Bound.usesOf, pure_bind]
    exact (hsome []).mono fun _ => allPassed_nil frame
  | frame, bound, hbinds, b :: bs, f, hnone, hsome => by
    rw [narrowArgs, Bound.usesOf, allPassed_append, bind_assoc]
    refine (narrow_vouches hi hbinds b).bind fun s => ?_
    split
    · rw [pure_bind, hnone]
      exact .fail
    · rw [bind_assoc]
      simp only [pure_bind]
      exact narrowArgs_vouches hi hbinds bs hnone fun _ => hsome _

theorem narrowParams_vouches (hi : ∀ frame loop, Vouches (ind frame loop) True) :
    ∀ {frame : Frame} {bound : List String}, frame.Binds bound →
      ∀ (bs : List (String × Bound)) (scope : Table String Bound),
        Vouches (narrowParams p ctx ind frame bs scope)
          (AllPassed p ctx ind frame (Bound.paramUses bound bs))
  | frame, _, _, [], _ => by
    rw [narrowParams, Bound.paramUses]
    exact (Vouches.pure _).mono fun _ => allPassed_nil frame
  | frame, _, hbinds, (name, b) :: bs, scope => by
    rw [narrowParams, Bound.paramUses, allPassed_append]
    exact (narrow_vouches hi hbinds b).bind fun _ => narrowParams_vouches hi hbinds bs _

end

/-- A loop variable that is narrowed in a safe check leaves it safe only if it began so. -/
lemma inductionBound_vouches (depth : Nat) (frame : Frame) (loop : LoopId) :
    Vouches (inductionBound p ctx depth frame loop) True := by
  induction depth generalizing frame loop with
  | zero => exact .fail
  | succ depth ih =>
    rw [inductionBound]
    split
    · exact .fail
    · split
      · exact .fail
      · next start stop step _ =>
        have hbinds := Frame.binds_params { frame with resolving := loop :: frame.resolving }
        refine ((narrow_vouches ih hbinds start).bind fun _ =>
          (narrow_vouches ih hbinds stop).bind fun _ => (narrow_vouches ih hbinds step).bind fun _ =>
            .of_steadyOn (inductionInterval_steadyOn _ _ _ _)).mono ?_
        exact fun _ => trivial

/-- A loop that has been narrowed in a safe check was not being narrowed before, and its range has
been narrowed in turn. -/
lemma range_of_inductionBound {depth : Nat} {frame : Frame} {loop : LoopId} {s : Probe}
    (h : ((inductionBound p ctx depth frame loop).run s).2.safe = true) :
    loop ∉ frame.resolving ∧ ∃ depth', ∀ start stop step,
      rangeParts p ctx loop = some (start, stop, step) →
        ((narrow p ctx (inductionBound p ctx depth') { frame with resolving := loop :: frame.resolving }
          (.range start stop step)).run s).2.safe = true := by
  cases depth with
  | zero => exact (Vouches.fail s h).2
  | succ depth =>
    rw [inductionBound] at h
    by_cases hmem : loop ∈ frame.resolving
    · rw [if_pos hmem] at h
      exact (Vouches.fail s h).2
    · rw [if_neg hmem] at h
      refine ⟨hmem, depth, fun start stop step hparts => ?_⟩
      rw [hparts] at h
      rw [narrow]
      exact (Vouches.of_steadyOn (inductionInterval_steadyOn _ _ _ _) _ h).1

/-- A check that comes upon a circle is not safe, whatever is around the bound. -/
theorem Circular.not_safe {loops resolving : List LoopId} {bound : List String} {b : Bound}
    (h : Circular p ctx loops resolving bound b) {frame : Frame} (hloops : frame.loops = loops)
    (hresolving : frame.resolving = resolving) (hbinds : frame.Binds bound) (depth : Nat) (s : Probe) :
    ((narrow p ctx (inductionBound p ctx depth) frame b).run s).2.safe = false := by
  rw [← Bool.not_eq_true]
  intro hsafe
  induction h generalizing frame depth s with
  | back uses named again =>
    obtain ⟨-, hpassed⟩ := narrow_vouches (inductionBound_vouches depth) hbinds _ s hsafe
    obtain ⟨inner, -, hinner, -, s', hs'⟩ := hpassed _ _ _ uses (hloops ▸ named)
    refine (range_of_inductionBound hs').1 ?_
    rw [hinner, hresolving]
    exact again
  | @onward resolving bound b name bound' loop start stop step uses named parts circle ih =>
    obtain ⟨-, hpassed⟩ := narrow_vouches (inductionBound_vouches depth) hbinds _ s hsafe
    obtain ⟨inner, hinnerLoops, hinner, hinnerBinds, s', hs'⟩ := hpassed _ _ _ uses (hloops ▸ named)
    obtain ⟨-, depth', hrange⟩ := range_of_inductionBound hs'
    -- the range of the loop is narrowed inside it, and the circle goes on from there
    refine ih ?_ ?_ ?_ depth' s' (hrange start stop step parts)
    · exact hinnerLoops.trans hloops
    · rw [hinner, hresolving]
    · exact hinnerBinds

end Evaluation

namespace Checker

variable {p : Program} {c : Checker} {b : Bound}

/-- A check under the given loops that comes upon a circle is not safe. -/
lemma check_circular {loops : List LoopId} (h : Evaluation.Circular p c.context loops [] [] b) :
    ((check p loops b).run c).2.safe = false :=
  h.not_safe rfl rfl (Frame.binds_params { loops }) _ _

lemma indexNeedsCheck_circular {loops : List LoopId} (h : Evaluation.Circular p c.context loops [] [] b)
    (size : Int64) : ((indexNeedsCheck p loops (some b) size).run c).1 = true := by
  unfold indexNeedsCheck
  simp only [StateT.run_bind, StateT.run_get, pure_bind]
  cases c.context.config.boundCheck with
  | false => rfl
  | true =>
    change (!((noteIndex ((check p loops b).run c).1 ((check p loops b).run c).2).safe &&
      ((check p loops b).run c).1.within size)) = true
    rw [noteIndex_eq]
    dsimp only
    rw [check_circular h]
    rfl

lemma operationNeedsCheck_circular {target : Occurrence}
    (hbound : c.context.overflowBounds.get? target.term.id = some b)
    (hlimits : (p.typeOf target.term).limits.isSome)
    (h : Evaluation.Circular p c.context target.loops [] [] b) :
    ((operationNeedsCheck p target).run c).1 = true := by
  obtain ⟨⟨lo, hi⟩, hlimits⟩ := Option.isSome_iff_exists.mp hlimits
  unfold operationNeedsCheck
  simp only [StateT.run_bind, StateT.run_get, pure_bind, hlimits, hbound]
  cases c.context.config.boundCheck with
  | false => rfl
  | true =>
    change (!(((check p target.loops b).run c).2.safe &&
      ((check p target.loops b).run c).1.avoids lo hi)) = true
    rw [check_circular h]
    rfl

end Checker

/-- Narrowing ends on every bound, in every context and from every state, whatever the ranges of loops
depend on: beyond the number of loops that remain the depth makes no difference. Both stacks are left
as they were found, and what it comes to is what narrowing comes to. If a loop was entered again while
it was being narrowed, the check is not safe. Nor is any check of a bound that leads into a circle: an
index or an operation with such a bound keeps its run-time check. -/
theorem Narrower.narrowing_ends_unsafe_on_circles (p : Program) (n : Narrower) (b : Bound) :
    ∃ r n' new,
      (∀ depth, (remaining n.context n.frame).card < depth →
        (evaluate p depth b).run n = some (r, n')) ∧
      n'.frame = n.frame ∧ n'.asked = new ++ n.asked ∧
      (n.context.evaluate p n.frame b).run n.probe = (r, n'.probe) ∧
      (Reentered new → n'.safe = false) ∧
      (Evaluation.Circular p n.context n.loops n.resolving n.frame.params b → n'.safe = false) ∧
      (∀ loops size, Evaluation.Circular p n.context loops [] [] b →
        ((Checker.indexNeedsCheck p loops (some b) size).run { context := n.context }).1 = true) ∧
      ∀ target : Occurrence, n.context.overflowBounds.get? target.term.id = some b →
        (p.typeOf target.term).limits.isSome →
        Evaluation.Circular p n.context target.loops [] [] b →
          ((Checker.operationNeedsCheck p target).run { context := n.context }).1 = true := by
  obtain ⟨new, hrun, hagain⟩ := evaluate_run p n b
  refine ⟨_, _, new, hrun, rfl, rfl, rfl, hagain, fun h => ?_, fun loops size h => ?_, ?_⟩
  · exact h.not_safe rfl rfl n.frame.binds_params _ _
  · exact Checker.indexNeedsCheck_circular h size
  · exact fun target hbound hlimits h => Checker.operationNeedsCheck_circular hbound hlimits h

/-! Two loops around an access, over `i` up to `j` and over `j` up to `i + 1`. -/
namespace Interlocked

def first : Term := ⟨⟨0⟩, .var "i" .int none⟩
def second : Term := ⟨⟨1⟩, .var "j" .int none⟩
def one : Term := ⟨⟨2⟩, .literal (.int 1)⟩
def next : Term := ⟨⟨3⟩, .binary .add first one .int⟩

def program : Program where
  terms := #[first, second, one, next]
  loops := #[⟨"i", .int, .symbolic none (some ⟨1⟩) none LoopRange.symbolicDefaults⟩,
    ⟨"j", .int, .symbolic none (some ⟨3⟩) none LoopRange.symbolicDefaults⟩]

def above : Bound := .binary .add (.var "i" .int) (.literal 1 .int) .int

def context : Context where
  loops := [⟨0⟩, ⟨1⟩]
  loopBounds := .ofList [
    (⟨0⟩, .range (.literal 0 .int) (.var "j" .int) (.literal 1 .int)),
    (⟨1⟩, .range (.literal 0 .int) above (.literal 1 .int))]

lemma circular : Evaluation.Circular program context [⟨0⟩, ⟨1⟩] [] [] (.var "i" .int) := by
  have hi : Evaluation.loopNamed? program context [⟨0⟩, ⟨1⟩] [] "i" = some ⟨0⟩ := by decide
  have hj : Evaluation.loopNamed? program context [⟨0⟩, ⟨1⟩] [] "j" = some ⟨1⟩ := by decide
  have hinner : Evaluation.Circular program context [⟨0⟩, ⟨1⟩] [⟨1⟩, ⟨0⟩] []
      (.range (.literal 0 .int) above (.literal 1 .int)) :=
    .back (by simp [above, Bound.uses]) hi (by simp)
  have houter : Evaluation.Circular program context [⟨0⟩, ⟨1⟩] [⟨0⟩] []
      (.range (.literal 0 .int) (.var "j" .int) (.literal 1 .int)) :=
    .onward (by simp [Bound.uses]) hj rfl hinner
  exact .onward (by simp [Bound.uses]) hi rfl houter

/-- Narrowing `i` enters both loops and comes back to the first. -/
theorem interlocked_index_kept_checked :
    ∃ r n', (Narrower.evaluate program 3 (.var "i" .int)).run ⟨context, true, [⟨0⟩, ⟨1⟩], [], [], []⟩ =
        some (r, n') ∧
      n'.asked = [(⟨0⟩, [⟨1⟩, ⟨0⟩]), (⟨1⟩, [⟨0⟩]), (⟨0⟩, [])] ∧ n'.safe = false ∧
      ((Checker.indexNeedsCheck program [⟨0⟩, ⟨1⟩] (some (.var "i" .int)) 100).run { context }).1 =
        true := by
  obtain ⟨r, n', new, hrun, -, -, -, -, hsafe, hindex, -⟩ :=
    Narrower.narrowing_ends_unsafe_on_circles program ⟨context, true, [⟨0⟩, ⟨1⟩], [], [], []⟩
      (.var "i" .int)
  have hrun := hrun 3 (by decide)
  refine ⟨r, n', hrun, ?_, hsafe circular, hindex _ _ circular⟩
  have hasked : ((Narrower.evaluate program 3 (.var "i" .int)).run
      ⟨context, true, [⟨0⟩, ⟨1⟩], [], [], []⟩).map (·.2.asked) =
        some [(⟨0⟩, [⟨1⟩, ⟨0⟩]), (⟨1⟩, [⟨0⟩]), (⟨0⟩, [])] := by decide +kernel
  rw [hrun] at hasked
  exact Option.some.inj hasked

end Interlocked

end LoopSafety
