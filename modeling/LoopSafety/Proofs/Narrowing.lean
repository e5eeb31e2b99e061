import Mathlib.Data.Finset.Card
import LoopSafety.Proofs.Scoping

/-! Narrowing with its stacks as state.

The parameters of inlined calls and the loops whose ranges are being narrowed are pushed on stacks and
popped again, on every way out. Loops may be nested to any given depth, and a recursion that goes
deeper has no result. Since a loop that is being narrowed is not entered again, every entry uses up
one of the loops that a name can stand for, and between two entries a bound is only descended. So at
any depth beyond the number of these loops the recursion ends, with both stacks as it found them, and
it does what narrowing does. It also notes which loops were asked for: where one of them was being
narrowed already, the check is not safe in the end. -/
namespace LoopSafety

/-- A probe that ends safe began so, and then something is the case. -/
def Vouches {α : Type} (m : Probing α) (fact : Prop) : Prop :=
  ∀ s, (m.run s).2.safe = true → s.safe = true ∧ fact

namespace Vouches

variable {α β : Type} {m : Probing α} {f : α → Probing β} {fact fact' : Prop}

theorem mono (h : Vouches m fact) (himp : fact → fact') : Vouches m fact' :=
  fun s hs => (h s hs).imp_right himp

theorem pure (a : α) : Vouches (Pure.pure a : Probing α) True := fun _ hs => ⟨hs, trivial⟩

theorem bind (h : Vouches m fact) (hf : ∀ s, Vouches (f (m.run s).1) fact') :
    Vouches (m >>= f) (fact ∧ fact') := by
  intro s hs
  obtain ⟨hmid, hfact'⟩ := hf s (m.run s).2 hs
  obtain ⟨hstart, hfact⟩ := h s hmid
  exact ⟨hstart, hfact, hfact'⟩

theorem fail : Vouches Evaluation.fail fact :=
  fun _ hs => absurd hs (by simp [Evaluation.fail, Evaluation.markUnsafe])

/-- A probe whose effect on the flag is one and the same. -/
theorem of_steadyOn (h : SteadyOn (fun _ => True) m) : Vouches m True := by
  obtain ⟨a, ok, hrun⟩ := h
  rintro ⟨safe, scans⟩ hs
  obtain ⟨scans', -, heq⟩ := hrun safe scans trivial
  rw [heq, Bool.and_eq_true] at hs
  exact ⟨hs.1, trivial⟩

end Vouches

lemma Evaluation.arrayContents_vouches (p : Program) (ctx : Context) (id : ArrayId) (ty : DataType) :
    Vouches (arrayContents p ctx id ty) True := by
  unfold arrayContents
  split
  · exact .fail
  · split
    · have hget : Vouches (get : Probing Probe) True := fun _ hs => ⟨hs, trivial⟩
      have hset : ∀ scans, Vouches (modify fun s : Probe => { s with scans }) True :=
        fun _ _ hs => ⟨hs, trivial⟩
      refine (hget.bind fun s => (hset _).bind fun _ => (?_ : Vouches _ True)).mono fun _ => trivial
      split
      · exact .pure _
      · exact .fail
    · exact .fail

/-- The context, the flag of the check at hand, the loops around it, and the stacks, innermost first.
-/
structure Narrower where
  context : Context
  safe : Bool := true
  loops : List LoopId := []
  scopes : List (Table String Bound) := []
  resolving : List LoopId := []
  /-- The loops asked for so far, the last one first, each with those that were being narrowed then. -/
  asked : List (LoopId × List LoopId) := []

/-- Steps of narrowing, without a result if loops are nested too deep. -/
abbrev Narrowing := StateT Narrower Option

namespace Narrower

/-- Where a bound is narrowed. -/
def frame (n : Narrower) : Frame := ⟨n.loops, n.scopes, n.resolving⟩

/-- What narrowing reads and leaves behind. -/
def probe (n : Narrower) : Probe := ⟨n.safe, n.context.scans⟩

def pushScope (scope : Table String Bound) (n : Narrower) : Narrower :=
  { n with scopes := scope :: n.scopes }

def popScope (n : Narrower) : Narrower := { n with scopes := n.scopes.tail }

def pushLoop (loop : LoopId) (n : Narrower) : Narrower :=
  { n with resolving := loop :: n.resolving }

def popLoop (n : Narrower) : Narrower := { n with resolving := n.resolving.tail }

def note (loop : LoopId) (n : Narrower) : Narrower :=
  { n with asked := (loop, n.resolving) :: n.asked }

/-- A step that reads and writes the flag and the scanned contents alone. -/
def lift {α : Type} (m : Probing α) : Narrowing α := fun n =>
  let (a, s) := m.run n.probe
  some (a, { n with context := { n.context with scans := s.scans }, safe := s.safe })

/-- Steps between a push and its pop. -/
def within {α : Type} (push pop : Narrower → Narrower) (k : Narrowing α) : Narrowing α := do
  modify push
  let a ← k
  modify pop
  return a

section

variable (p : Program) (induction : LoopId → Narrowing Bound)

/-- What a name stands for, given the bound of each loop variable. -/
def resolve (name : String) (ty : DataType) : Narrowing Bound := do
  let n ← get
  match n.scopes.findSome? (·.get? name) with
  | some bound => return bound
  | none =>
    match n.context.constants.get? name with
    | some value => return .literal value ty
    | none =>
      match Evaluation.loopOf? p n.context n.frame name with
      | some loop => induction loop
      | none => lift Evaluation.fail

mutual

/-- Narrow a bound, given the bound of each loop variable. -/
def bound : Bound → Narrowing Bound
  | .literal value ty => return .literal value ty
  | .limit lo hi ty => do
    let lo ← bound lo
    let hi ← bound hi
    lift (Evaluation.hull lo hi ty)
  | .either thenPart elsePart ty => do
    let t ← bound thenPart
    let e ← bound elsePart
    lift (Evaluation.hull t e ty)
  | .range start stop step => do
    let start ← bound start
    let stop ← bound stop
    let step ← bound step
    return .range start stop step
  | .var name ty => resolve p induction name ty
  | .binary op left right ty => do
    let l ← bound left
    let r ← bound right
    match l.interval?, r.interval? with
    | some a, some b => lift (Evaluation.binaryInterval a op b ty)
    | _, _ => lift Evaluation.fail
  | .builtin kind left right ty => do
    let l ← bound left
    let r ← bound right
    match l.interval?, r.interval? with
    | some a, some b => return .interval (kind.apply a.1 b.1) (kind.apply a.2 b.2) ty
    | _, _ => lift Evaluation.fail
  | .math fn args ty => do
    match ← bounds args with
    | some intervals => lift (Evaluation.mathInterval fn intervals ty)
    | none => lift Evaluation.fail
  | .call _ params ret _ => do
    let scope ← arguments params ∅
    within (pushScope scope) popScope (bound ret)
  | .array id _ ty => do
    let n ← get
    lift (Evaluation.arrayContents p n.context id ty)
  | .fail => lift Evaluation.fail

/-- The intervals of arguments, up to the first that has none. -/
def bounds : List Bound → Narrowing (Option (List (Int64 × Int64)))
  | [] => return some []
  | b :: bs => do
    match (← bound b).interval? with
    | none => return none
    | some interval => return (← bounds bs).map (interval :: ·)

/-- Bind parameters to their narrowed arguments. -/
def arguments : List (String × Bound) → Table String Bound → Narrowing (Table String Bound)
  | [], scope => return scope
  | (name, b) :: bs, scope => do
    let value ← bound b
    arguments bs (scope.insert name value)

end

end

/-- The bound of a loop variable, if loops are nested no deeper than given. -/
def loopBound (p : Program) : Nat → LoopId → Narrowing Bound
  | 0, _ => fun _ => none
  | depth + 1, loop => do
    modify (note loop)
    let n ← get
    if loop ∈ n.resolving then lift Evaluation.fail
    else
      match Evaluation.rangeParts p n.context loop with
      | none => lift Evaluation.fail
      | some (start, stop, step) => do
        let parts ← within (pushLoop loop) popLoop (do
          let start ← bound p (loopBound p depth) start
          let stop ← bound p (loopBound p depth) stop
          let step ← bound p (loopBound p depth) step
          return (start, stop, step))
        lift (Evaluation.inductionInterval parts.1.interval? parts.2.1.interval? parts.2.2.interval?
          (Evaluation.loopType p loop))

/-- Narrow a bound with loops nested to the given depth. -/
def evaluate (p : Program) (depth : Nat) (b : Bound) : Narrowing Bound :=
  bound p (loopBound p depth) b

/-- The loops that a name can stand for and that are not being narrowed. -/
def remaining (ctx : Context) (frame : Frame) : Finset LoopId :=
  (frame.loops ++ ctx.loops).toFinset \ frame.resolving.toFinset

/-- The state at a place, with what narrowing has left behind so far. -/
def amid (ctx : Context) (frame : Frame) (s : Probe) (asked : List (LoopId × List LoopId)) : Narrower :=
  ⟨{ ctx with scans := s.scans }, s.safe, frame.loops, frame.scopes, frame.resolving, asked⟩

/-- A loop was asked for while it was being narrowed. -/
def Reentered (asked : List (LoopId × List LoopId)) : Prop :=
  ∃ loop others, (loop, others) ∈ asked ∧ loop ∈ others

/-- At a place, steps with stacks do what a probe does, and other steps do the same. They end with the
stacks that they began with, safe only if they began so, and not safe if a loop was entered again. -/
def Follow (ctx : Context) (frame : Frame) {α : Type} (m : Probing α) (k k' : Narrowing α) : Prop :=
  ∀ s asked, ∃ new,
    k.run (amid ctx frame s asked) = some ((m.run s).1, amid ctx frame (m.run s).2 (new ++ asked)) ∧
    k'.run (amid ctx frame s asked) = k.run (amid ctx frame s asked) ∧
    ((m.run s).2.safe = true → s.safe = true ∧ ¬Reentered new)

namespace Follow

variable {ctx : Context} {frame frame' : Frame} {α β : Type} {m : Probing α} {k k' : Narrowing α}
  {f : α → Probing β} {g g' : α → Narrowing β}

theorem pure (a : α) : Follow ctx frame (Pure.pure a) (Pure.pure a) (Pure.pure a) :=
  fun s asked => ⟨[], rfl, rfl, fun hs => ⟨hs, by simp [Reentered]⟩⟩

theorem bind (h : Follow ctx frame m k k') (hf : ∀ a, Follow ctx frame (f a) (g a) (g' a)) :
    Follow ctx frame (m >>= f) (k >>= g) (k' >>= g') := by
  intro s asked
  obtain ⟨new, hrun, hrun', hsafe⟩ := h s asked
  obtain ⟨more, hnext, hnext', hsafe'⟩ := hf (m.run s).1 (m.run s).2 (new ++ asked)
  refine ⟨more ++ new, ?_, ?_, fun hend => ?_⟩
  · rw [StateT.run_bind, hrun, List.append_assoc]
    exact hnext
  · rw [StateT.run_bind, StateT.run_bind, hrun', hrun]
    exact hnext'
  · obtain ⟨hmid, hmore⟩ := hsafe' hend
    obtain ⟨hstart, hnew⟩ := hsafe hmid
    refine ⟨hstart, ?_⟩
    rintro ⟨loop, others, hmem, hothers⟩
    rcases List.mem_append.mp hmem with hmem | hmem
    · exact hmore ⟨loop, others, hmem, hothers⟩
    · exact hnew ⟨loop, others, hmem, hothers⟩

/-- What a probe does is done without the stacks. -/
theorem lift (h : Vouches m True) : Follow ctx frame m (Narrower.lift m) (Narrower.lift m) :=
  fun s asked => ⟨[], rfl, rfl, fun hs => ⟨(h s hs).1, by simp [Reentered]⟩⟩

theorem fail : Follow ctx frame Evaluation.fail (Narrower.lift Evaluation.fail)
    (Narrower.lift Evaluation.fail) :=
  .lift .fail

/-- Between a push and its pop, the steps are taken at another place. -/
theorem within {push pop : Narrower → Narrower}
    (hpush : ∀ s asked, push (amid ctx frame s asked) = amid ctx frame' s asked)
    (hpop : ∀ s asked, pop (amid ctx frame' s asked) = amid ctx frame s asked)
    (h : Follow ctx frame' m k k') :
    Follow ctx frame m (Narrower.within push pop k) (Narrower.within push pop k') := by
  have hwithin (k : Narrowing α) (s : Probe) (asked : List (LoopId × List LoopId)) :
      (Narrower.within push pop k).run (amid ctx frame s asked) =
        (k.run (amid ctx frame' s asked)).map fun out => (out.1, pop out.2) := by
    rw [← hpush]
    change (k.run (push (amid ctx frame s asked))).bind _ = _
    cases k.run (push (amid ctx frame s asked)) with
    | none => rfl
    | some out => rfl
  intro s asked
  obtain ⟨new, hrun, hrun', hsafe⟩ := h s asked
  refine ⟨new, ?_, ?_, hsafe⟩
  · rw [hwithin, hrun, Option.map_some, hpop]
  · rw [hwithin, hwithin, hrun']

/-- A loop that is asked for is noted. If it is being narrowed, the check must fail. -/
theorem note {loop : LoopId} (h : Follow ctx frame m k k')
    (hloop : loop ∈ frame.resolving → Vouches m False) :
    Follow ctx frame m (do modify (Narrower.note loop); k) (do modify (Narrower.note loop); k') := by
  intro s asked
  obtain ⟨new, hrun, hrun', hsafe⟩ := h s ((loop, frame.resolving) :: asked)
  refine ⟨new ++ [(loop, frame.resolving)], ?_, hrun', fun hend => ⟨(hsafe hend).1, ?_⟩⟩
  · rw [List.append_assoc]
    exact hrun
  · rintro ⟨loop', others, hmem, hothers⟩
    rcases List.mem_append.mp hmem with hmem | hmem
    · exact (hsafe hend).2 ⟨loop', others, hmem, hothers⟩
    · cases List.mem_singleton.mp hmem
      exact (hloop hothers s hend).2

/-- The state is read. -/
theorem read {g g' : Narrower → Narrowing α}
    (h : ∀ s asked, Follow ctx frame m (g (amid ctx frame s asked)) (g' (amid ctx frame s asked))) :
    Follow ctx frame m (do g (← get)) (do g' (← get)) :=
  fun s asked => h s asked s asked

end Follow

section

variable {p : Program} {ctx : Context} {ind : Frame → LoopId → Probing Bound}
  {ind₁ ind₂ : LoopId → Narrowing Bound}

lemma resolve_follow {frame : Frame}
    (hi : ∀ loop ∈ frame.loops ++ ctx.loops, Follow ctx frame (ind frame loop) (ind₁ loop) (ind₂ loop))
    (name : String) (ty : DataType) :
    Follow ctx frame (Evaluation.resolve p ctx ind frame name ty) (resolve p ind₁ name ty)
      (resolve p ind₂ name ty) := by
  refine .read fun s asked => ?_
  have hscopes : (amid ctx frame s asked).scopes = frame.scopes := rfl
  have hconstants : (amid ctx frame s asked).context.constants = ctx.constants := rfl
  have hloop : Evaluation.loopOf? p (amid ctx frame s asked).context (amid ctx frame s asked).frame
      name = Evaluation.loopOf? p ctx frame name := rfl
  unfold Evaluation.resolve
  rw [hscopes, hconstants, hloop]
  cases frame.scopes.findSome? (·.get? name) with
  | some b => exact .pure b
  | none =>
    cases ctx.constants.get? name with
    | some value => exact .pure (Bound.literal value ty)
    | none =>
      cases hfound : Evaluation.loopOf? p ctx frame name with
      | none => exact .fail
      | some loop =>
        have hmem := List.mem_of_find?_eq_some hfound
        exact hi loop (by simpa using hmem)

/-- Wherever parameters are bound, the bounds of the loop variables that a name can stand for are
followed. -/
def FollowLoops (ctx : Context) (ind : Frame → LoopId → Probing Bound)
    (ind₁ ind₂ : LoopId → Narrowing Bound) (frame : Frame) : Prop :=
  ∀ inner : Frame, inner.loops = frame.loops → inner.resolving = frame.resolving →
    ∀ loop ∈ frame.loops ++ ctx.loops, Follow ctx inner (ind inner loop) (ind₁ loop) (ind₂ loop)

mutual

/-- Narrowing with stacks follows narrowing, if the bounds of loop variables do. -/
theorem bound_follow : ∀ {frame : Frame}, FollowLoops ctx ind ind₁ ind₂ frame → ∀ b : Bound,
    Follow ctx frame (Evaluation.narrow p ctx ind frame b) (bound p ind₁ b) (bound p ind₂ b)
  | _, _, .literal _ _ => by
    rw [Evaluation.narrow, bound, bound]
    exact .pure _
  | _, hi, .limit lo hi' ty => by
    rw [Evaluation.narrow, bound, bound]
    exact .bind (bound_follow hi lo) fun _ => .bind (bound_follow hi hi') fun _ =>
      .lift (.of_steadyOn (Evaluation.hull_steadyOn _ _ _))
  | _, hi, .either t e ty => by
    rw [Evaluation.narrow, bound, bound]
    exact .bind (bound_follow hi t) fun _ => .bind (bound_follow hi e) fun _ =>
      .lift (.of_steadyOn (Evaluation.hull_steadyOn _ _ _))
  | _, hi, .range start stop step => by
    rw [Evaluation.narrow, bound, bound]
    exact .bind (bound_follow hi start) fun _ => .bind (bound_follow hi stop) fun _ =>
      .bind (bound_follow hi step) fun _ => .pure _
  | frame, hi, .var name ty => by
    rw [Evaluation.narrow, bound, bound]
    exact resolve_follow (hi frame rfl rfl) name ty
  | _, hi, .binary op left right ty => by
    rw [Evaluation.narrow, bound, bound]
    refine .bind (bound_follow hi left) fun l => .bind (bound_follow hi right) fun r => ?_
    rcases l.interval? with _ | a
    · exact .fail
    · rcases r.interval? with _ | b
      · exact .fail
      · exact .lift (.of_steadyOn (Evaluation.binaryInterval_steadyOn a op b ty))
  | _, hi, .builtin kind left right ty => by
    rw [Evaluation.narrow, bound, bound]
    refine .bind (bound_follow hi left) fun l => .bind (bound_follow hi right) fun r => ?_
    rcases l.interval? with _ | a
    · exact .fail
    · rcases r.interval? with _ | b
      · exact .fail
      · exact .pure _
  | _, hi, .math fn args ty => by
    rw [Evaluation.narrow, bound, bound]
    refine .bind (bounds_follow hi args) fun intervals => ?_
    rcases intervals with _ | intervals
    · exact .fail
    · exact .lift (.of_steadyOn (Evaluation.mathInterval_steadyOn fn intervals ty))
  | frame, hi, .call name params ret ty => by
    rw [Evaluation.narrow, bound, bound]
    refine .bind (arguments_follow hi params ∅) fun scope => ?_
    have hret : Follow ctx (frame.push scope) (Evaluation.narrow p ctx ind (frame.push scope) ret)
        (bound p ind₁ ret) (bound p ind₂ ret) := by
      refine bound_follow ?_ ret
      exact hi
    exact .within (fun _ _ => rfl) (fun _ _ => rfl) hret
  | _, _, .array id name ty => by
    rw [Evaluation.narrow, bound, bound]
    exact .read fun _ _ => .lift (Evaluation.arrayContents_vouches p ctx id ty)
  | _, _, .fail => by
    rw [Evaluation.narrow, bound, bound]
    exact .fail

theorem bounds_follow : ∀ {frame : Frame}, FollowLoops ctx ind ind₁ ind₂ frame → ∀ bs : List Bound,
    Follow ctx frame (Evaluation.narrowArgs p ctx ind frame bs) (bounds p ind₁ bs) (bounds p ind₂ bs)
  | _, _, [] => by
    rw [Evaluation.narrowArgs, bounds, bounds]
    exact .pure _
  | _, hi, b :: bs => by
    rw [Evaluation.narrowArgs, bounds, bounds]
    refine .bind (bound_follow hi b) fun r => ?_
    rcases r.interval? with _ | interval
    · exact .pure _
    · exact .bind (bounds_follow hi bs) fun _ => .pure _

theorem arguments_follow : ∀ {frame : Frame}, FollowLoops ctx ind ind₁ ind₂ frame →
    ∀ (bs : List (String × Bound)) (scope : Table String Bound),
      Follow ctx frame (Evaluation.narrowParams p ctx ind frame bs scope) (arguments p ind₁ bs scope)
        (arguments p ind₂ bs scope)
  | _, _, [], scope => by
    rw [Evaluation.narrowParams, arguments, arguments]
    exact .pure _
  | _, hi, (name, b) :: bs, scope => by
    rw [Evaluation.narrowParams, arguments, arguments]
    exact .bind (bound_follow hi b) fun _ => arguments_follow hi bs _

end

lemma remaining_push {frame : Frame} {loop : LoopId} (hloop : loop ∈ frame.loops ++ ctx.loops)
    (hresolving : loop ∉ frame.resolving) :
    (remaining ctx { frame with resolving := loop :: frame.resolving }).card <
      (remaining ctx frame).card := by
  have herase : remaining ctx { frame with resolving := loop :: frame.resolving } =
      (remaining ctx frame).erase loop := by
    rw [remaining, remaining, List.toFinset_cons, Finset.sdiff_insert]
  rw [herase]
  refine Finset.card_erase_lt_of_mem (Finset.mem_sdiff.mpr ⟨?_, ?_⟩)
  · exact List.mem_toFinset.mpr hloop
  · exact fun hmem => hresolving (List.mem_toFinset.mp hmem)

/-- Which loops remain is not a matter of parameters. -/
lemma remaining_congr {frame inner : Frame} (hloops : inner.loops = frame.loops)
    (hresolving : inner.resolving = frame.resolving) : remaining ctx inner = remaining ctx frame := by
  rw [remaining, remaining, hloops, hresolving]

/-- Every loop that is entered is one less of those that remain, so no depth beyond their number is
used up, neither with stacks nor without. -/
theorem loopBound_follow {depth depth₁ depth₂ : Nat} {frame : Frame} {loop : LoopId}
    (hloop : loop ∈ frame.loops ++ ctx.loops) (hdepth : (remaining ctx frame).card < depth)
    (hdepth₁ : (remaining ctx frame).card < depth₁) (hdepth₂ : (remaining ctx frame).card < depth₂) :
    Follow ctx frame (Evaluation.inductionBound p ctx depth frame loop) (loopBound p depth₁ loop)
      (loopBound p depth₂ loop) := by
  induction depth generalizing depth₁ depth₂ frame loop with
  | zero => omega
  | succ depth ih =>
    obtain ⟨depth₁, rfl⟩ := Nat.exists_eq_add_one_of_ne_zero (Nat.ne_zero_of_lt hdepth₁)
    obtain ⟨depth₂, rfl⟩ := Nat.exists_eq_add_one_of_ne_zero (Nat.ne_zero_of_lt hdepth₂)
    rw [loopBound, loopBound, Evaluation.inductionBound]
    by_cases hmem : loop ∈ frame.resolving
    · rw [if_pos hmem]
      refine .note (.read fun s asked => ?_) fun _ => .fail
      rw [if_pos (show loop ∈ (amid ctx frame s asked).resolving from hmem),
        if_pos (show loop ∈ (amid ctx frame s asked).resolving from hmem)]
      exact .fail
    · rw [if_neg hmem]
      refine .note (.read fun s asked => ?_) fun h => absurd h hmem
      have hparts : Evaluation.rangeParts p (amid ctx frame s asked).context loop =
          Evaluation.rangeParts p ctx loop := rfl
      rw [if_neg (show loop ∉ (amid ctx frame s asked).resolving from hmem),
        if_neg (show loop ∉ (amid ctx frame s asked).resolving from hmem), hparts]
      rcases Evaluation.rangeParts p ctx loop with _ | ⟨start, stop, step⟩
      · exact .fail
      · -- the parts are narrowed with the loop on its stack, so one loop less remains
        have hless := remaining_push hloop hmem
        have hpart (b : Bound) : Follow ctx { frame with resolving := loop :: frame.resolving }
            (Evaluation.narrow p ctx (Evaluation.inductionBound p ctx depth)
              { frame with resolving := loop :: frame.resolving } b)
            (bound p (loopBound p depth₁) b) (bound p (loopBound p depth₂) b) := by
          refine bound_follow (fun inner hloops hresolving loop' hloop' => ?_) b
          rw [← remaining_congr hloops hresolving] at hless
          refine ih ?_ (by omega) (by omega) (by omega)
          rw [hloops]
          exact hloop'
        have hrange : Follow ctx frame _ (within (pushLoop loop) popLoop do
            let start ← bound p (loopBound p depth₁) start
            let stop ← bound p (loopBound p depth₁) stop
            let step ← bound p (loopBound p depth₁) step
            return (start, stop, step)) _ :=
          .within (fun _ _ => rfl) (fun _ _ => rfl) (.bind (hpart start) fun _ =>
            .bind (hpart stop) fun _ => .bind (hpart step) fun _ => .pure _)
        have hall := hrange.bind fun parts => .lift (.of_steadyOn (Evaluation.inductionInterval_steadyOn
          parts.1.interval? parts.2.1.interval? parts.2.2.interval? (Evaluation.loopType p loop)))
        simpa only [bind_assoc, pure_bind] using hall

lemma remaining_card_lt_depth (ctx : Context) (frame : Frame) :
    (remaining ctx frame).card < Evaluation.depth ctx frame := by
  have hsubset : (remaining ctx frame).card ≤ (frame.loops ++ ctx.loops).toFinset.card :=
    Finset.card_le_card Finset.sdiff_subset
  have hlength := List.toFinset_card_le (frame.loops ++ ctx.loops)
  rw [List.length_append] at hlength
  unfold Evaluation.depth
  omega

/-- At any depth beyond the number of loops that remain, the stacks make no difference. -/
theorem evaluate_follow {frame : Frame} {depth₁ depth₂ : Nat}
    (hdepth₁ : (remaining ctx frame).card < depth₁) (hdepth₂ : (remaining ctx frame).card < depth₂)
    (b : Bound) :
    Follow ctx frame (ctx.evaluate p frame b) (evaluate p depth₁ b) (evaluate p depth₂ b) := by
  refine bound_follow (fun inner hloops hresolving loop hloop => ?_) b
  have hdepth := remaining_card_lt_depth ctx frame
  rw [← remaining_congr hloops hresolving] at hdepth hdepth₁ hdepth₂
  refine loopBound_follow ?_ hdepth hdepth₁ hdepth₂
  rw [hloops]
  exact hloop

end

/-- Narrowing with stacks ends, with one outcome at every depth beyond the number of loops that
remain. -/
theorem evaluate_run (p : Program) (n : Narrower) (b : Bound) :
    ∃ new, (∀ depth, (remaining n.context n.frame).card < depth →
      (evaluate p depth b).run n =
        some (((n.context.evaluate p n.frame b).run n.probe).1,
          amid n.context n.frame ((n.context.evaluate p n.frame b).run n.probe).2 (new ++ n.asked))) ∧
      (Reentered new → ((n.context.evaluate p n.frame b).run n.probe).2.safe = false) := by
  obtain ⟨new, hrun, -, hsafe⟩ := evaluate_follow (p := p) (Nat.lt_succ_self _) (Nat.lt_succ_self _) b
    n.probe n.asked
  refine ⟨new, fun depth hdepth => ?_, fun hagain => ?_⟩
  · obtain ⟨_, -, hsame, -⟩ := evaluate_follow (p := p) (Nat.lt_succ_self _) hdepth b n.probe
      n.asked
    exact hsame.trans hrun
  · rw [← Bool.not_eq_true]
    exact fun hend => (hsafe hend).2 hagain

end Narrower

end LoopSafety
