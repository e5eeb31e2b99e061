import LoopSafety.Proofs.SharedLoops

/-! Scalars of one iteration.

The subscript test lists the accesses of a body once, in the order of the text; a run skips branches
and repeats inner loops. A scalar is private to an iteration if no run of the body reads it before
writing it. The list shows this: all that comes before the first write outside of branches and inner
loops is free of reads, and every run passes through this write. -/
namespace LoopSafety

namespace Nest

/-- One access to a scalar. -/
inductive Access where
  | read (name : String)
  | write (name : String)

mutual

/-- The accesses of an expression in one evaluation. A selection may evaluate one of its parts or
both, a logical operator may be settled by its first operand, and a call may do anything. -/
inductive Expr.Trace : Expr → List Access → Prop
  | var (x) : Trace (.var x) [.read x]
  | literal (n) : Trace (.literal n) []
  | binary {op lhs rhs t₁ t₂} (first : lhs.Trace t₁) (second : rhs.Trace t₂) :
      Trace (.binary op lhs rhs) (t₁ ++ t₂)
  | settled {op lhs rhs t} (logical : op = .logicalAnd ∨ op = .logicalOr) (first : lhs.Trace t) :
      Trace (.binary op lhs rhs) t
  | unary {op e t} (operand : e.Trace t) : Trace (.unary op e) t
  | subscript {array indices t} (place : Expr.TraceOf indices t) :
      Trace (.subscript array indices) t
  | ternaryThen {c t e t₁ t₂} (condition : c.Trace t₁) (taken : t.Trace t₂) :
      Trace (.ternary c t e) (t₁ ++ t₂)
  | ternaryElse {c t e t₁ t₂} (condition : c.Trace t₁) (taken : e.Trace t₂) :
      Trace (.ternary c t e) (t₁ ++ t₂)
  | ternaryBoth {c t e t₁ t₂ t₃} (condition : c.Trace t₁) (first : t.Trace t₂)
      (second : e.Trace t₃) : Trace (.ternary c t e) (t₁ ++ t₂ ++ t₃)
  | intrinsic {name args t} (operands : Expr.TraceOf args t) : Trace (.intrinsic name args) t
  | call {name args t inside} (operands : Expr.TraceOf args t) :
      Trace (.call name args) (t ++ inside)

inductive Expr.TraceOf : List Expr → List Access → Prop
  | nil : TraceOf [] []
  | cons {e es t₁ t₂} (head : e.Trace t₁) (tail : Expr.TraceOf es t₂) : TraceOf (e :: es) (t₁ ++ t₂)

end

mutual

/-- The accesses of a statement in one execution, and how it ends. -/
inductive Stmt.Trace : Stmt → List Access → Exit → Prop
  | assignScalar {label x value t} (evaluated : value.Trace t) :
      Trace (.assign label (.var x) value) (t ++ [.write x]) .normal
  | assignCell {label array indices value t₁ t₂} (evaluated : value.Trace t₁)
      (place : Expr.TraceOf indices t₂) :
      Trace (.assign label (.subscript array indices) value) (t₁ ++ t₂) .normal
  | assignOther {label target value t₁ t₂} (notScalar : ∀ x, target ≠ .var x)
      (notCell : ∀ array indices, target ≠ .subscript array indices) (evaluated : value.Trace t₁)
      (place : target.Trace t₂) : Trace (.assign label target value) (t₁ ++ t₂) .normal
  | expr {label e t} (evaluated : e.Trace t) : Trace (.expr label e) t .normal
  | condThen {label c thenPart elsePart t₁ t₂ exit} (condition : c.Trace t₁)
      (taken : Stmt.TraceOf thenPart t₂ exit) :
      Trace (.cond label c thenPart elsePart) (t₁ ++ t₂) exit
  | condElse {label c thenPart elsePart t₁ t₂ exit} (condition : c.Trace t₁)
      (taken : Stmt.TraceOf elsePart t₂ exit) :
      Trace (.cond label c thenPart elsePart) (t₁ ++ t₂) exit
  | loop {head : LoopHead} {body t₁ t₂ t₃ t₄} (start : head.start.Trace t₁)
      (stop : head.stop.Trace t₂) (step : head.step.Trace t₃)
      (trips : Stmt.TripsOf head.induction body t₄) :
      Trace (.loop head body) (t₁ ++ t₂ ++ t₃ ++ [.write head.induction] ++ t₄) .normal
  | brk (label) : Trace (.brk label) [] .broken

inductive Stmt.TraceOf : List Stmt → List Access → Exit → Prop
  | nil : TraceOf [] [] .normal
  | cons {stmt stmts t₁ t₂ exit} (first : stmt.Trace t₁ .normal) (rest : Stmt.TraceOf stmts t₂ exit) :
      TraceOf (stmt :: stmts) (t₁ ++ t₂) exit
  | stop {stmt stmts t} (first : stmt.Trace t .broken) : TraceOf (stmt :: stmts) t .broken

/-- Any number of iterations of a body. A loop may or may not write its variable anew before a
further one. -/
inductive Stmt.TripsOf : String → List Stmt → List Access → Prop
  | done (x body) : TripsOf x body []
  | next {x body t₁ t₂} (trip : Stmt.TraceOf body t₁ .normal) (rest : Stmt.TripsOf x body t₂) :
      TripsOf x body (t₁ ++ t₂)
  | stepped {x body t₁ t₂} (trip : Stmt.TraceOf body t₁ .normal) (rest : Stmt.TripsOf x body t₂) :
      TripsOf x body (t₁ ++ [.write x] ++ t₂)
  | broken {x body t} (trip : Stmt.TraceOf body t .broken) : TripsOf x body t

end

/-- No read of a scalar comes before some write of it. -/
def Private (x : String) (trace : List Access) : Prop :=
  ∀ before after, trace = before ++ .read x :: after → .write x ∈ before

section

variable {x : String} {t t₁ t₂ : List Access}

lemma Private.of_unread (h : .read x ∉ t) : Private x t := by
  rintro before after rfl
  simp at h

/-- After a write anything may follow. -/
lemma Private.append_of_written (h : Private x t₁) (hwrite : .write x ∈ t₁) (t₂ : List Access) :
    Private x (t₁ ++ t₂) := by
  intro before after heq
  rcases List.append_eq_append_iff.mp heq with ⟨between, rfl, -⟩ | ⟨between, rfl, hafter⟩
  · exact List.mem_append_left between hwrite
  · cases between with
    | nil => simpa using hwrite
    | cons a rest =>
      obtain ⟨rfl, -⟩ := List.cons.inj hafter
      exact h before rest rfl

/-- Before an iteration's first read anything but a read may come. -/
lemma Private.append_of_unread (hunread : .read x ∉ t₁) (h : Private x t₂) :
    Private x (t₁ ++ t₂) := by
  intro before after heq
  rcases List.append_eq_append_iff.mp heq with ⟨between, rfl, ht₂⟩ | ⟨between, rfl, hafter⟩
  · exact List.mem_append_right t₁ (h between after ht₂)
  · cases between with
    | nil => simpa using h [] after (by simpa using hafter.symm)
    | cons a rest =>
      obtain ⟨rfl, -⟩ := List.cons.inj hafter
      simp at hunread

end

/-- Effects without calls, breaks and reads of a scalar. -/
structure Unread (x : String) (effects : List Effect) : Prop where
  known : Effect.unknown ∉ effects
  unread : ∀ conditional, Effect.scalar x false conditional ∉ effects

variable {x : String} {effects : List Effect}

mutual

theorem Expr.Trace.unread (unread : Unread x effects) {conditional : Bool} {label : String} :
    ∀ {e : Expr} {t : List Access}, e.Trace t → e.effects conditional label ⊆ effects → .read x ∉ t
  | _, _, .var y, h => by
    have hmem := h List.mem_cons_self
    rintro hread
    obtain ⟨rfl⟩ := List.mem_singleton.mp hread
    exact unread.unread conditional hmem
  | _, _, .literal _, _ => List.not_mem_nil
  | _, _, .binary first second, h => by
    rw [Expr.effects, List.append_subset] at h
    simp [first.unread unread h.1, second.unread unread h.2]
  | _, _, .settled _ first, h => by
    rw [Expr.effects, List.append_subset] at h
    exact first.unread unread h.1
  | _, _, .unary operand, h => operand.unread unread h
  | _, _, .subscript place, h => by
    rw [Expr.effects, List.append_subset] at h
    exact place.unread unread h.1
  | _, _, .ternaryThen condition taken, h => by
    rw [Expr.effects, List.append_subset, List.append_subset] at h
    simp [condition.unread unread h.1.1, taken.unread unread h.1.2]
  | _, _, .ternaryElse condition taken, h => by
    rw [Expr.effects, List.append_subset, List.append_subset] at h
    simp [condition.unread unread h.1.1, taken.unread unread h.2]
  | _, _, .ternaryBoth condition first second, h => by
    rw [Expr.effects, List.append_subset, List.append_subset] at h
    simp [condition.unread unread h.1.1, first.unread unread h.1.2, second.unread unread h.2]
  | _, _, .intrinsic operands, h => operands.unread unread h
  | _, _, .call _, h => absurd (h List.mem_cons_self) unread.known

theorem Expr.TraceOf.unread (unread : Unread x effects) {conditional : Bool} {label : String} :
    ∀ {es : List Expr} {t : List Access}, Expr.TraceOf es t →
      Expr.effectsOf conditional label es ⊆ effects → .read x ∉ t
  | _, _, .nil, _ => List.not_mem_nil
  | _, _, .cons head tail, h => by
    rw [Expr.effectsOf, List.append_subset] at h
    simp [head.unread unread h.1, tail.unread unread h.2]

end

mutual

/-- A statement whose effects hold no read of a scalar reads it in no run. -/
theorem Stmt.Trace.unread (unread : Unread x effects) {conditional : Bool} :
    ∀ {s : Stmt} {t : List Access} {exit : Exit}, s.Trace t exit →
      s.effects conditional ⊆ effects → .read x ∉ t
  | _, _, _, .assignScalar evaluated, h => by
    rw [Stmt.effects, List.append_subset] at h
    simp [evaluated.unread unread h.1]
  | _, _, _, .assignCell evaluated place, h => by
    rw [Stmt.effects, Expr.targetEffects, List.append_subset, List.append_subset] at h
    simp [evaluated.unread unread h.1, place.unread unread h.2.1]
  | _, _, _, .assignOther hscalar hcell evaluated place, h => by
    rw [Stmt.effects, Expr.targetEffects_other hscalar hcell, List.append_subset] at h
    simp [evaluated.unread unread h.1, place.unread unread h.2]
  | _, _, _, .expr evaluated, h => evaluated.unread unread h
  | _, _, _, .condThen condition taken, h => by
    rw [Stmt.effects, List.append_subset, List.append_subset] at h
    simp [condition.unread unread h.1.1, taken.unread unread h.1.2]
  | _, _, _, .condElse condition taken, h => by
    rw [Stmt.effects, List.append_subset, List.append_subset] at h
    simp [condition.unread unread h.1.1, taken.unread unread h.2]
  | _, _, _, .loop start stop step trips, h => by
    rw [Stmt.effects, LoopHead.effects, List.append_subset, List.append_subset, List.append_subset,
      List.append_subset] at h
    obtain ⟨⟨⟨⟨hstart, hstop⟩, hstep⟩, -⟩, hbody⟩ := h
    simp [start.unread unread hstart, stop.unread unread hstop, step.unread unread hstep,
      trips.unread unread hbody]
  | _, _, _, .brk _, _ => List.not_mem_nil

theorem Stmt.TraceOf.unread (unread : Unread x effects) {conditional : Bool} :
    ∀ {ss : List Stmt} {t : List Access} {exit : Exit}, Stmt.TraceOf ss t exit →
      Stmt.effectsOf conditional ss ⊆ effects → .read x ∉ t
  | _, _, _, .nil, _ => List.not_mem_nil
  | _, _, _, .cons first rest, h => by
    rw [Stmt.effectsOf, List.append_subset] at h
    simp [first.unread unread h.1, rest.unread unread h.2]
  | _, _, _, .stop first, h => by
    rw [Stmt.effectsOf, List.append_subset] at h
    exact first.unread unread h.1

theorem Stmt.TripsOf.unread (unread : Unread x effects) {conditional : Bool} :
    ∀ {y : String} {body : List Stmt} {t : List Access}, Stmt.TripsOf y body t →
      Stmt.effectsOf conditional body ⊆ effects → .read x ∉ t
  | _, _, _, .done _ _, _ => List.not_mem_nil
  | _, _, _, .next trip rest, h => by
    simp [trip.unread unread h, rest.unread unread h]
  | _, _, _, .stepped trip rest, h => by
    simp [trip.unread unread h, rest.unread unread h]
  | _, _, _, .broken trip, h => trip.unread unread h

end

mutual

/-- Inside a branch or an inner loop every write is conditional. -/
theorem Stmt.not_sure : ∀ s : Stmt, Effect.scalar x true false ∉ s.effects true
  | .assign label target value => by
    rw [effects, List.mem_append]
    rintro (h | h)
    · exact value.not_written true label false h
    · obtain rfl := Expr.written_target h
      simp [Expr.targetEffects] at h
  | .expr label e => e.not_written true label false
  | .cond label c thenPart elsePart => by
    simp [effects, c.not_written true label false, Stmt.not_sureOf thenPart,
      Stmt.not_sureOf elsePart]
  | .loop head body => by
    simp [effects, LoopHead.effects, head.start.not_written true head.label false,
      head.stop.not_written true head.label false, head.step.not_written true head.label false,
      Stmt.not_sureOf body]
  | .brk _ => by simp [effects]

theorem Stmt.not_sureOf : ∀ ss : List Stmt, Effect.scalar x true false ∉ Stmt.effectsOf true ss
  | [] => List.not_mem_nil
  | s :: ss => by simp [Stmt.effectsOf, s.not_sure, Stmt.not_sureOf ss]

end

/-- What settles a scalar is a read or a write that always happens. -/
lemma Effect.settles_iff {e : Effect} :
    e.settles x ↔ (∃ conditional, e = .scalar x false conditional) ∨ e = .scalar x true false := by
  cases e with
  | scalar y write conditional => cases write <;> cases conditional <;> simp [settles]
  | cell array indices write label => simp [settles]
  | unknown => simp [settles]

/-- A write of a scalar that always happens comes before all reads of it. -/
def WrittenFirst (x : String) (effects : List Effect) : Prop :=
  ∃ before after, effects = before ++ .scalar x true false :: after ∧
    ∀ conditional, Effect.scalar x false conditional ∉ before

/-- That is, the first access that settles the scalar is a write. -/
lemma writtenFirst_iff :
    WrittenFirst x effects ↔ effects.find? (·.settles x) = some (.scalar x true false) := by
  constructor
  · rintro ⟨before, after, rfl, hunread⟩
    rw [List.find?_append]
    cases hfind : before.find? (·.settles x) with
    | none => simp [Effect.settles]
    | some e =>
      rcases Effect.settles_iff.mp (List.find?_some hfind) with ⟨conditional, rfl⟩ | rfl
      · exact absurd (List.mem_of_find?_eq_some hfind) (hunread conditional)
      · rfl
  · intro h
    obtain ⟨-, before, after, rfl, hbefore⟩ := List.find?_eq_some_iff_append.mp h
    refine ⟨before, after, rfl, fun conditional hmem => ?_⟩
    simpa [Effect.settles] using hbefore _ hmem

lemma unread_of_find?_eq_none (hknown : Effect.unknown ∉ effects)
    (h : effects.find? (·.settles x) = none) : Unread x effects := by
  refine ⟨hknown, fun conditional hmem => ?_⟩
  exact List.find?_eq_none.mp h _ hmem (Effect.settles_iff.mpr (.inl ⟨conditional, rfl⟩))

/-- A scalar that is not carried is either read nowhere or written first. -/
lemma Loop.find?_of_uncarried (h : ¬Loop.carries effects x) :
    effects.find? (·.settles x) = none ∨ WrittenFirst x effects := by
  unfold Loop.carries at h
  rw [writtenFirst_iff]
  cases hfind : effects.find? (·.settles x) with
  | none => exact .inl rfl
  | some e =>
    rw [hfind, Option.any_some] at h
    rcases Effect.settles_iff.mp (List.find?_some hfind) with ⟨conditional, rfl⟩ | rfl
    · exact absurd rfl h
    · exact .inr rfl

lemma Loop.carries_append {first rest : List Effect} : Loop.carries (first ++ rest) x =
    if (first.find? (·.settles x)).isSome then Loop.carries first x else Loop.carries rest x := by
  unfold Loop.carries
  rw [List.find?_append]
  cases first.find? (·.settles x) <;> simp

lemma WrittenFirst.mem (h : WrittenFirst x effects) : Effect.scalar x true false ∈ effects :=
  List.mem_of_find?_eq_some (writtenFirst_iff.mp h)

lemma WrittenFirst.append_iff {first rest : List Effect} :
    WrittenFirst x (first ++ rest) ↔
      WrittenFirst x first ∨ first.find? (·.settles x) = none ∧ WrittenFirst x rest := by
  rw [writtenFirst_iff, writtenFirst_iff, writtenFirst_iff, List.find?_append]
  cases first.find? (·.settles x) <;> simp

/-- Effects that hold no sure write come before the one that is written first. -/
lemma WrittenFirst.of_append {first rest : List Effect} (h : WrittenFirst x (first ++ rest))
    (hfirst : Effect.scalar x true false ∉ first) :
    first.find? (·.settles x) = none ∧ WrittenFirst x rest := by
  rcases append_iff.mp h with h | h
  · exact absurd h.mem hfirst
  · exact h

/-- A statement that is sure to write a scalar before it reads it does so in every run. -/
theorem Stmt.Trace.written {s : Stmt} {t : List Access} {exit : Exit} (h : s.Trace t exit)
    (hknown : Effect.unknown ∉ s.effects false) (hfirst : WrittenFirst x (s.effects false)) :
    Private x t ∧ .write x ∈ t := by
  cases s with
  | assign label target value =>
    rw [Stmt.effects] at hfirst hknown
    obtain ⟨hvalue, htarget⟩ := hfirst.of_append (value.not_written false label false)
    obtain rfl := Expr.written_target htarget.mem
    have hunread := unread_of_find?_eq_none (fun hu => hknown (List.mem_append_left _ hu)) hvalue
    cases h with
    | assignScalar evaluated =>
      have hreads := evaluated.unread hunread (List.Subset.refl _)
      exact ⟨.append_of_unread hreads (.of_unread (by simp)), by simp⟩
    | assignOther hscalar => exact absurd rfl (hscalar x)
  | expr label e => exact absurd hfirst.mem (e.not_written false label false)
  | cond label c thenPart elsePart =>
    have hmem := hfirst.mem
    simp [Stmt.effects, c.not_written false label false, Stmt.not_sureOf thenPart,
      Stmt.not_sureOf elsePart] at hmem
  | loop head body =>
    rw [Stmt.effects] at hfirst hknown
    rcases WrittenFirst.append_iff.mp hfirst with hhead | ⟨-, hbody⟩
    · rw [LoopHead.effects] at hhead hknown
      -- the range reads nothing that the variable of the loop does not hide
      have hrange : Effect.scalar x true false ∉ head.start.effects false head.label ++
          head.stop.effects false head.label ++ head.step.effects false head.label := by
        simp [head.start.not_written false head.label false,
          head.stop.not_written false head.label false, head.step.not_written false head.label false]
      obtain ⟨hnone, hvar⟩ := hhead.of_append hrange
      obtain ⟨rfl⟩ : x = head.induction := by simpa using hvar.mem
      have hunread := unread_of_find?_eq_none
        (fun hu => hknown (List.mem_append_left _ (List.mem_append_left _ hu))) hnone
      cases h with
      | @loop _ _ t₁ t₂ t₃ t₄ start stop step trips =>
        have hparts := List.Subset.refl (head.start.effects false head.label ++
          head.stop.effects false head.label ++ head.step.effects false head.label)
        rw [List.append_subset, List.append_subset] at hparts
        have hreads : .read head.induction ∉ t₁ ++ t₂ ++ t₃ := by
          simp [start.unread hunread hparts.1.1, stop.unread hunread hparts.1.2,
            step.unread hunread hparts.2]
        have hwritten : Private head.induction (t₁ ++ t₂ ++ t₃ ++ [.write head.induction]) :=
          .append_of_unread hreads (.of_unread (by simp))
        exact ⟨hwritten.append_of_written (by simp) t₄, by simp⟩
    · exact absurd hbody.mem (Stmt.not_sureOf body)
  | brk label => simp [writtenFirst_iff, Stmt.effects, Effect.settles] at hfirst

/-- A scalar that statements do not carry is private to each of their runs. -/
theorem Stmt.TraceOf.isPrivate {ss : List Stmt} {t : List Access} {exit : Exit}
    (h : Stmt.TraceOf ss t exit) (hknown : Effect.unknown ∉ Stmt.effectsOf false ss)
    (hcarried : ¬Loop.carries (Stmt.effectsOf false ss) x) : Private x t := by
  induction ss generalizing t with
  | nil =>
    cases h
    exact .of_unread List.not_mem_nil
  | cons s ss ih =>
    rw [Stmt.effectsOf, List.mem_append, not_or] at hknown
    rw [Stmt.effectsOf, Loop.carries_append] at hcarried
    cases hfind : (s.effects false).find? (·.settles x) with
    | none =>
      have hunread := unread_of_find?_eq_none hknown.1 hfind
      cases h with
      | cons first rest =>
        refine .append_of_unread (first.unread hunread (List.Subset.refl _)) (ih rest hknown.2 ?_)
        simpa [hfind] using hcarried
      | stop first => exact .of_unread (first.unread hunread (List.Subset.refl _))
    | some e =>
      have hwritten : WrittenFirst x (s.effects false) := by
        refine (Loop.find?_of_uncarried ?_).resolve_left (by simp [hfind])
        simpa [hfind] using hcarried
      cases h with
      | cons first rest =>
        obtain ⟨hprivate, hwrite⟩ := first.written hknown.1 hwritten
        exact hprivate.append_of_written hwrite _
      | stop first => exact (first.written hknown.1 hwritten).1

namespace Stmt

/-- Some statement writes a scalar: it assigns to it or is a loop over it. -/
def Writes (x : String) (ss : List Stmt) : Prop := x ∈ assignedOf ss ∨ x ∈ inductionsOf ss

instance (ss : List Stmt) : Decidable (Writes x ss) := inferInstanceAs (Decidable (_ ∨ _))

mutual

theorem exists_write : ∀ {s : Stmt} (conditional : Bool),
    x ∈ s.assigned ∨ x ∈ s.loops.map (·.head.induction) →
      ∃ c, Effect.scalar x true c ∈ s.effects conditional
  | assign label target value, conditional, h => by
    cases target with
    | var y =>
      obtain rfl : x = y := by simpa [assigned, loops] using h
      exact ⟨conditional, by simp [effects, Expr.targetEffects]⟩
    | _ => simp [assigned, loops] at h
  | expr .., _, h | brk _, _, h => by simp [assigned, loops] at h
  | cond _ _ thenPart elsePart, conditional, h => by
    simp only [assigned, loops, List.map_append, List.mem_append] at h
    have hparts : Writes x thenPart ∨ Writes x elsePart := by
      unfold Writes inductionsOf
      tauto
    rcases hparts with h | h
    · obtain ⟨c, hc⟩ := exists_writeOf true h
      exact ⟨c, by simp [effects, hc]⟩
    · obtain ⟨c, hc⟩ := exists_writeOf true h
      exact ⟨c, by simp [effects, hc]⟩
  | loop head body, conditional, h => by
    simp only [assigned, loops, List.map_cons, List.mem_cons] at h
    have hparts : x = head.induction ∨ Writes x body := by
      unfold Writes inductionsOf
      tauto
    rcases hparts with rfl | h
    · exact ⟨conditional, by simp [effects, LoopHead.effects]⟩
    · obtain ⟨c, hc⟩ := exists_writeOf true h
      exact ⟨c, by simp [effects, hc]⟩

theorem exists_writeOf : ∀ {ss : List Stmt} (conditional : Bool), Writes x ss →
    ∃ c, Effect.scalar x true c ∈ effectsOf conditional ss
  | [], _, h => by simp [Writes, assignedOf, inductionsOf, loopsOf] at h
  | s :: ss, conditional, h => by
    simp only [Writes, assignedOf, inductionsOf, loopsOf, List.map_append, List.mem_append] at h
    have hparts : (x ∈ s.assigned ∨ x ∈ s.loops.map (·.head.induction)) ∨ Writes x ss := by
      unfold Writes inductionsOf
      tauto
    rcases hparts with h | h
    · obtain ⟨c, hc⟩ := exists_write conditional h
      exact ⟨c, by simp [effectsOf, hc]⟩
    · obtain ⟨c, hc⟩ := exists_writeOf conditional h
      exact ⟨c, by simp [effectsOf, hc]⟩

end

lemma writes_iff {ss : List Stmt} :
    Writes x ss ↔ ∃ c, Effect.scalar x true c ∈ effectsOf false ss :=
  ⟨exists_writeOf false, fun ⟨_, h⟩ => writtenOf h⟩

end Stmt

/-- The access to a scalar that an event of a run is. -/
def Event.access? {α : Type} : Event α → Option Access
  | .scalar name true => some (.write name)
  | .scalar name false => some (.read name)
  | .cell .. => none

section

variable {α : Type} {M : Meaning α}

lemma Event.filterMap_access?_cell (t : List (Event α)) (array : String) (vs : List α)
    (write : Bool) :
    (t ++ [Event.cell array vs write]).filterMap Event.access? = t.filterMap Event.access? := by
  rw [List.filterMap_append, List.filterMap_cons_none rfl, List.filterMap_nil, List.append_nil]

mutual

theorem Eval.traced : ∀ {s s' : Memory α} {e : Expr} {v : α} {t : List (Event α)},
    Eval M s e v t s' → e.Trace (t.filterMap Event.access?)
  | _, _, _, _, _, .var s y => .var y
  | _, _, _, _, _, .literal s n => .literal n
  | _, _, _, _, _, .binary first second => by
    rw [List.filterMap_append]
    exact .binary first.traced second.traced
  | _, _, _, _, _, .settled logical first => .settled logical first.traced
  | _, _, _, _, _, .unary operand => .unary operand.traced
  | _, _, _, _, _, .subscript place => by
    rw [Event.filterMap_access?_cell]
    exact .subscript place.traced
  | _, _, _, _, _, .ternaryThen condition taken => by
    rw [List.filterMap_append]
    exact .ternaryThen condition.traced taken.traced
  | _, _, _, _, _, .ternaryElse condition taken => by
    rw [List.filterMap_append]
    exact .ternaryElse condition.traced taken.traced
  | _, _, _, _, _, .intrinsic operands => .intrinsic operands.traced
  | _, _, _, _, _, .call operands => by
    rw [List.filterMap_append]
    exact .call operands.traced

theorem EvalList.traced : ∀ {s s' : Memory α} {es : List Expr} {vs : List α} {t : List (Event α)},
    EvalList M s es vs t s' → Expr.TraceOf es (t.filterMap Event.access?)
  | _, _, _, _, _, .nil _ => .nil
  | _, _, _, _, _, .cons head tail => by
    rw [List.filterMap_append]
    exact .cons head.traced tail.traced

end

mutual

theorem Exec.traced : ∀ {s s' : Memory α} {stmt : Stmt} {t : List (Event α)} {exit : Exit},
    Exec M s stmt t s' exit → stmt.Trace (t.filterMap Event.access?) exit
  | _, _, _, _, _, .assignScalar evaluated => by
    rw [List.filterMap_append]
    exact .assignScalar evaluated.traced
  | _, _, _, _, _, .assignCell evaluated place => by
    rw [Event.filterMap_access?_cell, List.filterMap_append]
    exact .assignCell evaluated.traced place.traced
  | _, _, _, _, _, .assignOther hscalar hcell evaluated place => by
    rw [List.filterMap_append]
    exact .assignOther hscalar hcell evaluated.traced place.traced
  | _, _, _, _, _, .expr evaluated => .expr evaluated.traced
  | _, _, _, _, _, .condThen condition taken => by
    rw [List.filterMap_append]
    exact .condThen condition.traced taken.traced
  | _, _, _, _, _, .condElse condition taken => by
    rw [List.filterMap_append]
    exact .condElse condition.traced taken.traced
  | _, _, _, _, _, .loop start stop step trips => by
    simp only [List.filterMap_append]
    exact .loop start.traced stop.traced step.traced trips.traced
  | _, _, _, _, _, .brk _ label => .brk label

/-- A run of statements is one of their traces. -/
theorem ExecList.traced : ∀ {s s' : Memory α} {stmts : List Stmt} {t : List (Event α)} {exit : Exit},
    ExecList M s stmts t s' exit → Stmt.TraceOf stmts (t.filterMap Event.access?) exit
  | _, _, _, _, _, .nil _ => .nil
  | _, _, _, _, _, .cons first rest => by
    rw [List.filterMap_append]
    exact .cons first.traced rest.traced
  | _, _, _, _, _, .stop first => .stop first.traced

theorem Trips.traced : ∀ {s s' : Memory α} {y : String} {body : List Stmt} {t : List (Event α)},
    Trips M s y body t s' → Stmt.TripsOf y body (t.filterMap Event.access?)
  | _, _, _, _, _, .done _ y body => .done y body
  | _, _, _, _, _, .next trip rest => by
    simp only [List.filterMap_append]
    exact .stepped trip.traced rest.traced
  | _, _, _, _, _, .broken trip => .broken trip.traced

end

/-- In an iteration of a loop that the subscript test reports, no scalar that the body writes is read
before it is written, whichever branches are taken and however often inner loops repeat. -/
theorem written_scalars_private {n : Nest} (hlabels : n.loopLabels.Nodup) {l : Loop}
    (hl : l ∈ n.loops) (hreported : l.head.label ∈ n.subscriptTest.independent)
    {name : String} (hwritten : Stmt.Writes name l.body) :
    (∀ t exit, Stmt.TraceOf l.body t exit → Private name t) ∧
      ∀ (M : Meaning α) (s s' : Memory α) (t : List (Event α)) (exit : Exit),
        ExecList M s l.body t s' exit → Private name (t.filterMap Event.access?) := by
  have hind := (mem_independent_iff hlabels hl).mp hreported
  obtain ⟨conditional, hwrite⟩ := Stmt.writes_iff.mp hwritten
  have hprivate : ∀ t exit, Stmt.TraceOf l.body t exit → Private name t := fun t exit h =>
    h.isPrivate (Loop.unknown_not_mem hind) (Loop.uncarried_of_isIndependent hind hwrite)
  exact ⟨hprivate, fun M s s' t exit hrun => hprivate _ exit hrun.traced⟩

end

end Nest

/-! `t = B[i]`, and in the branch where `t` is positive `A[i] = t`, else `t = 0`. -/
namespace Clipping

open Nest

def fetch : Stmt := .assign "S1" (.var "t") (.subscript "B" [.var "i"])
def store : Stmt := .assign "S3" (.subscript "A" [.var "i"]) (.var "t")
def clip : Stmt := .assign "S4" (.var "t") (.literal 0)
def choice : Stmt :=
  .cond "S2" (.binary .greaterThan (.var "t") (.literal 0)) [store] [clip]

def loop : Loop := ⟨⟨"L", "i", .literal 0, .literal 8, .literal 1⟩, [fetch, choice]⟩

def nest : Nest := ⟨loop, ["t"], ∅⟩

/-- An iteration that takes the first branch. -/
lemma taken : Stmt.TraceOf loop.body
    [.read "i", .write "t", .read "t", .read "t", .read "i"] .normal :=
  .cons (.assignScalar (.subscript (.cons (.var _) .nil)))
    (.cons (.condThen (.binary (.var _) (.literal _))
      (.cons (.assignCell (.var _) (.cons (.var _) .nil)) .nil)) .nil)

/-- The scalar `t` is read twice after its only write. -/
theorem fetched_value_private :
    nest.loopLabels.Nodup ∧ "L" ∈ nest.subscriptTest.independent ∧ Stmt.Writes "t" loop.body ∧
    Stmt.TraceOf loop.body [.read "i", .write "t", .read "t", .read "t", .read "i"] .normal ∧
    Private "t" [.read "i", .write "t", .read "t", .read "t", .read "i"] := by
  have hlabels : nest.loopLabels.Nodup := by decide +kernel
  have hreported : "L" ∈ nest.subscriptTest.independent :=
    (mem_independent_iff hlabels List.mem_cons_self).mpr (by decide +kernel)
  have hwritten : Stmt.Writes "t" loop.body := by decide +kernel
  refine ⟨hlabels, hreported, hwritten, taken, ?_⟩
  exact (written_scalars_private (α := Int) hlabels List.mem_cons_self hreported hwritten).1 _ _ taken

end Clipping

end LoopSafety
