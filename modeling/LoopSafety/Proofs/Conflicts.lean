import Mathlib.Logic.Function.Basic
import Mathlib.Tactic.Ring
import LoopSafety.Session.Basic
import LoopSafety.Proofs.Execution
import LoopSafety.Proofs.Subscripts
import LoopSafety.Proofs.Values

/-! Iterations at which two accesses meet in one cell, before and after lowering.

Lowering moves the range of every resolved loop by one distance and leaves subscripts alone. A cell
then moves with the loop variables in its subscripts, so two accesses still meet if their subscripts
move alike, and always if the distance is zero. Where one of them has a fixed subscript, a conflict
can be lost. -/
namespace LoopSafety

open Nest (Memory)

/-- What operators, intrinsic functions and calls compute on integers. -/
structure Reading extends Nest.Meaning Int where
  call : String → List Int → Int

/-- Literals and the operators of affine expressions have their usual meaning. -/
structure Reading.Exact (R : Reading) : Prop where
  literal (n : Int64) : R.literal n = n.toInt
  add (a b : Int) : R.binary .add a b = a + b
  sub (a b : Int) : R.binary .sub a b = a - b
  mul (a b : Int) : R.binary .mul a b = a * b
  neg (a : Int) : R.unary .neg a = -a

namespace Nest.Expr

mutual

def value (R : Reading) (s : Memory Int) : Expr → Int
  | var name => s.scalars name
  | literal n => R.literal n
  | binary op lhs rhs => R.binary op (lhs.value R s) (rhs.value R s)
  | unary op operand => R.unary op (operand.value R s)
  | subscript array indices => s.cells array (values R s indices)
  | ternary condition thenPart elsePart =>
    if condition.value R s = 0 then elsePart.value R s else thenPart.value R s
  | intrinsic name args => R.intrinsic name (values R s args)
  | call name args => R.call name (values R s args)

def values (R : Reading) (s : Memory Int) : List Expr → List Int
  | [] => []
  | e :: es => e.value R s :: values R s es

end

end Nest.Expr

namespace Term

mutual

/-- The value of an expression. A literal counts by its integer view; a statement has no value of
interest. -/
def value (p : Program) (R : Reading) (s : Memory Int) : Term → Int
  | mk _ (.literal v) => R.literal v.toInt64
  | mk _ (.var name _ _) => s.scalars name
  | mk _ (.binary op left right _) => R.binary op (left.value p R s) (right.value p R s)
  | mk _ (.unary op operand _) => R.unary op (operand.value p R s)
  | mk _ (.access array indices) => s.cells (p.arrayName array) (values p R s indices)
  | mk _ (.builtin kind args _) => R.intrinsic kind.text (values p R s args)
  | mk _ (.math fn args _) => R.intrinsic fn.text (values p R s args)
  | mk _ (.cond condition thenPart (some elsePart) _) =>
    if condition.value p R s = 0 then elsePart.value p R s else thenPart.value p R s
  | mk _ (.call function args) => R.call (p.functionName function) (values p R s args)
  | mk _ (.cond _ _ none _) | mk _ (.forLoop ..) | mk _ (.whileLoop ..) | mk _ (.block _)
  | mk _ (.assign ..) | mk _ (.ret _) | mk _ .brk => 0

def values (p : Program) (R : Reading) (s : Memory Int) : List Term → List Int
  | [] => []
  | t :: ts => t.value p R s :: values p R s ts

end

mutual

/-- The variables that the value of an expression depends on. -/
def names : Term → List String
  | mk _ (.var name _ _) => [name]
  | mk _ (.binary _ left right _) => left.names ++ right.names
  | mk _ (.unary _ operand _) => operand.names
  | mk _ (.access _ args) | mk _ (.builtin _ args _) | mk _ (.math _ args _)
  | mk _ (.call _ args) => namesOf args
  | mk _ (.cond condition thenPart (some elsePart) _) =>
    condition.names ++ thenPart.names ++ elsePart.names
  | mk _ (.literal _) | mk _ (.cond _ _ none _) | mk _ (.forLoop ..) | mk _ (.whileLoop ..)
  | mk _ (.block _) | mk _ (.assign ..) | mk _ (.ret _) | mk _ .brk => []

def namesOf : List Term → List String
  | [] => []
  | t :: ts => t.names ++ namesOf ts

end

/-- When each of the variables grows by one distance, the expression grows by so many times that
distance. -/
inductive Moves (vars : List String) : Term → Int → Prop
  | var {id x ty definition} (moving : x ∈ vars) : Moves vars (mk id (.var x ty definition)) 1
  | fixed {t} (still : ∀ x ∈ t.names, x ∉ vars) : Moves vars t 0
  | add {id l r ty a b} (left : Moves vars l a) (right : Moves vars r b) :
      Moves vars (mk id (.binary .add l r ty)) (a + b)
  | sub {id l r ty a b} (left : Moves vars l a) (right : Moves vars r b) :
      Moves vars (mk id (.binary .sub l r ty)) (a - b)
  | mulLiteral {id id' t c ty a} (factor : Moves vars t a) :
      Moves vars (mk id (.binary .mul t (mk id' (.literal c)) ty)) (a * c.toInt64.toInt)
  | literalMul {id id' t c ty a} (factor : Moves vars t a) :
      Moves vars (mk id (.binary .mul (mk id' (.literal c)) t ty)) (a * c.toInt64.toInt)
  | neg {id t ty a} (operand : Moves vars t a) : Moves vars (mk id (.unary .neg t ty)) (-a)

end Term

/-- Two memories that differ in some scalars, by one distance. -/
structure Moved (vars : List String) (d : Int) (s s' : Memory Int) : Prop where
  scalars (x : String) : s'.scalars x = s.scalars x + if x ∈ vars then d else 0
  cells : s'.cells = s.cells

namespace Moved

variable {vars : List String} {d : Int} {s s' : Memory Int}

lemma refl (s : Memory Int) (d : Int) : Moved [] d s s := ⟨by simp, rfl⟩

lemma eq_of_zero (h : Moved vars 0 s s') : s' = s := by
  obtain ⟨scalars, cells⟩ := s
  obtain ⟨scalars', cells'⟩ := s'
  have hscalars : scalars' = scalars := by
    funext x
    simpa using h.scalars x
  have hcells : cells' = cells := h.cells
  rw [hscalars, hcells]

lemma setScalar (h : Moved vars d s s') (x : String) (v : Int) :
    Moved (vars ++ [x]) d (s.setScalar x v) (s'.setScalar x (v + d)) where
  scalars y := by
    by_cases hy : y = x
    · simp [hy]
    · simp [hy, h.scalars y]
  cells := h.cells

end Moved

namespace Term

variable {p : Program} {R : Reading} {vars : List String} {d : Int} {s s' : Memory Int}

mutual

/-- Expressions without moving variables keep their values. -/
theorem value_of_still (m : Moved vars d s s') : ∀ {t : Term}, (∀ x ∈ t.names, x ∉ vars) →
    t.value p R s' = t.value p R s
  | mk _ (.var name _ _), h => by
    have hname : name ∉ vars := h name (by simp [names])
    simp [value, m.scalars, hname]
  | mk _ (.binary _ left right _), h => by
    simp only [names, List.mem_append, or_imp, forall_and] at h
    rw [value, value, value_of_still m h.1, value_of_still m h.2]
  | mk _ (.unary _ operand _), h => by
    rw [value, value, value_of_still m (by simpa [names] using h)]
  | mk _ (.access _ indices), h => by
    rw [value, value, m.cells, values_of_still m (by simpa [names] using h)]
  | mk _ (.builtin _ args _), h | mk _ (.math _ args _), h | mk _ (.call _ args), h => by
    rw [value, value, values_of_still m (by simpa [names] using h)]
  | mk _ (.cond condition thenPart (some elsePart) _), h => by
    simp only [names, List.mem_append, or_imp, forall_and] at h
    rw [value, value, value_of_still m h.1.1, value_of_still m h.1.2, value_of_still m h.2]
  | mk _ (.literal _), _ | mk _ (.cond _ _ none _), _ | mk _ (.forLoop ..), _
  | mk _ (.whileLoop ..), _ | mk _ (.block _), _ | mk _ (.assign ..), _ | mk _ (.ret _), _
  | mk _ .brk, _ => by rw [value, value]

theorem values_of_still (m : Moved vars d s s') : ∀ {ts : List Term},
    (∀ x ∈ namesOf ts, x ∉ vars) → values p R s' ts = values p R s ts
  | [], _ => by rw [values, values]
  | t :: ts, h => by
    simp only [namesOf, List.mem_append, or_imp, forall_and] at h
    rw [values, values, value_of_still m h.1, values_of_still m h.2]

end

lemma Moves.value_eq {t : Term} {w : Int} (h : t.Moves vars w) (exact : R.Exact)
    (m : Moved vars d s s') : t.value p R s' = t.value p R s + w * d := by
  induction h with
  | var moving => simp [value, m.scalars, moving]
  | fixed still => rw [value_of_still m still, zero_mul, add_zero]
  | add _ _ ihl ihr =>
    rw [value, value, exact.add, exact.add, ihl, ihr]
    ring
  | sub _ _ ihl ihr =>
    rw [value, value, exact.sub, exact.sub, ihl, ihr]
    ring
  | mulLiteral _ ih =>
    simp only [value, exact.mul, exact.literal, ih]
    ring
  | literalMul _ ih =>
    simp only [value, exact.mul, exact.literal, ih]
    ring
  | neg _ ih =>
    rw [value, value, exact.neg, exact.neg, ih]
    ring

end Term

namespace Lowering

variable {p : Program} {ctx : Context}

mutual

/-- Lowering keeps the values of expressions. -/
theorem expr_value (R : Reading) (s : Memory Int) : ∀ {t : Term} {e : Nest.Expr},
    expr p t = .ok e → e.value R s = t.value p R s
  | .mk _ (.literal _), _, h | .mk _ (.var ..), _, h => by
    cases h
    rw [Nest.Expr.value, Term.value]
  | .mk _ (.binary _ _ _ _), _, h => by
    rw [expr] at h
    obtain ⟨_, hl, h⟩ := bind_eq_ok h
    obtain ⟨_, hr, h⟩ := bind_eq_ok h
    cases h
    rw [Nest.Expr.value, Term.value, expr_value R s hl, expr_value R s hr]
  | .mk _ (.unary _ _ _), _, h => by
    rw [expr] at h
    obtain ⟨_, ho, h⟩ := bind_eq_ok h
    cases h
    rw [Nest.Expr.value, Term.value, expr_value R s ho]
  | .mk _ (.access array _), _, h => by
    rw [expr] at h
    split at h
    · cases h
    · rename_i binding hbinding
      obtain ⟨_, hi, h⟩ := bind_eq_ok h
      cases h
      have hname : p.arrayName array = binding.name := by rw [Program.arrayName, hbinding]; rfl
      rw [Nest.Expr.value, Term.value, exprs_values R s hi, hname]
  | .mk _ (.builtin _ _ _), _, h | .mk _ (.math _ _ _), _, h => by
    rw [expr] at h
    obtain ⟨_, ha, h⟩ := bind_eq_ok h
    cases h
    rw [Nest.Expr.value, Term.value, exprs_values R s ha]
  | .mk _ (.cond _ _ (some _) _), _, h => by
    rw [expr] at h
    obtain ⟨_, hc, h⟩ := bind_eq_ok h
    obtain ⟨_, ht, h⟩ := bind_eq_ok h
    obtain ⟨_, he, h⟩ := bind_eq_ok h
    cases h
    rw [Nest.Expr.value, Term.value, expr_value R s hc, expr_value R s ht, expr_value R s he]
  | .mk _ (.call function _), _, h => by
    rw [expr] at h
    split at h
    · cases h
    · rename_i f hf
      obtain ⟨_, ha, h⟩ := bind_eq_ok h
      cases h
      have hname : p.functionName function = f.name := by rw [Program.functionName, hf]; rfl
      rw [Nest.Expr.value, Term.value, exprs_values R s ha, hname]
  | .mk _ (.cond _ _ none _), _, h | .mk _ (.forLoop ..), _, h | .mk _ (.whileLoop ..), _, h
  | .mk _ (.block _), _, h | .mk _ (.assign ..), _, h | .mk _ (.ret _), _, h
  | .mk _ .brk, _, h => by
    rw [expr] at h
    cases h

theorem exprs_values (R : Reading) (s : Memory Int) : ∀ {ts : List Term} {es : List Nest.Expr},
    exprs p ts = .ok es → Nest.Expr.values R s es = Term.values p R s ts
  | [], _, h => by
    cases h
    rw [Nest.Expr.values, Term.values]
  | t :: ts, _, h => by
    rw [exprs] at h
    obtain ⟨_, ht, h⟩ := bind_eq_ok h
    obtain ⟨_, hts, h⟩ := bind_eq_ok h
    cases h
    rw [Nest.Expr.values, Term.values, expr_value R s ht, exprs_values R s hts]

end

end Lowering

/-! ### Iterations and the cells that they reach -/

namespace Program

variable (p : Program)

/-- The variables of loops. -/
def inductions (loops : List LoopId) : List String :=
  loops.filterMap fun loop => (p.loop? loop).map (·.induction)

/-- Memory inside loops, at a value for each of them. An inner loop hides an outer one with the same
variable. -/
def enter (point : LoopId → Int) (loops : List LoopId) (s : Memory Int) : Memory Int :=
  loops.foldl
    (fun s loop => (p.loop? loop).elim s fun info => s.setScalar info.induction (point loop)) s

/-- The cell that an access reaches at an iteration, other scalars and all cells being as in `s`. -/
def reached (R : Reading) (point : LoopId → Int) (s : Memory Int) (a : Access) : List Int :=
  Term.values p R (p.enter point a.loops s) a.indices

/-- A point of the iteration space of a region. -/
def IsPoint (ctx : Context) (root : Term) (point : LoopId → Int) : Prop :=
  ∀ loop ∈ root.loops, ∃ span, ctx.resolvedRange p loop = some span ∧
    Visits span.start.toInt span.stop.toInt span.step.toInt (point loop)

/-- Two accesses reach the same cell at iterations that differ in a loop's value. -/
def Meet (ctx : Context) (root : Term) (R : Reading) (s₁ s₂ : Memory Int) (loop : LoopId)
    (x y : Access) : Prop :=
  ∃ point₁ point₂, p.IsPoint ctx root point₁ ∧ p.IsPoint ctx root point₂ ∧
    point₁ loop ≠ point₂ loop ∧ p.reached R point₁ s₁ x = p.reached R point₂ s₂ y

/-- The subscripts of two accesses move alike, dimension by dimension, with the loops around each. -/
def MoveAlike (x y : Access) : Prop :=
  List.Forall₂ (fun t u => ∃ w, t.Moves (p.inductions x.loops) w ∧ u.Moves (p.inductions y.loops) w)
    x.indices y.indices

end Program

namespace Nest

def enter (point : String → Int) (heads : List LoopHead) (s : Memory Int) : Memory Int :=
  heads.foldl (fun s head => s.setScalar head.induction (point head.label)) s

def reached (R : Reading) (point : String → Int) (s : Memory Int) (x : Site) : List Int :=
  Expr.values R (enter point x.heads s) x.indices

/-- A point of the iteration space of a nest whose ranges are literals. -/
def IsPoint (n : Nest) (point : String → Int) : Prop :=
  ∀ l ∈ n.loops, ∃ start stop step : Int64, l.head.start = .literal start ∧
    l.head.stop = .literal stop ∧ l.head.step = .literal step ∧
    Visits start.toInt stop.toInt step.toInt (point l.head.label)

def Meet (n : Nest) (R : Reading) (s₁ s₂ : Memory Int) (label : String) (x y : Site) : Prop :=
  ∃ point₁ point₂, n.IsPoint point₁ ∧ n.IsPoint point₂ ∧ point₁ label ≠ point₂ label ∧
    reached R point₁ s₁ x = reached R point₂ s₂ y

end Nest

lemma Visits.add_iff {s t d v : Int} (c : Int) :
    Visits (s + c) (t + c) d (v + c) ↔ Visits s t d v := by
  constructor
  · rintro ⟨k, hv, hup, hdown⟩
    exact ⟨k, by omega, fun h => by have := hup h; omega, fun h => by have := hdown h; omega⟩
  · rintro ⟨k, hv, hup, hdown⟩
    exact ⟨k, by omega, fun h => by have := hup h; omega, fun h => by have := hdown h; omega⟩

lemma Term.values_eq_iff {p : Program} {R : Reading} {us vs : List String} {d : Int}
    {s₁ s₁' s₂ s₂' : Memory Int} (exact : R.Exact) (m₁ : Moved us d s₁ s₁') (m₂ : Moved vs d s₂ s₂')
    {xs ys : List Term} (h : List.Forall₂ (fun t u => ∃ w, t.Moves us w ∧ u.Moves vs w) xs ys) :
    values p R s₁' xs = values p R s₂' ys ↔ values p R s₁ xs = values p R s₂ ys := by
  induction h with
  | nil => simp only [values]
  | cons hmoves _ ih =>
    obtain ⟨w, ht, hu⟩ := hmoves
    simp only [values, List.cons.injEq, ih, ht.value_eq exact m₁, hu.value_eq exact m₂,
      add_left_inj]

lemma getElem?_of_forall₂ {α β : Type} {r : α → β → Prop} {as : List α} {bs : List β}
    (h : List.Forall₂ r as bs) {i : Nat} {a : α} (ha : as[i]? = some a) :
    ∃ b, bs[i]? = some b ∧ r a b := by
  induction h generalizing i with
  | nil => cases ha
  | cons hr _ ih =>
    cases i with
    | zero =>
      cases ha
      exact ⟨_, rfl, hr⟩
    | succ i => exact ih ha

lemma forall_mem_iff_of_forall₂ {α β : Type} {r : α → β → Prop} {as : List α} {bs : List β}
    (h : List.Forall₂ r as bs) {P : α → Prop} {Q : β → Prop} (hr : ∀ a b, r a b → (P a ↔ Q b)) :
    (∀ a ∈ as, P a) ↔ ∀ b ∈ bs, Q b := by
  induction h with
  | nil => simp
  | cons hab _ ih => rw [List.forall_mem_cons, List.forall_mem_cons, hr _ _ hab, ih]

namespace Lowering

variable {p : Program} {ctx : Context}

/-- The iteration of a nest that lies the shift away from an iteration of its region. -/
def Shifts (ctx : Context) (point : LoopId → Int) (point' : String → Int) : Prop :=
  ∀ loop, point' (loopLabel loop) = point loop + (shift ctx).toInt

lemma exists_shifts (ctx : Context) (point : LoopId → Int) : ∃ point', Shifts ctx point point' :=
  ⟨Function.extend loopLabel (fun loop => point loop + (shift ctx).toInt) 0,
    fun loop => loopLabel_injective.extend_apply _ _ loop⟩

lemma exists_shifts_to (ctx : Context) (point' : String → Int) :
    ∃ point, Shifts ctx point point' :=
  ⟨fun loop => point' (loopLabel loop) - (shift ctx).toInt, fun _ => (Int.sub_add_cancel _ _).symm⟩

lemma Around.moved {point : LoopId → Int} {point' : String → Int} (hshifts : Shifts ctx point point')
    {loops : List LoopId} {heads : List Nest.LoopHead} (around : Around p ctx loops heads)
    {vars : List String} {s s' : Memory Int} (m : Moved vars (shift ctx).toInt s s') :
    Moved (vars ++ p.inductions loops) (shift ctx).toInt (p.enter point loops s)
      (Nest.enter point' heads s') := by
  induction around generalizing vars s s' with
  | nil => simpa [Program.inductions, Program.enter, Nest.enter] using m
  | @cons loop head loops heads hhead _ ih =>
    obtain ⟨info, hinfo, hlabel, hinduction⟩ := loopHead_names hhead
    have hentered := ih (m.setScalar info.induction (point loop))
    have hvars : vars ++ p.inductions (loop :: loops) =
        vars ++ [info.induction] ++ p.inductions loops := by
      simp [Program.inductions, hinfo]
    rw [hvars]
    simpa [Program.enter, Nest.enter, hinfo, hlabel, hinduction, hshifts loop] using hentered

lemma toInt_shift_eq_zero (h : shift ctx = 0) : (shift ctx).toInt = 0 := by
  rw [h]
  rfl

/-- No shifted range passes the largest number. -/
def Fits (p : Program) (ctx : Context) (root : Term) : Prop :=
  ∀ loop ∈ root.loops, ∀ span, ctx.resolvedRange p loop = some span →
    span.start.toInt + (shift ctx).toInt ≤ Saturating.greatest ∧
    span.stop.toInt + (shift ctx).toInt ≤ Saturating.greatest

lemma fits_of_shift_eq_zero (h : shift ctx = 0) (root : Term) : Fits p ctx root := by
  intro loop _ span _
  rw [toInt_shift_eq_zero h, Int.add_zero, Int.add_zero]
  exact ⟨Saturating.le_greatest _, Saturating.le_greatest _⟩

lemma shift_nonneg (ctx : Context) : 0 ≤ (shift ctx).toInt := by
  have hzero : (0 : Int64).toInt = 0 := rfl
  rw [shift, Saturating.toInt_max, hzero]
  omega

lemma toInt_shifted {a : Int64} (h : a.toInt + (shift ctx).toInt ≤ Saturating.greatest) :
    (Saturating.add a (shift ctx)).toInt = a.toInt + (shift ctx).toInt := by
  have hshift := shift_nonneg ctx
  have hleast := Saturating.least_le a
  rw [Saturating.toInt_add]
  omega

/-- The iteration spaces of a region and of its nest lie the shift apart. -/
lemma isPoint_iff {root : Term} {n : Nest} (hnest : nest p ctx root = .ok n)
    (hresolved : ∀ loop ∈ root.loops, (ctx.resolvedRange p loop).isSome) (hfits : Fits p ctx root)
    {point : LoopId → Int} {point' : String → Int} (hshifts : Shifts ctx point point') :
    p.IsPoint ctx root point ↔ n.IsPoint point' := by
  have hloops := (List.forall₂_and_left root.loops _).mpr ⟨fun _ h => h, nest_loops hnest⟩
  refine forall_mem_iff_of_forall₂ hloops ?_
  rintro loop l ⟨hloop, hhead⟩
  obtain ⟨span, hspan⟩ := Option.isSome_iff_exists.mp (hresolved loop hloop)
  obtain ⟨info, -, hhead⟩ := loopHead_resolved hhead hspan
  obtain ⟨hstart, hstop⟩ := hfits loop hloop span hspan
  simp [hhead, hspan, hshifts loop, toInt_shifted hstart, toInt_shifted hstop, Visits.add_iff]

lemma Lowers.reached_eq {x : Access} {x' : Nest.Site} (h : Lowers p ctx x x') (R : Reading)
    (point' : String → Int) (s : Memory Int) :
    Nest.reached R point' s x' = Term.values p R (Nest.enter point' x'.heads s) x.indices :=
  exprs_values R _ h.indices

/-- Two subscripts reach the same cell exactly if the accesses do, the shift away from it. -/
lemma reached_eq_iff {x y : Access} {x' y' : Nest.Site} (hx : Lowers p ctx x x')
    (hy : Lowers p ctx y y') {R : Reading}
    (hkept : shift ctx = 0 ∨ R.Exact ∧ p.MoveAlike x y) {point₁ point₂ : LoopId → Int}
    {point₁' point₂' : String → Int} (h₁ : Shifts ctx point₁ point₁')
    (h₂ : Shifts ctx point₂ point₂') (s₁ s₂ : Memory Int) :
    Nest.reached R point₁' s₁ x' = Nest.reached R point₂' s₂ y' ↔
      p.reached R point₁ s₁ x = p.reached R point₂ s₂ y := by
  have m₁ := hx.around.moved h₁ (Moved.refl s₁ _)
  have m₂ := hy.around.moved h₂ (Moved.refl s₂ _)
  rw [hx.reached_eq, hy.reached_eq, Program.reached, Program.reached]
  rcases hkept with hzero | ⟨exact, halike⟩
  · rw [toInt_shift_eq_zero hzero] at m₁ m₂
    rw [m₁.eq_of_zero, m₂.eq_of_zero]
  · exact Term.values_eq_iff exact m₁ m₂ halike

/-- Lowering keeps exactly the conflicts of a pair of accesses if ranges are not shifted, or if they
are shifted whole and the two subscripts move alike. This holds whatever other scalars and the cells
contain at the two iterations. -/
theorem meet_iff_of_moveAlike {root : Term} {n : Nest} (hnest : nest p ctx root = .ok n)
    (hresolved : ∀ loop ∈ root.loops, (ctx.resolvedRange p loop).isSome) {i j : Nat} {x y : Access}
    (hx : root.accesses[i]? = some x) (hy : root.accesses[j]? = some y) (hsame : x.array = y.array)
    {R : Reading}
    (hkept : shift ctx = 0 ∨ R.Exact ∧ Fits p ctx root ∧ p.MoveAlike x y) :
    ∃ x' y', n.sites[i]? = some x' ∧ n.sites[j]? = some y' ∧ x'.array = y'.array ∧
      ∀ s₁ s₂ loop,
        p.Meet ctx root R s₁ s₂ loop x y ↔ n.Meet R s₁ s₂ (loopLabel loop) x' y' := by
  obtain ⟨x', hx', hlx⟩ := getElem?_of_forall₂ (nest_sites hnest hresolved) hx
  obtain ⟨y', hy', hly⟩ := getElem?_of_forall₂ (nest_sites hnest hresolved) hy
  have hfits : Fits p ctx root := hkept.elim (fits_of_shift_eq_zero · root) fun h => h.2.1
  have halike : shift ctx = 0 ∨ R.Exact ∧ p.MoveAlike x y :=
    hkept.imp_right fun h => ⟨h.1, h.2.2⟩
  refine ⟨x', y', hx', hy', ?_, ?_⟩
  · obtain ⟨a, ha, hax⟩ := hlx.array
    obtain ⟨b, hb, hby⟩ := hly.array
    rw [hsame, hb, Option.some.injEq] at ha
    rw [hax, hby, ha]
  · intro s₁ s₂ loop
    constructor
    · rintro ⟨point₁, point₂, hpoint₁, hpoint₂, hne, hcell⟩
      obtain ⟨point₁', h₁⟩ := exists_shifts ctx point₁
      obtain ⟨point₂', h₂⟩ := exists_shifts ctx point₂
      refine ⟨point₁', point₂', (isPoint_iff hnest hresolved hfits h₁).mp hpoint₁,
        (isPoint_iff hnest hresolved hfits h₂).mp hpoint₂, ?_,
        (reached_eq_iff hlx hly halike h₁ h₂ s₁ s₂).mpr hcell⟩
      rw [h₁, h₂]
      omega
    · rintro ⟨point₁', point₂', hpoint₁, hpoint₂, hne, hcell⟩
      obtain ⟨point₁, h₁⟩ := exists_shifts_to ctx point₁'
      obtain ⟨point₂, h₂⟩ := exists_shifts_to ctx point₂'
      refine ⟨point₁, point₂, (isPoint_iff hnest hresolved hfits h₁).mpr hpoint₁,
        (isPoint_iff hnest hresolved hfits h₂).mpr hpoint₂, ?_,
        (reached_eq_iff hlx hly halike h₁ h₂ s₁ s₂).mp hcell⟩
      rw [h₁, h₂] at hne
      omega

end Lowering

/-! `A[i] = A[0] + X[i - 5]` for ten values of `i`, where `X` is `A` or an array `B` of its own. The
last access goes down to `-5`, so ranges are shifted by five. -/
namespace Anchored

def nodes (array : ArrayId) : List (Node NodeId) :=
  [.var "i" .int none, .literal (.int 0), .literal (.int 5), .binary .sub ⟨0⟩ ⟨2⟩ .int,
    .access ⟨0⟩ [⟨0⟩], .access ⟨0⟩ [⟨1⟩], .access array [⟨3⟩], .binary .add ⟨5⟩ ⟨6⟩ .int,
    .assign ⟨4⟩ ⟨7⟩, .forLoop ⟨0⟩ ⟨8⟩]

def loops : List LoopInfo := [⟨"i", .int, .simple ⟨0, 10, 1⟩⟩]

def arrays : List Binding :=
  [⟨"A", ⟨.intArray, [10]⟩, none, false⟩, ⟨"B", ⟨.intArray, [10]⟩, none, false⟩]

def index : Term := ⟨⟨0⟩, .var "i" .int none⟩
def zero : Term := ⟨⟨1⟩, .literal (.int 0)⟩
def five : Term := ⟨⟨2⟩, .literal (.int 5)⟩
def back : Term := ⟨⟨3⟩, .binary .sub index five .int⟩
def target : Term := ⟨⟨4⟩, .access ⟨0⟩ [index]⟩
def origin : Term := ⟨⟨5⟩, .access ⟨0⟩ [zero]⟩
def trail (array : ArrayId) : Term := ⟨⟨6⟩, .access array [back]⟩
def sum (array : ArrayId) : Term := ⟨⟨7⟩, .binary .add origin (trail array) .int⟩
def statement (array : ArrayId) : Term := ⟨⟨8⟩, .assign target (sum array)⟩
def region (array : ArrayId) : Term := ⟨⟨9⟩, .forLoop ⟨0⟩ (statement array)⟩

def program (array : ArrayId) : Program where
  terms := #[index, zero, five, back, target, origin, trail array, sum array, statement array,
    region array]
  loops := loops.toArray
  arrays := arrays.toArray

def session (array : ArrayId) : Session :=
  ((Session.new (region array) {} ∅).prepare (program array)).2

lemma prepare_eq {array : ArrayId}
    (h : ((Session.new (region array) {} ∅).prepare (program array)).1.toOption.isSome) :
    (Session.new (region array) {} ∅).prepare (program array) = (.ok (), session array) :=
  Prod.ext (eq_ok_get h) rfl

lemma loops_eq (array : ArrayId) : (region array).loops = [⟨0⟩] := rfl

lemma resolved (array : ArrayId) (ctx : Context) : ∀ loop ∈ (region array).loops,
    (ctx.resolvedRange (program array) loop).isSome := by
  rw [loops_eq, List.forall_mem_singleton]
  rfl

/-- The usual arithmetic, as far as it matters here. -/
def plain : Reading where
  literal n := n.toInt
  binary op a b := (op.onIntegers a b).getD 0
  unary _ a := -a
  intrinsic _ _ := 0
  call _ _ := 0

lemma plain_exact : plain.Exact where
  literal _ := rfl
  add _ _ := rfl
  sub _ _ := rfl
  mul _ _ := rfl
  neg _ := rfl

/-- With a value for its only loop, an iteration of the region. -/
lemma isPoint {array : ArrayId} {ctx : Context} {v : Nat} (hv : v < 10) :
    (program array).IsPoint ctx (region array) fun _ => v := by
  rw [Program.IsPoint, loops_eq, List.forall_mem_singleton]
  refine ⟨⟨0, 10, 1⟩, rfl, v, ?_, ?_, ?_⟩
  · simp
  · intro _
    change (v : Int) < 10
    omega
  · intro hstep
    exact absurd hstep (by decide)

lemma moveAlike (array : ArrayId) :
    (program array).MoveAlike ⟨⟨0⟩, [index], [⟨0⟩]⟩ ⟨array, [back], [⟨0⟩]⟩ := by
  have hi : "i" ∈ (program array).inductions [⟨0⟩] := List.mem_singleton_self _
  refine .cons ⟨1, .var hi, ?_⟩ .nil
  exact .sub (.var hi) (.fixed (by simp [five, Term.names]))

/-- Where `X` is `A`, the cell that one iteration writes is read five iterations later, in the nest
as in the region. -/
theorem trailing_conflict_kept :
    (Session.new (region ⟨0⟩) {} ∅).prepare (program ⟨0⟩) = (.ok (), session ⟨0⟩) ∧
    Lowering.shift (session ⟨0⟩).context = 5 ∧
    (program ⟨0⟩).Meet (session ⟨0⟩).context (region ⟨0⟩) plain .blank .blank ⟨0⟩
      ⟨⟨0⟩, [index], [⟨0⟩]⟩ ⟨⟨0⟩, [back], [⟨0⟩]⟩ ∧
    ∃ n x y, Lowering.nest (program ⟨0⟩) (session ⟨0⟩).context (region ⟨0⟩) = .ok n ∧
      n.sites[0]? = some x ∧ n.sites[2]? = some y ∧
      n.Meet plain .blank .blank (Lowering.loopLabel ⟨0⟩) x y := by
  have hok : ((Session.new (region ⟨0⟩) {} ∅).prepare (program ⟨0⟩)).1.toOption.isSome := by
    decide +kernel
  have hshift : Lowering.shift (session ⟨0⟩).context = 5 := by decide +kernel
  have hfits : Lowering.Fits (program ⟨0⟩) (session ⟨0⟩).context (region ⟨0⟩) := by
    rw [Lowering.Fits, loops_eq, List.forall_mem_singleton, hshift]
    rintro span ⟨⟩
    decide
  have hmeet : (program ⟨0⟩).Meet (session ⟨0⟩).context (region ⟨0⟩) plain .blank .blank ⟨0⟩
      ⟨⟨0⟩, [index], [⟨0⟩]⟩ ⟨⟨0⟩, [back], [⟨0⟩]⟩ :=
    ⟨_, _, isPoint (v := 0) (by decide), isPoint (v := 5) (by decide), by decide, by decide +kernel⟩
  have hnest : (Lowering.nest (program ⟨0⟩) (session ⟨0⟩).context (region ⟨0⟩)).toOption.isSome := rfl
  obtain ⟨x, y, hx, hy, -, hiff⟩ := Lowering.meet_iff_of_moveAlike (eq_ok_get hnest) (resolved _ _)
    (i := 0) (j := 2) rfl rfl rfl (.inr ⟨plain_exact, hfits, moveAlike _⟩)
  exact ⟨prepare_eq hok, hshift, hmeet, _, x, y, eq_ok_get hnest, hx, hy,
    (hiff .blank .blank ⟨0⟩).mp hmeet⟩

/-- The nest where `X` is `B`, with ranges shifted by `d`. -/
def lowered (d : Int64) (constants : Table String Int64) : Nest where
  root := ⟨⟨"for_L0", "i", .literal (Saturating.add 0 d), .literal (Saturating.add 10 d), .literal 1⟩,
    [.assign "S_n8" (.subscript "A" [.var "i"]) (.binary .add (.subscript "A" [.literal 0])
      (.subscript "B" [.binary .sub (.var "i") (.literal 5)]))]⟩
  locals := Nest.sortedSet []
  constants

lemma nest_eq (ctx : Context) : Lowering.nest (program ⟨1⟩) ctx (region ⟨1⟩) =
    .ok (lowered (Lowering.shift ctx) ctx.constants) := rfl

lemma five_le_of_isPoint {constants : Table String Int64} {point : String → Int}
    (h : (lowered 5 constants).IsPoint point) : 5 ≤ point "for_L0" := by
  obtain ⟨start, stop, step, hstart, -, hstep, k, hk, -⟩ := h _ List.mem_cons_self
  cases hstart
  cases hstep
  have hfive : (Saturating.add 0 5).toInt = 5 := by decide +kernel
  have hone : (1 : Int64).toInt = 1 := rfl
  rw [hfive, hone] at hk
  change point "for_L0" = _ at hk
  omega

/-- Where `X` is `B`, the first iteration writes the cell that all others read. In the nest the loop
starts at five, and no iteration writes that cell. -/
theorem anchored_conflict_lost :
    Program.ofTables (nodes ⟨1⟩) loops arrays [] = .ok (program ⟨1⟩) ∧
    (Session.new (region ⟨1⟩) {} ∅).prepare (program ⟨1⟩) = (.ok (), session ⟨1⟩) ∧
    (∀ loop ∈ (region ⟨1⟩).loops,
      ((session ⟨1⟩).context.resolvedRange (program ⟨1⟩) loop).isSome) ∧
    region ⟨1⟩ = ⟨⟨9⟩, .forLoop ⟨0⟩ ⟨⟨8⟩, .assign ⟨⟨4⟩, .access ⟨0⟩ [index]⟩ (sum ⟨1⟩)⟩⟩ ∧
    (region ⟨1⟩).accesses[0]? = some ⟨⟨0⟩, [index], [⟨0⟩]⟩ ∧
    (region ⟨1⟩).accesses[1]? = some ⟨⟨0⟩, [zero], [⟨0⟩]⟩ ∧
    (program ⟨1⟩).Meet (session ⟨1⟩).context (region ⟨1⟩) plain .blank .blank ⟨0⟩
      ⟨⟨0⟩, [index], [⟨0⟩]⟩ ⟨⟨0⟩, [zero], [⟨0⟩]⟩ ∧
    ∃ n x y, Lowering.nest (program ⟨1⟩) (session ⟨1⟩).context (region ⟨1⟩) = .ok n ∧
      n.sites[0]? = some x ∧ n.sites[1]? = some y ∧
      ∀ s₁ s₂, ¬n.Meet plain s₁ s₂ (Lowering.loopLabel ⟨0⟩) x y := by
  have hok : ((Session.new (region ⟨1⟩) {} ∅).prepare (program ⟨1⟩)).1.toOption.isSome := by
    decide +kernel
  have hshift : Lowering.shift (session ⟨1⟩).context = 5 := by decide +kernel
  refine ⟨rfl, prepare_eq hok, resolved _ _, rfl, rfl, rfl, ?_,
    lowered 5 (session ⟨1⟩).context.constants, _, _, by rw [nest_eq, hshift], rfl, rfl, ?_⟩
  · exact ⟨_, _, isPoint (v := 0) (by decide), isPoint (v := 1) (by decide), by decide,
      by decide +kernel⟩
  · rintro s₁ s₂ ⟨point, point', hpoint, -, -, hcell⟩
    have hfive := five_le_of_isPoint hpoint
    have hzero : [point "for_L0"] = [0] := hcell
    rw [List.cons.injEq] at hzero
    omega

end Anchored

end LoopSafety
