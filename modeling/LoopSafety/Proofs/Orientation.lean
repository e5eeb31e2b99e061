import Mathlib.Order.Interval.Set.UnorderedInterval
import LoopSafety.Proofs.Enclosure
import LoopSafety.Session.Basic

/-! Intervals whose ends may be in either order.

A difference with an interval on its right has its larger end first, and operations pair the ends of
their operands by position. An operation that grows with both operands then encloses all its values
if the operands have their ends in the same order. Otherwise it pairs a smaller end with a larger
one and can lose values at both ends. -/
namespace LoopSafety

/-- The integers between two ends. -/
def between (ends : Int64 × Int64) : Set Int := Set.uIcc ends.1.toInt ends.2.toInt

/-- The smaller of two ends. -/
def low (ends : Int64 × Int64) : Int := min ends.1.toInt ends.2.toInt

/-- The larger of two ends. -/
def high (ends : Int64 × Int64) : Int := max ends.1.toInt ends.2.toInt

lemma mem_between {ends : Int64 × Int64} {x : Int} : x ∈ between ends ↔ low ends ≤ x ∧ x ≤ high ends :=
  Iff.rfl

instance (ends : Int64 × Int64) (x : Int) : Decidable (x ∈ between ends) :=
  inferInstanceAs (Decidable (low ends ≤ x ∧ x ≤ high ends))

lemma low_mem_between (ends : Int64 × Int64) : low ends ∈ between ends :=
  mem_between.mpr (by unfold low high; omega)

lemma high_mem_between (ends : Int64 × Int64) : high ends ∈ between ends :=
  mem_between.mpr (by unfold low high; omega)

/-- Two pairs of ends are in the same order. -/
def Aligned (a b : Int64 × Int64) : Prop := a.1 ≤ a.2 ∧ b.1 ≤ b.2 ∨ a.2 ≤ a.1 ∧ b.2 ≤ b.1

instance (a b : Int64 × Int64) : Decidable (Aligned a b) := inferInstanceAs (Decidable (_ ∨ _))

/-- Operations that grow with both operands. -/
inductive Joint where
  | sum
  | pick (kind : Builtin)

namespace Joint

def bound : Joint → Bound → Bound → DataType → Bound
  | sum, l, r, ty => .binary .add l r ty
  | pick kind, l, r, ty => .builtin kind l r ty

/-- The value on two integers; a sum is cut to its type. -/
def value (ty : DataType) : Joint → Int → Int → Int
  | sum, x, y => ty.nearest (x + y)
  | pick kind, x, y => kind.onIntegers x y

/-- The ends of the operands can be paired in any order: all sums are cut to one limit of their type, or
the paired ends to both limits; no value of one operand lies inside the other. -/
def Indifferent (ty : DataType) (a b : Int64 × Int64) : Joint → Prop
  | sum => ∃ lo hi : Int64, ty.limits = some (lo, hi) ∧
      (high a + high b ≤ lo.toInt ∨ hi.toInt ≤ low a + low b ∨
        a.1.toInt + b.1.toInt ≤ lo.toInt ∧ hi.toInt ≤ a.2.toInt + b.2.toInt ∨
        a.2.toInt + b.2.toInt ≤ lo.toInt ∧ hi.toInt ≤ a.1.toInt + b.1.toInt)
  | pick _ => high a ≤ low b ∨ high b ≤ low a

variable {ty : DataType} {op : Joint}

lemma value_mono (ty : DataType) (op : Joint) {x x' y y' : Int} (hx : x ≤ x') (hy : y ≤ y') :
    op.value ty x y ≤ op.value ty x' y' := by
  cases op with
  | sum => exact ty.nearest_mono (by omega)
  | pick kind => exact kind.onIntegers_mono hx hy

/-- The ends of two operands are paired to the ends of the result. -/
def Pairs (op : Joint) (ty : DataType) (a b c : Int64 × Int64) : Prop :=
  c.1.toInt = op.value ty a.1.toInt b.1.toInt ∧ c.2.toInt = op.value ty a.2.toInt b.2.toInt

lemma Pairs.low_eq {a b c : Int64 × Int64} (h : op.Pairs ty a b c) :
    low c = min (op.value ty a.1.toInt b.1.toInt) (op.value ty a.2.toInt b.2.toInt) := by
  rw [low, h.1, h.2]

lemma Pairs.high_eq {a b c : Int64 × Int64} (h : op.Pairs ty a b c) :
    high c = max (op.value ty a.1.toInt b.1.toInt) (op.value ty a.2.toInt b.2.toInt) := by
  rw [high, h.1, h.2]

/-- Since the operation grows, its values are enclosed if those at the smaller and at the larger ends
are. -/
lemma encloses_iff_corners {a b c : Int64 × Int64} :
    (∀ x ∈ between a, ∀ y ∈ between b, op.value ty x y ∈ between c) ↔
      low c ≤ op.value ty (low a) (low b) ∧ op.value ty (high a) (high b) ≤ high c := by
  constructor
  · intro h
    have hlow := h _ (low_mem_between a) _ (low_mem_between b)
    have hhigh := h _ (high_mem_between a) _ (high_mem_between b)
    exact ⟨(mem_between.mp hlow).1, (mem_between.mp hhigh).2⟩
  · rintro ⟨hlow, hhigh⟩ x hx y hy
    rw [mem_between] at hx hy
    exact mem_between.mpr ⟨hlow.trans (value_mono ty op hx.1 hy.1),
      (value_mono ty op hx.2 hy.2).trans hhigh⟩

/-- Ends in the same order are paired smaller with smaller and larger with larger. -/
lemma corners_of_aligned {a b c : Int64 × Int64} (hc : op.Pairs ty a b c) (h : Aligned a b) :
    low c ≤ op.value ty (low a) (low b) ∧ op.value ty (high a) (high b) ≤ high c := by
  rw [hc.low_eq, hc.high_eq]
  unfold low high
  rcases h with ⟨ha, hb⟩ | ⟨ha, hb⟩ <;> rw [Int64.le_iff_toInt_le] at ha hb
  · rw [min_eq_left ha, min_eq_left hb, max_eq_right ha, max_eq_right hb]
    exact ⟨min_le_left _ _, le_max_right _ _⟩
  · rw [min_eq_right ha, min_eq_right hb, max_eq_left ha, max_eq_left hb]
    exact ⟨min_le_right _ _, le_max_left _ _⟩

/-- Ends in different orders are paired smaller with larger. -/
lemma crossed_of_not_aligned {a b : Int64 × Int64} (h : ¬Aligned a b) :
    a.1.toInt < a.2.toInt ∧ b.2.toInt < b.1.toInt ∨ a.2.toInt < a.1.toInt ∧ b.1.toInt < b.2.toInt := by
  simp only [Aligned, Int64.le_iff_toInt_le] at h
  omega

/-- Of four integers cut to limits, the outer two stay between the inner two only if the limits hide
the difference. -/
lemma cut_between_iff {lo hi least v w greatest : Int} (hlimits : lo < hi) (hv : least < v)
    (hw : least < w) (hv' : v < greatest) (hw' : w < greatest) :
    min (max lo (min v hi)) (max lo (min w hi)) ≤ max lo (min least hi) ∧
        max lo (min greatest hi) ≤ max (max lo (min v hi)) (max lo (min w hi)) ↔
      greatest ≤ lo ∨ hi ≤ least ∨ v ≤ lo ∧ hi ≤ w ∨ w ≤ lo ∧ hi ≤ v := by
  omega

lemma limits_lt {lo hi : Int64} (h : ty.limits = some (lo, hi)) : lo.toInt < hi.toInt := by
  cases ty <;> cases h <;> decide

lemma sum_corners_iff {lo hi : Int64} (hlimits : ty.limits = some (lo, hi)) {a b c : Int64 × Int64}
    (hc : sum.Pairs ty a b c) (h : ¬Aligned a b) :
    low c ≤ sum.value ty (low a) (low b) ∧ sum.value ty (high a) (high b) ≤ high c ↔
      sum.Indifferent ty a b := by
  have hindifferent : sum.Indifferent ty a b ↔
      high a + high b ≤ lo.toInt ∨ hi.toInt ≤ low a + low b ∨
        a.1.toInt + b.1.toInt ≤ lo.toInt ∧ hi.toInt ≤ a.2.toInt + b.2.toInt ∨
        a.2.toInt + b.2.toInt ≤ lo.toInt ∧ hi.toInt ≤ a.1.toInt + b.1.toInt := by
    simp [Indifferent, hlimits]
  rw [hindifferent, hc.low_eq, hc.high_eq]
  simp only [value, DataType.nearest, hlimits]
  have hcrossed := crossed_of_not_aligned h
  apply cut_between_iff (limits_lt hlimits) <;> simp only [low, high] <;> omega

lemma pick_corners_iff (kind : Builtin) {a b c : Int64 × Int64} (hc : (pick kind).Pairs ty a b c)
    (h : ¬Aligned a b) :
    low c ≤ (pick kind).value ty (low a) (low b) ∧ (pick kind).value ty (high a) (high b) ≤ high c ↔
      (pick kind).Indifferent ty a b := by
  have hcrossed := crossed_of_not_aligned h
  rw [hc.low_eq, hc.high_eq]
  unfold Indifferent low high
  cases kind <;> simp only [value, Builtin.onIntegers] <;> omega

/-- The paired ends enclose all values exactly if the operands have their ends in the same order or
the order makes no difference. -/
theorem encloses_iff_aligned {lo hi : Int64} (hlimits : ty.limits = some (lo, hi))
    {a b c : Int64 × Int64} (hc : op.Pairs ty a b c) :
    (∀ x ∈ between a, ∀ y ∈ between b, op.value ty x y ∈ between c) ↔
      Aligned a b ∨ op.Indifferent ty a b := by
  rw [encloses_iff_corners]
  by_cases h : Aligned a b
  · exact iff_of_true (corners_of_aligned hc h) (.inl h)
  · rw [or_iff_right h]
    cases op with
    | sum => exact sum_corners_iff hlimits hc h
    | pick kind => exact pick_corners_iff kind hc h

end Joint

namespace Context

variable {p : Program} {ctx : Context} {frame : Frame} {l r : Bound} {s s₁ s₂ : Probe}

lemma run_both {l r : Probing Bound} {f : Bound → Bound → Probing Bound} {l' r' : Bound}
    (hl : l.run s = (l', s₁)) (hr : r.run s₁ = (r', s₂)) :
    (do f (← l) (← r)).run s = (f l' r').run s₂ :=
  (run_bind_of_run hl _).trans (run_bind_of_run hr _)

/-- Narrowing pairs the ends that it finds for the operands, and cannot fail on the way. -/
lemma evaluate_joint (op : Joint) (ty : DataType) {l' r' : Bound} {a b : Int64 × Int64}
    (hl : (ctx.evaluate p frame l).run s = (l', s₁)) (ha : l'.interval? = some a)
    (hr : (ctx.evaluate p frame r).run s₁ = (r', s₂)) (hb : r'.interval? = some b) :
    ∃ result c, (ctx.evaluate p frame (op.bound l r ty)).run s = (result, s₂) ∧
      result.interval? = some c ∧ op.Pairs ty a b c := by
  unfold evaluate at hl hr ⊢
  cases op with
  | sum =>
    refine ⟨.interval (ty.saturate (Saturating.add a.1 b.1)) (ty.saturate (Saturating.add a.2 b.2)) ty,
      _, ?_, Bound.interval?_interval _ _ _, ty.toInt_saturate_clamp _, ty.toInt_saturate_clamp _⟩
    rw [Joint.bound, Evaluation.narrow, run_both hl hr, ha, hb]
    dsimp only
    rw [Evaluation.binaryInterval_eq ty rfl rfl (by simp [BinaryOp.isDivision])]
    rfl
  | pick kind =>
    refine ⟨.interval (kind.apply a.1 b.1) (kind.apply a.2 b.2) ty, _, ?_,
      Bound.interval?_interval _ _ _, kind.toInt_apply _ _, kind.toInt_apply _ _⟩
    rw [Joint.bound, Evaluation.narrow, run_both hl hr, ha, hb]
    rfl

/-- Where two bounds narrow to intervals, their sum, minimum or maximum narrows to an interval as well.
It encloses the values of the operation on all integers between the ends exactly if the operands have
their ends in the same order, or the order makes no difference. -/
theorem joint_values_enclosed_iff (op : Joint) {ty : DataType} {lo hi : Int64}
    (hlimits : ty.limits = some (lo, hi)) {l' r' : Bound} {a b : Int64 × Int64}
    (hl : (ctx.evaluate p frame l).run s = (l', s₁)) (ha : l'.interval? = some a)
    (hr : (ctx.evaluate p frame r).run s₁ = (r', s₂)) (hb : r'.interval? = some b) :
    ∃ result c, (ctx.evaluate p frame (op.bound l r ty)).run s = (result, s₂) ∧
      result.interval? = some c ∧
      ((∀ x ∈ between a, ∀ y ∈ between b, op.value ty x y ∈ between c) ↔
        Aligned a b ∨ op.Indifferent ty a b) := by
  obtain ⟨result, c, hrun, hc, hpairs⟩ := evaluate_joint op ty hl ha hr hb
  exact ⟨result, c, hrun, hc, Joint.encloses_iff_aligned hlimits hpairs⟩

end Context

/-! Two loops over ten cells each, and an access at `i + (9 - j)` to an array of ten cells. -/
namespace Antidiagonal

def across : Term := ⟨⟨0⟩, .var "i" .int none⟩
def along : Term := ⟨⟨1⟩, .var "j" .int none⟩
def last : Term := ⟨⟨2⟩, .literal (.int 9)⟩
def backward : Term := ⟨⟨3⟩, .binary .sub last along .int⟩
def index : Term := ⟨⟨4⟩, .binary .add across backward .int⟩
def cell : Term := ⟨⟨5⟩, .access ⟨0⟩ [index]⟩
def inner : Term := ⟨⟨6⟩, .forLoop ⟨1⟩ cell⟩
def outer : Term := ⟨⟨7⟩, .forLoop ⟨0⟩ inner⟩

def program : Program where
  terms := #[across, along, last, backward, index, cell, inner, outer]
  loops := #[⟨"i", .int, .simple ⟨0, 10, 1⟩⟩, ⟨"j", .int, .simple ⟨0, 10, 1⟩⟩]
  arrays := #[⟨"a", ⟨.intArray, [10]⟩, none, false⟩]

def session : Session := ((Session.new outer {} ∅).prepare program).2

/-- Narrowing under both loops. -/
def narrow (b : Bound) : Bound × Probe :=
  (session.context.evaluate program { loops := [⟨0⟩, ⟨1⟩] } b).run {}

def reversed (name : String) : Bound := .binary .sub (.literal 9 .int) (.var name .int) .int

/-- Two differences have their larger ends first, and their sum keeps all values from 0 to 18. -/
theorem reversed_ends_keep_values :
    (narrow (reversed "i")).1.interval? = some (9, 0) ∧
    (narrow (reversed "j")).1.interval? = some (9, 0) ∧
    ∃ c, (narrow (Joint.sum.bound (reversed "i") (reversed "j") .int)).1.interval? = some c ∧
      ∀ x ∈ between (9, 0), ∀ y ∈ between (9, 0), Joint.sum.value .int x y ∈ between c := by
  have hleft : narrow (reversed "i") = (.interval 9 0 .int, {}) := rfl
  have hright : narrow (reversed "j") = (.interval 9 0 .int, {}) := rfl
  have hlimits : DataType.int.limits = some (-2147483648, 2147483647) := rfl
  obtain ⟨result, c, hrun, hc, hencloses⟩ :=
    Context.joint_values_enclosed_iff .sum hlimits hleft rfl hright rfl
  refine ⟨rfl, rfl, c, ?_, hencloses.mpr (.inl (by decide))⟩
  rw [narrow, hrun]
  exact hc

/-- One operand has its smaller end first and the other its larger: of all sums from 0 to 18 the paired
ends leave 9, and the access is stored as needing no check. -/
theorem crossed_ends_lose_values :
    session.context.accessVerdicts.get? ⟨5⟩ = some [false] ∧
    (narrow (.var "i" .int)).1.interval? = some (0, 9) ∧
    (narrow (reversed "j")).1.interval? = some (9, 0) ∧
    (narrow (Joint.sum.bound (.var "i" .int) (reversed "j") .int)).1.interval? = some (9, 9) ∧
    9 ∈ between (0, 9) ∧ 9 ∈ between (9, 0) ∧ Joint.sum.value .int 9 9 ∉ between (9, 9) := by
  exact ⟨by decide +kernel, by decide +kernel, by decide +kernel, by decide +kernel, by decide,
    by decide, by decide⟩

end Antidiagonal

end LoopSafety
