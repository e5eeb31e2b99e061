import Mathlib.Tactic.Common
import LoopSafety.Bound.Basic
import LoopSafety.Program.Basic

/-! The values of symbolic bounds.

A bound takes its values under an assignment of integers to names. Operations are exact and then cut
to the range of their type. -/
namespace LoopSafety

namespace BinaryOp

/-- The exact result on integers of the operators that can keep an order. -/
def onIntegers : BinaryOp → Int → Int → Option Int
  | add, x, y => some (x + y)
  | sub, x, y => some (x - y)
  | mul, x, y => some (x * y)
  | div, x, y => if y = 0 then none else some (x.tdiv y)
  | _, _, _ => none

/-- With this literal on its right, the operator grows with its left operand. -/
def GrowsBy : BinaryOp → Int64 → Prop
  | sub, _ => True
  | mul, c => 0 ≤ c.toInt
  | div, c => 0 < c.toInt
  | _, _ => False

lemma onIntegers_mono {op : BinaryOp} {c : Int64} (hop : op.GrowsBy c) {x x' z z' : Int}
    (hle : x ≤ x') (h : op.onIntegers x c.toInt = some z) (h' : op.onIntegers x' c.toInt = some z') :
    z ≤ z' := by
  cases op <;> simp only [GrowsBy] at hop <;>
    simp only [onIntegers, Option.some.injEq, Option.ite_none_left_eq_some] at h h'
  case sub => omega
  case mul =>
    rw [← h, ← h']
    exact Int.mul_le_mul_of_nonneg_right hle hop
  case div =>
    rw [← h.2, ← h'.2]
    exact Int.tdiv_le_tdiv hop hle

lemma exists_onIntegers {op : BinaryOp} {c : Int64} (hop : op.GrowsBy c) (x : Int) :
    ∃ z, op.onIntegers x c.toInt = some z := by
  cases op <;> simp only [GrowsBy] at hop
  case sub => exact ⟨_, rfl⟩
  case mul => exact ⟨_, rfl⟩
  case div => exact ⟨x.tdiv c.toInt, if_neg (by omega)⟩

lemma exists_apply {op : BinaryOp} {a b : Int64} {z : Int}
    (h : op.onIntegers a.toInt b.toInt = some z) : ∃ v, op.apply a b = some v := by
  cases hv : op.apply a b with
  | some v => exact ⟨v, rfl⟩
  | none =>
    obtain ⟨hdiv, rfl⟩ := (apply_eq_none_iff op a b).mp hv
    cases op <;> simp [isDivision] at hdiv <;> simp [onIntegers] at h

end BinaryOp

namespace DataType

/-- The integer nearest to an integer within the limits of a type, which are those of 64 bits for a
type that has none of its own. -/
def nearest (ty : DataType) (z : Int) : Int :=
  match ty.limits with
  | some (lo, hi) => max lo.toInt (min z hi.toInt)
  | Option.none => max Saturating.least (min z Saturating.greatest)

lemma nearest_mono (ty : DataType) {y z : Int} (h : y ≤ z) : ty.nearest y ≤ ty.nearest z := by
  unfold nearest
  split <;> omega

/-- Cutting to 64 bits first does not change the nearest integer of a type. -/
lemma toInt_saturate_clamp (ty : DataType) (z : Int) :
    (ty.saturate (Saturating.clamp z)).toInt = ty.nearest z := by
  have hmin : Int64.minValue.toInt = -9223372036854775808 := by decide
  have hmax : Int64.maxValue.toInt = 9223372036854775807 := by decide
  have hlo : (-2147483648 : Int64).toInt = -2147483648 := by decide
  have hhi : (2147483647 : Int64).toInt = 2147483647 := by decide
  cases ty <;> simp only [saturate, nearest, limits, Saturating.toInt_max, Saturating.toInt_min,
    Saturating.toInt_clamp, Saturating.least, Saturating.greatest] <;> omega

/-- Literal arithmetic in a type is exact arithmetic cut to the type. -/
lemma toInt_saturate_apply {op : BinaryOp} {a b v : Int64} {z : Int} (ty : DataType)
    (h : op.apply a b = some v) (hz : op.onIntegers a.toInt b.toInt = some z) :
    (ty.saturate v).toInt = ty.nearest z := by
  cases op <;> simp only [BinaryOp.onIntegers, Option.some.injEq, Option.ite_none_left_eq_some,
    reduceCtorEq] at hz <;> simp only [BinaryOp.apply, Option.some.injEq,
    Option.ite_none_left_eq_some] at h
  case add => rw [← h, ← hz]; exact toInt_saturate_clamp ty _
  case sub => rw [← h, ← hz]; exact toInt_saturate_clamp ty _
  case mul => rw [← h, ← hz]; exact toInt_saturate_clamp ty _
  case div => rw [← h.2, ← hz.2]; exact toInt_saturate_clamp ty _

end DataType

namespace Builtin

def onIntegers : Builtin → Int → Int → Int
  | min, x, y => Min.min x y
  | max, x, y => Max.max x y

lemma toInt_apply (kind : Builtin) (a b : Int64) :
    (kind.apply a b).toInt = kind.onIntegers a.toInt b.toInt := by
  cases kind
  · exact Saturating.toInt_min a b
  · exact Saturating.toInt_max a b

lemma onIntegers_mono (kind : Builtin) {x x' y y' : Int} (hx : x ≤ x') (hy : y ≤ y') :
    kind.onIntegers x y ≤ kind.onIntegers x' y' := by
  cases kind <;> simp only [onIntegers] <;> omega

end Builtin

namespace Bound

/-- The values of a bound under an assignment. A conditional takes those of either part, an array
those of its contents. -/
inductive Takes (p : Program) (σ : String → Int) : Bound → Int → Prop
  | literal (value : Int64) (ty : DataType) : Takes p σ (.literal value ty) value.toInt
  | var (name : String) (ty : DataType) : Takes p σ (.var name ty) (σ name)
  | thenPart {t e ty x} (h : Takes p σ t x) : Takes p σ (.either t e ty) x
  | elsePart {t e ty x} (h : Takes p σ e x) : Takes p σ (.either t e ty) x
  | builtin {kind l r ty x y} (hl : Takes p σ l x) (hr : Takes p σ r y) :
      Takes p σ (.builtin kind l r ty) (kind.onIntegers x y)
  | binary {op l r ty x y z} (hl : Takes p σ l x) (hr : Takes p σ r y)
      (hz : op.onIntegers x y = some z) : Takes p σ (.binary op l r ty) (ty.nearest z)
  | array {id name ty b s v} (hb : p.array? id = some b) (hs : b.storage = some s)
      (hv : v ∈ s.values) : Takes p σ (.array id name ty) v.toInt

lemma Takes.binary_of_eq {p : Program} {σ : String → Int} {op : BinaryOp} {l r : Bound} {ty : DataType}
    {x y z w : Int} (hl : Takes p σ l x) (hr : Takes p σ r y) (hz : op.onIntegers x y = some z)
    (hw : ty.nearest z = w) : Takes p σ (.binary op l r ty) w :=
  hw ▸ .binary hl hr hz

/-- Bounds in which every operation keeps the order of its operands. -/
inductive OrderPreserving : Bound → Prop
  | literal (value : Int64) (ty : DataType) : OrderPreserving (.literal value ty)
  | var (name : String) (ty : DataType) : OrderPreserving (.var name ty)
  | array (id : ArrayId) (name : String) (ty : DataType) : OrderPreserving (.array id name ty)
  | either {t e ty} (ht : OrderPreserving t) (he : OrderPreserving e) :
      OrderPreserving (.either t e ty)
  | builtin {kind l r ty} (hl : OrderPreserving l) (hr : OrderPreserving r) :
      OrderPreserving (.builtin kind l r ty)
  | add {l r ty} (hl : OrderPreserving l) (hr : OrderPreserving r) :
      OrderPreserving (.binary .add l r ty)
  | byLiteral {op l value t ty} (hl : OrderPreserving l) (hop : op.GrowsBy value) :
      OrderPreserving (.binary op l (.literal value t) ty)

/-- The names that stand in a bound. -/
inductive Mentions (name : String) : Bound → Prop
  | var (ty : DataType) : Mentions name (.var name ty)
  | thenPart {t e ty} (h : Mentions name t) : Mentions name (.either t e ty)
  | elsePart {t e ty} (h : Mentions name e) : Mentions name (.either t e ty)
  | builtinLeft {kind l r ty} (h : Mentions name l) : Mentions name (.builtin kind l r ty)
  | builtinRight {kind l r ty} (h : Mentions name r) : Mentions name (.builtin kind l r ty)
  | binaryLeft {op l r ty} (h : Mentions name l) : Mentions name (.binary op l r ty)
  | binaryRight {op l r ty} (h : Mentions name r) : Mentions name (.binary op l r ty)

/-- The bound is an interval that holds all values of a set. -/
def Encloses (r : Bound) (values : Int → Prop) : Prop :=
  ∃ lo hi, r.interval? = some (lo, hi) ∧ ∀ x, values x → lo.toInt ≤ x ∧ x ≤ hi.toInt

lemma encloses_interval {lo hi : Int64} {ty : DataType} {values : Int → Prop}
    (h : ∀ x, values x → lo.toInt ≤ x ∧ x ≤ hi.toInt) : (interval lo hi ty).Encloses values :=
  ⟨lo, hi, interval?_interval lo hi ty, h⟩

lemma encloses_literal (value : Int64) (ty : DataType) :
    (literal value ty).Encloses (· = value.toInt) :=
  ⟨value, value, rfl, fun x hx => by omega⟩

lemma Encloses.mono {r : Bound} {values values' : Int → Prop} (h : r.Encloses values)
    (himp : ∀ x, values' x → values x) : r.Encloses values' := by
  obtain ⟨lo, hi, hr, hall⟩ := h
  exact ⟨lo, hi, hr, fun x hx => hall x (himp x hx)⟩

/-- The exact results of an operator on the values of two bounds. -/
def Results (p : Program) (σ : String → Int) (op : BinaryOp) (l r : Bound) (z : Int) : Prop :=
  ∃ x y, Takes p σ l x ∧ Takes p σ r y ∧ op.onIntegers x y = some z

lemma Takes.exists_results {p : Program} {σ : String → Int} {op : BinaryOp} {l r : Bound}
    {ty : DataType} {w : Int} (h : Takes p σ (.binary op l r ty) w) :
    ∃ z, Results p σ op l r z ∧ w = ty.nearest z := by
  cases h with
  | @binary _ _ _ _ x y z hl hr hz => exact ⟨z, ⟨x, y, hl, hr, hz⟩, rfl⟩

/-- The bound is an interval whose ends are the nearest integers of a type to two integers around all
of a set. In contrast to the set, the ends have been cut to the type. -/
def Brackets (r : Bound) (ty : DataType) (results : Int → Prop) : Prop :=
  ∃ lo hi zlo zhi, r.interval? = some (lo, hi) ∧ lo.toInt = ty.nearest zlo ∧
    hi.toInt = ty.nearest zhi ∧ ∀ z, results z → zlo ≤ z ∧ z ≤ zhi

lemma Brackets.encloses {r : Bound} {ty : DataType} {results : Int → Prop}
    (h : r.Brackets ty results) : r.Encloses fun w => ∃ z, results z ∧ w = ty.nearest z := by
  obtain ⟨lo, hi, zlo, zhi, hr, hlo, hhi, hall⟩ := h
  refine ⟨lo, hi, hr, ?_⟩
  rintro w ⟨z, hz, rfl⟩
  rw [hlo, hhi]
  exact ⟨ty.nearest_mono (hall z hz).1, ty.nearest_mono (hall z hz).2⟩

lemma Brackets.mono {r : Bound} {ty : DataType} {results results' : Int → Prop}
    (h : r.Brackets ty results) (himp : ∀ z, results' z → results z) : r.Brackets ty results' := by
  obtain ⟨lo, hi, zlo, zhi, hr, hlo, hhi, hall⟩ := h
  exact ⟨lo, hi, zlo, zhi, hr, hlo, hhi, fun z hz => hall z (himp z hz)⟩

/-- A bound that lies below a size keeps what it encloses below it. -/
theorem Encloses.within {r : Bound} {values : Int → Prop} {size : Int64} (h : r.Encloses values)
    (hw : r.within size = true) {x : Int} (hx : values x) : 0 ≤ x ∧ x < size.toInt := by
  obtain ⟨lo, hi, hr, hall⟩ := h
  have hends : 0 ≤ lo.toInt ∧ hi.toInt < size.toInt := by
    unfold interval? at hr
    split at hr
    · cases hr
      simpa [Bound.within, Int64.le_iff_toInt_le, Int64.lt_iff_toInt_lt] using hw
    · cases hr
      simp only [Bound.within, Bool.and_eq_true, decide_eq_true_eq, Int64.le_iff_toInt_le,
        Int64.lt_iff_toInt_lt, Int64.toInt_zero] at hw
      exact ⟨hw.1.1, hw.2.2⟩
    · cases hr
  have := hall x hx
  omega

end Bound

/-- A loop from `s` in steps of `d` to before `t` visits `v`. A step of zero stays where it is. -/
def Visits (s t d v : Int) : Prop :=
  ∃ k : Nat, v = s + k * d ∧ (0 < d → v < t) ∧ (d < 0 → t < v)

namespace Visits

variable {s t d v : Int}

lemma ascending {s₁ t₂ d₁ : Int64} (h : Visits s t d v) (hs : s₁.toInt ≤ s) (ht : t ≤ t₂.toInt)
    (hd : d₁.toInt ≤ d) (hpos : 0 < d₁) : s₁.toInt ≤ v ∧ v ≤ (Saturating.sub t₂ 1).toInt := by
  obtain ⟨k, hv, hside, -⟩ := h
  have hd₁ : 0 < d₁.toInt := by simpa [Int64.lt_iff_toInt_lt] using hpos
  have hk : 0 ≤ (k : Int) * d := Int.mul_nonneg (Int.natCast_nonneg k) (by omega)
  have hone : (1 : Int64).toInt = 1 := by decide
  have hgreatest := Saturating.le_greatest t₂
  rw [Saturating.toInt_sub, hone]
  omega

lemma descending {s₂ t₁ d₂ : Int64} (h : Visits s t d v) (hs : s ≤ s₂.toInt) (ht : t₁.toInt ≤ t)
    (hd : d ≤ d₂.toInt) (hneg : d₂ < 0) : (Saturating.add t₁ 1).toInt ≤ v ∧ v ≤ s₂.toInt := by
  obtain ⟨k, hv, -, hside⟩ := h
  have hd₂ : d₂.toInt < 0 := by simpa [Int64.lt_iff_toInt_lt] using hneg
  have hk : (k : Int) * d ≤ 0 := Int.mul_nonpos_of_nonneg_of_nonpos (Int.natCast_nonneg k) (by omega)
  have hone : (1 : Int64).toInt = 1 := by decide
  have hleast := Saturating.least_le t₁
  rw [Saturating.toInt_add, hone]
  omega

end Visits

end LoopSafety
