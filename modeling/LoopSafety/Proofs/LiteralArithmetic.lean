import Mathlib.Algebra.Order.Ring.Int
import Mathlib.Algebra.Ring.Int.Parity
import Mathlib.Tactic.Linarith
import LoopSafety.Operator

/-! Literal arithmetic against the integers.

Every operator gives the exact integer result cut to 64 bits, with two exceptions. Exponents and shift
distances are cut before they are used: a power of a negative number loses its sign where the cut
makes an even exponent odd, and the power of two that the longest shift multiplies by is itself cut,
which shows in the multiple of -1 alone. -/
namespace LoopSafety

namespace Saturating

lemma clamp_eq_iff {m n : Int} :
    clamp m = clamp n ↔ max least (min m greatest) = max least (min n greatest) := by
  rw [← Int64.toInt_inj, toInt_clamp, toInt_clamp]

/-- Powers with large exponents are all the same or all too large. -/
lemma pow_eq_or_large {y : Int} (hy : 0 ≤ y) {e e' : Nat} (he : 63 ≤ e) (he' : 63 ≤ e') :
    y ^ e = y ^ e' ∨ greatest < y ^ e ∧ greatest < y ^ e' := by
  have hlarge {n : Nat} (hbase : 2 ≤ y) (hn : 63 ≤ n) : greatest < y ^ n :=
    calc greatest < 2 ^ 63 := by decide
      _ ≤ 2 ^ n := pow_le_pow_right₀ (by decide) hn
      _ ≤ y ^ n := pow_le_pow_left₀ (by decide) hbase n
  rcases (by omega : y = 0 ∨ y = 1 ∨ 2 ≤ y) with rfl | rfl | hbase
  · left
    rw [zero_pow (by omega), zero_pow (by omega)]
  · left
    rw [one_pow, one_pow]
  · exact .inr ⟨hlarge hbase he, hlarge hbase he'⟩

/-- Of a large exponent nothing but its parity counts, and that for negative numbers only. -/
lemma clamp_pow_congr {x : Int} {e e' : Nat} (he : 63 ≤ e) (he' : 63 ≤ e')
    (hparity : 0 ≤ x ∨ (Even e ↔ Even e')) : clamp (x ^ e) = clamp (x ^ e') := by
  rw [clamp_eq_iff]
  unfold least greatest
  by_cases hx : 0 ≤ x
  · have := pow_eq_or_large hx he he'
    unfold greatest at this
    omega
  · obtain ⟨y, rfl⟩ : ∃ y, x = -y := ⟨-x, by omega⟩
    have hsame := pow_eq_or_large (y := y) (by omega) he he'
    unfold greatest at hsame
    have hparity := hparity.resolve_left hx
    by_cases heven : Even e
    · rw [heven.neg_pow, (hparity.mp heven).neg_pow]
      omega
    · rw [(Nat.not_even_iff_odd.mp heven).neg_pow,
        (Nat.not_even_iff_odd.mp (mt hparity.mpr heven)).neg_pow]
      omega

/-- The power is the exact one, cut once. -/
theorem pow_eq_clamp (a : Int64) (e : Nat) : pow a e = clamp (a.toInt ^ e) := by
  change clamp (a.toInt ^ effectiveExponent e) = _
  unfold effectiveExponent
  split
  · rfl
  · refine clamp_pow_congr (by omega) (by omega) (.inr ?_)
    rw [Nat.even_add, Nat.even_iff, Nat.even_iff, Nat.even_iff]
    omega

/-- An exponent cut to 32 bits counts where it was even and is odd now. -/
theorem clamp_pow_cut_iff (x : Int) (n : Nat) :
    clamp (x ^ min n (UInt32.size - 1)) = clamp (x ^ n) ↔ ¬(x < 0 ∧ 2 ^ 32 ≤ n ∧ Even n) := by
  have hsize : UInt32.size = 2 ^ 32 := rfl
  by_cases hn : n < 2 ^ 32
  · rw [Nat.min_eq_left (by omega)]
    exact iff_of_true rfl fun h => by omega
  · rw [Nat.min_eq_right (by omega)]
    have hodd : Odd (UInt32.size - 1) := by decide
    constructor
    · rintro hsame ⟨hx, -, heven⟩
      have hneg := hodd.pow_neg hx
      have hpos := heven.pow_pos hx.ne
      rw [clamp_eq_iff] at hsame
      unfold least greatest at hsame
      omega
    · intro hcut
      refine clamp_pow_congr (by omega) (by omega) ?_
      by_cases hx : x < 0
      · have hn' : ¬Even n := fun heven => hcut ⟨hx, by omega, heven⟩
        exact .inr (iff_of_false (Nat.not_even_iff_odd.mpr hodd) hn')
      · exact .inl (by omega)

/-- From a distance of 63 on, only the multiple of -1 shows that the power of two is cut. -/
theorem shiftLeft_eq_iff (a b : Int64) :
    shiftLeft a b = clamp (a.toInt * 2 ^ b.toInt.toNat) ↔ ¬(a = -1 ∧ 63 ≤ b.toInt) := by
  have hone : a = -1 ↔ a.toInt = -1 := by rw [← Int64.toInt_inj]; rfl
  unfold shiftLeft mul shiftDistance
  rw [pow_eq_clamp, show (2 : Int64).toInt = 2 from rfl, hone]
  generalize a.toInt = x
  by_cases hb : b.toInt < 63
  · have hpow : (2 : Int) ^ b.toInt.toNat ≤ 2 ^ 62 := pow_le_pow_right₀ (by decide) (by omega)
    have hpos : (0 : Int) < 2 ^ b.toInt.toNat := by positivity
    rw [Nat.min_eq_left (by omega), toInt_clamp_of_mem (by unfold least; omega)
      (by unfold greatest; omega)]
    exact iff_of_true rfl fun h => by omega
  · have hpow : (2 : Int) ^ 63 ≤ 2 ^ b.toInt.toNat := pow_le_pow_right₀ (by decide) (by omega)
    rw [Nat.min_eq_right (by omega), show (clamp (2 ^ 63)).toInt = greatest from by decide, clamp_eq_iff]
    generalize (2 : Int) ^ b.toInt.toNat = q at hpow
    unfold least greatest
    rcases (by omega : x ≤ -2 ∨ x = -1 ∨ x = 0 ∨ 1 ≤ x) with hx | rfl | rfl | hx
    · have : x * q ≤ -2 * q := by nlinarith
      omega
    · omega
    · omega
    · have : q ≤ x * q := by nlinarith
      omega

/-- Past all 64 bits nothing is left of a number but its sign. -/
lemma fdiv_pow_of_le (a : Int64) {n : Nat} (hn : 63 ≤ n) :
    a.toInt.fdiv (2 ^ n) = if a.toInt < 0 then -1 else 0 := by
  have hpow : (2 : Int) ^ 63 ≤ 2 ^ n := pow_le_pow_right₀ (by decide) hn
  have hleast := least_le a
  have hgreatest := le_greatest a
  unfold least at hleast
  unfold greatest at hgreatest
  rw [Int.fdiv_eq_ediv_of_nonneg _ (by omega)]
  generalize (2 : Int) ^ n = q at hpow
  split
  · rw [Int.ediv_eq_iff_of_pos (by omega)]
    omega
  · exact Int.ediv_eq_zero_of_lt (by omega) (by omega)

theorem shiftRight_eq_clamp (a b : Int64) :
    shiftRight a b = clamp (a.toInt.fdiv (2 ^ b.toInt.toNat)) := by
  have hshift (n : Nat) : a.toInt >>> n = a.toInt.fdiv (2 ^ n) := by
    rw [Int.shiftRight_eq_div_pow, Int.fdiv_eq_ediv_of_nonneg _ (by positivity)]
    norm_cast
  unfold shiftRight shiftDistance
  rw [hshift]
  by_cases hb : b.toInt.toNat < 63
  · rw [Nat.min_eq_left (by omega)]
  · rw [Nat.min_eq_right (by omega), fdiv_pow_of_le a (by omega), fdiv_pow_of_le a (by omega)]

end Saturating

namespace BinaryOp

/-- The exact results of integer arithmetic: quotients are cut toward zero, with the remainders that
belong to them, and a shift to the right is the floor of a quotient. Exponents and distances are not
negative. -/
inductive Exact : BinaryOp → Int → Int → Int → Prop
  | add (x y : Int) : Exact add x y (x + y)
  | sub (x y : Int) : Exact sub x y (x - y)
  | mul (x y : Int) : Exact mul x y (x * y)
  | div (x : Int) {y : Int} (hy : y ≠ 0) : Exact div x y (x.tdiv y)
  | mod (x : Int) {y : Int} (hy : y ≠ 0) : Exact mod x y (x.tmod y)
  | pow (x : Int) {y : Int} (hy : 0 ≤ y) : Exact pow x y (x ^ y.toNat)
  | leftShift (x : Int) {y : Int} (hy : 0 ≤ y) : Exact leftShift x y (x * 2 ^ y.toNat)
  | rightShift (x : Int) {y : Int} (hy : 0 ≤ y) : Exact rightShift x y (x.fdiv (2 ^ y.toNat))

/-- The cut of an exponent or a distance changes the result. -/
def Miscut (op : BinaryOp) (a b : Int64) : Prop :=
  op = leftShift ∧ a = -1 ∧ 63 ≤ b.toInt ∨
    op = pow ∧ a.toInt < 0 ∧ 2 ^ 32 ≤ b.toInt ∧ Even b.toInt

instance (op : BinaryOp) (a b : Int64) : Decidable (op.Miscut a b) := inferInstanceAs (Decidable (_ ∨ _))

lemma apply_pow_eq_iff (a : Int64) {b : Int64} (hb : 0 ≤ b.toInt) :
    pow.apply a b = some (Saturating.clamp (a.toInt ^ b.toInt.toNat)) ↔ ¬pow.Miscut a b := by
  have hb' : 0 ≤ b := Int64.le_iff_toInt_le.mpr hb
  have heven : Even b.toInt ↔ Even b.toInt.toNat := by
    rw [Int.even_iff, Nat.even_iff]
    omega
  simp only [apply, if_pos hb', Saturating.pow_eq_clamp, Option.some.injEq, Miscut, heven]
  rw [Saturating.clamp_pow_cut_iff]
  simp only [reduceCtorEq, false_and, true_and, false_or]
  have hle : 2 ^ 32 ≤ b.toInt.toNat ↔ 2 ^ 32 ≤ b.toInt := by omega
  rw [hle]

lemma apply_eq_clamp_iff {op : BinaryOp} {a b : Int64} {z : Int} (h : op.Exact a.toInt b.toInt z) :
    op.apply a b = some (Saturating.clamp z) ↔ ¬op.Miscut a b := by
  cases h with
  | add | sub | mul =>
    exact iff_of_true rfl (by simp [Miscut])
  | div _ hy | mod _ hy =>
    have hb : b ≠ 0 := fun h => hy (by rw [h]; rfl)
    exact iff_of_true (if_neg hb) (by simp [Miscut])
  | pow _ hy => exact apply_pow_eq_iff a hy
  | leftShift _ hy =>
    simp only [apply, Option.some.injEq, Miscut, reduceCtorEq, true_and, false_and, or_false]
    exact Saturating.shiftLeft_eq_iff a b
  | rightShift _ hy =>
    exact iff_of_true (congrArg some (Saturating.shiftRight_eq_clamp a b)) (by simp [Miscut])

/-- Only a division by zero has no result. Every other result is the exact one cut to 64 bits, save
where -1 is shifted to the left by 63 or more, or a negative number is raised to an even exponent from
`2 ^ 32` on. -/
theorem literal_result_exact_iff (op : BinaryOp) (a b : Int64) :
    (op.apply a b = none ↔ (op = div ∨ op = mod) ∧ b = 0) ∧
    ∀ z, op.Exact a.toInt b.toInt z →
      ((op.apply a b).map Int64.toInt =
          some (max Saturating.least (min z Saturating.greatest)) ↔ ¬op.Miscut a b) := by
  constructor
  · rw [apply_eq_none_iff]
    cases op <;> simp [isDivision]
  · intro z hz
    rw [← apply_eq_clamp_iff hz, ← Saturating.toInt_clamp, ← Option.map_some]
    exact (Option.map_injective fun _ _ => Int64.toInt_inj.mp).eq_iff

/-- A multiple next to the one that is missed, shifted by more than its 64 bits. -/
theorem minus_two_shifted_to_least :
    leftShift.Exact (-2) 64 (-2 * 2 ^ 64) ∧ ¬leftShift.Miscut (-2) 64 ∧
    (leftShift.apply (-2) 64).map Int64.toInt =
      some (max Saturating.least (min (-2 * 2 ^ 64) Saturating.greatest)) := by
  have hexact : leftShift.Exact (-2) 64 (-2 * 2 ^ 64) := .leftShift (-2) (by decide)
  have hkept : ¬leftShift.Miscut (-2) 64 := by decide
  exact ⟨hexact, hkept, ((literal_result_exact_iff leftShift (-2) 64).2 _ hexact).mpr hkept⟩

/-- Shifted by 63, the number -1 stops one short of the least integer; raised to `2 ^ 32`, it stays
negative. -/
theorem minus_one_miscut :
    leftShift.Exact (-1) 63 (-1 * 2 ^ 63) ∧
    (leftShift.apply (-1) 63).map Int64.toInt ≠
      some (max Saturating.least (min (-1 * 2 ^ 63) Saturating.greatest)) ∧
    pow.Exact (-1) 4294967296 1 ∧
    (pow.apply (-1) 4294967296).map Int64.toInt ≠
      some (max Saturating.least (min 1 Saturating.greatest)) := by
  have heven : Even (4294967296 : Int).toNat := by decide
  have hpow : pow.Exact (-1) 4294967296 ((-1) ^ (4294967296 : Int).toNat) := .pow (-1) (by decide)
  rw [heven.neg_one_pow] at hpow
  exact ⟨.leftShift (-1) (by decide), by decide, hpow, by decide⟩

end BinaryOp

end LoopSafety
