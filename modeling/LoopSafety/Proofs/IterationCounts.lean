import Mathlib.Data.Rat.Floor
import LoopSafety.LoopRange

/-! How often a loop runs.

Division of 64-bit integers rounds toward zero, which is up where the length of a span and its step
have opposite signs. The count takes one off there. This never leaves the 64 bits: where the division
leaves a remainder, the step is no unit, and the quotient is at most half as large as the length. -/
namespace LoopSafety.Span

open Saturating (least greatest)

def Fits (n : Int) : Prop := least ≤ n ∧ n ≤ greatest

instance decidableFits (n : Int) : Decidable (Fits n) := inferInstanceAs (Decidable (_ ∧ _))

lemma fits_toInt (a : Int64) : Fits a.toInt := ⟨Saturating.least_le a, Saturating.le_greatest a⟩

lemma fit?_toInt (a : Int64) : fit? a.toInt = some a := by
  rw [fit?, if_pos ⟨Saturating.least_le a, Saturating.le_greatest a⟩, Int64.ofInt_toInt]

lemma fit?_eq_none {n : Int} (h : ¬Fits n) : fit? n = none := if_neg h

/-- The exact length, which may take 65 bits. -/
def distance (s : Span) : Int := s.stop.toInt - s.start.toInt

/-- The length and its quotient by the step are 64-bit integers. -/
def Countable (s : Span) : Prop :=
  s.step ≠ 0 ∧ Fits s.distance ∧ ¬(s.distance = least ∧ s.step = -1)

instance decidableCountable (s : Span) : Decidable s.Countable := inferInstanceAs (Decidable (_ ∧ _))

/-! The operations of a count on 64-bit integers, which wrap around where they overflow. -/

def length (s : Span) : Int64 := s.stop - s.start
def quotient (s : Span) : Int64 := s.length / s.step
def remainder (s : Span) : Int64 := s.length % s.step

/-- The quotient is larger than the exact one. -/
def RoundsUp (s : Span) : Prop :=
  s.remainder ≠ 0 ∧ decide (s.length < 0) ≠ decide (s.step < 0)

instance decidableRoundsUp (s : Span) : Decidable s.RoundsUp := inferInstanceAs (Decidable (_ ∧ _))

/-- No operation of a count overflows. -/
structure Exact (s : Span) : Prop where
  length : s.length.toInt = s.stop.toInt - s.start.toInt
  quotient : s.quotient.toInt = s.length.toInt.tdiv s.step.toInt
  remainder : s.remainder.toInt = s.length.toInt.tmod s.step.toInt
  decrement : s.RoundsUp → (s.quotient - 1).toInt = s.quotient.toInt - 1

/-- A divisor that is no unit halves, at least. -/
lemma natAbs_tdiv_le_half {a b : Int} (hb : 2 ≤ b.natAbs) : (a.tdiv b).natAbs ≤ a.natAbs / 2 := by
  rw [Int.natAbs_tdiv]
  exact Nat.div_le_div_left hb (by decide)

/-- The quotient of 64-bit integers is one, unless it is the opposite of the least one. -/
lemma fits_tdiv_iff {a b : Int} (ha : Fits a) (hb : b ≠ 0) :
    Fits (a.tdiv b) ↔ ¬(a = least ∧ b = -1) := by
  unfold Fits least greatest at *
  by_cases hunit : 2 ≤ b.natAbs
  · have hhalf := natAbs_tdiv_le_half (a := a) hunit
    omega
  · obtain rfl | rfl : b = 1 ∨ b = -1 := by omega
    · rw [Int.tdiv_one]
      omega
    · rw [Int.tdiv_neg, Int.tdiv_one]
      omega

/-- Where there is a remainder, one can be taken off the quotient. -/
lemma fits_tdiv_sub_one {a b : Int} (ha : Fits a) (hb : b ≠ 0) (hrem : a.tmod b ≠ 0) :
    Fits (a.tdiv b - 1) := by
  have hunit : 2 ≤ b.natAbs := by
    by_contra hsmall
    obtain rfl | rfl : b = 1 ∨ b = -1 := by omega
    · exact hrem (Int.tmod_one a)
    · exact hrem (by rw [Int.tmod_neg, Int.tmod_one])
  have hhalf := natAbs_tdiv_le_half (a := a) hunit
  unfold Fits least greatest at *
  omega

lemma floor_eq_fdiv (a b : Int) : ⌊(a : ℚ) / b⌋ = a.fdiv b := by
  have hnonneg : ∀ a b : Int, 0 ≤ b → ⌊(a : ℚ) / b⌋ = a.fdiv b := by
    intro a b hb
    lift b to Nat using hb
    rw [Int.fdiv_eq_ediv_of_nonneg a (Int.natCast_nonneg b)]
    exact Rat.floor_intCast_div_natCast a b
  rcases Int.le_total 0 b with hb | hb
  · exact hnonneg a b hb
  · rw [← Int.neg_fdiv_neg, ← hnonneg (-a) (-b) (Int.neg_nonneg_of_nonpos hb)]
    simp

/-- Rounding toward zero rounds up between integers of opposite signs. -/
lemma floor_eq_tdiv {a b : Int} (hb : b ≠ 0) :
    ⌊(a : ℚ) / b⌋ =
      if a.tmod b ≠ 0 ∧ decide (a < 0) ≠ decide (b < 0) then a.tdiv b - 1 else a.tdiv b := by
  rw [floor_eq_fdiv, Int.fdiv_eq_tdiv]
  by_cases hdvd : b ∣ a
  · simp [hdvd, Int.dvd_iff_tmod_eq_zero.mp hdvd]
  · have hrem : a.tmod b ≠ 0 := mt Int.dvd_iff_tmod_eq_zero.mpr hdvd
    have hsign : b.sign = if 0 ≤ b then 1 else -1 := by
      rcases Int.lt_or_gt_of_ne hb with hneg | hpos
      · rw [Int.sign_eq_neg_one_of_neg hneg, if_neg (Int.not_le.mpr hneg)]
      · rw [Int.sign_eq_one_of_pos hpos, if_pos (Int.le_of_lt hpos)]
    simp only [hdvd, hsign, hrem, ne_eq, not_false_eq_true, true_and, decide_eq_decide, if_false]
    split_ifs <;> omega

variable {s : Span}

lemma bmod_of_fits {n : Int} (h : Fits n) : n.bmod (2 ^ 64) = n := by
  unfold Fits least greatest at h
  exact Int.bmod_eq_of_le (by omega) (by omega)

lemma length_toInt (h : Fits s.distance) : s.length.toInt = s.distance := by
  rw [length, Int64.toInt_sub]
  exact bmod_of_fits h

lemma step_toInt_ne_zero (h : s.step ≠ 0) : s.step.toInt ≠ 0 := fun hzero =>
  h (Int64.toInt_inj.mp hzero)

lemma remainder_toInt : s.remainder.toInt = s.length.toInt.tmod s.step.toInt := Int64.toInt_mod _ _

lemma roundsUp_iff : s.RoundsUp ↔
    s.length.toInt.tmod s.step.toInt ≠ 0 ∧ decide (s.length < 0) ≠ decide (s.step < 0) := by
  rw [RoundsUp, ← remainder_toInt, ne_eq, ne_eq s.remainder.toInt, ← Int64.toInt_inj,
    Int64.toInt_zero]

/-- After the length, the step and the quotient decide. -/
lemma iterationCount_of_fits (h : Fits s.distance) : s.iterationCount =
    if s.step = 0 then none
    else (fit? (s.length.toInt.tdiv s.step.toInt)).map fun q => if s.RoundsUp then q - 1 else q := by
  unfold iterationCount
  rw [← distance, ← length_toInt h, fit?_toInt, Option.bind_eq_bind, Option.bind_some]
  dsimp only
  split
  · rfl
  · simp only [← roundsUp_iff]
    cases fit? (s.length.toInt.tdiv s.step.toInt) with
    | none => rfl
    | some q => exact (apply_ite some _ _ _).symm

lemma Countable.fits_quotient (h : s.Countable) : Fits (s.length.toInt.tdiv s.step.toInt) := by
  obtain ⟨hstep, hlength, hturned⟩ := h
  rw [fits_tdiv_iff (fits_toInt s.length) (step_toInt_ne_zero hstep), length_toInt hlength]
  exact fun hboth => hturned (hboth.imp_right fun hunit => Int64.toInt_inj.mp hunit)

/-- None of the operations overflows where there is a count. -/
lemma Countable.exact (h : s.Countable) : s.Exact := by
  have hquotient : s.quotient.toInt = s.length.toInt.tdiv s.step.toInt := by
    rw [quotient, Int64.toInt_div]
    exact bmod_of_fits h.fits_quotient
  refine ⟨length_toInt h.2.1, hquotient, remainder_toInt, fun hup => ?_⟩
  rw [Int64.toInt_sub, hquotient]
  exact bmod_of_fits (fits_tdiv_sub_one (fits_toInt s.length) (step_toInt_ne_zero h.1)
    (roundsUp_iff.mp hup).1)

/-- The count is found by the operations on 64-bit integers. -/
lemma Countable.iterationCount_eq (h : s.Countable) :
    s.iterationCount = some (if s.RoundsUp then s.quotient - 1 else s.quotient) := by
  rw [iterationCount_of_fits h.2.1, if_neg h.1, ← h.exact.quotient, fit?_toInt, Option.map_some]

lemma iterationCount_eq_none (h : ¬s.Countable) : s.iterationCount = none := by
  by_cases hlength : Fits s.distance
  · rw [iterationCount_of_fits hlength]
    split
    · rfl
    · next hstep =>
      have hturned : s.distance = least ∧ s.step = -1 := by
        by_contra hturned
        exact h ⟨hstep, hlength, hturned⟩
      have hquotient : ¬Fits (s.length.toInt.tdiv s.step.toInt) := by
        rw [fits_tdiv_iff (fits_toInt s.length) (step_toInt_ne_zero hstep), not_not,
          length_toInt hlength]
        exact ⟨hturned.1, by rw [hturned.2]; rfl⟩
      rw [fit?_eq_none hquotient, Option.map_none]
  · unfold iterationCount
    rw [← distance, fit?_eq_none hlength]
    rfl

/-- Taking one off where the quotient is rounded up gives the floor. -/
lemma Countable.toInt_count (h : s.Countable) :
    (if s.RoundsUp then s.quotient - 1 else s.quotient).toInt = ⌊(s.distance : ℚ) / s.step.toInt⌋ := by
  have hexact := h.exact
  have hup : s.length.toInt.tmod s.step.toInt ≠ 0 ∧
      decide (s.length.toInt < 0) ≠ decide (s.step.toInt < 0) ↔ s.RoundsUp := by
    rw [roundsUp_iff]
    simp only [Int64.lt_iff_toInt_lt, Int64.toInt_zero]
  rw [← length_toInt h.2.1, floor_eq_tdiv (step_toInt_ne_zero h.1), ← hexact.quotient]
  simp only [hup]
  split
  · next hup => exact hexact.decrement hup
  · rfl

/-- A span has a count exactly if its step is not zero, its length is a 64-bit integer and the step
does not turn the least of these over. The count is then the length over the step, rounded down, and
none of the operations by which it is found overflows. -/
theorem iteration_count_floor_or_absent (s : Span) :
    s.iterationCount.map Int64.toInt =
      (if s.Countable then some ⌊((s.stop.toInt - s.start.toInt : ℤ) : ℚ) / s.step.toInt⌋ else none) ∧
    (s.Countable →
      s.iterationCount = some (if s.RoundsUp then s.quotient - 1 else s.quotient) ∧ s.Exact) := by
  refine ⟨?_, fun h => ⟨h.iterationCount_eq, h.exact⟩⟩
  split
  · next h =>
    rw [h.iterationCount_eq, Option.map_some, h.toInt_count]
    rfl
  · next h => rw [iterationCount_eq_none h, Option.map_none]

/-- The longest way down, in steps up: the quotient is cut to the integer above it. The same way in
steps down by one has no count. -/
theorem longest_descent_rounded_down :
    Countable ⟨1, -9223372036854775807, 3⟩ ∧ RoundsUp ⟨1, -9223372036854775807, 3⟩ ∧
    iterationCount ⟨1, -9223372036854775807, 3⟩ = some (-3074457345618258603) ∧
    Exact ⟨1, -9223372036854775807, 3⟩ ∧ iterationCount ⟨1, -9223372036854775807, -1⟩ = none := by
  have hcountable : Countable ⟨1, -9223372036854775807, 3⟩ := by decide
  obtain ⟨hcount, hexact⟩ := (iteration_count_floor_or_absent ⟨1, -9223372036854775807, 3⟩).2 hcountable
  have hnone := (iteration_count_floor_or_absent ⟨1, -9223372036854775807, -1⟩).1
  rw [if_neg (by decide), Option.map_eq_none_iff] at hnone
  exact ⟨hcountable, by decide, hcount, hexact, hnone⟩

end LoopSafety.Span
