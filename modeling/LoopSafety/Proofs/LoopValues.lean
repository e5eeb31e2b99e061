import LoopSafety.Proofs.Orientation

/-! The values of loop variables when the ends of start, stop and step may be in either order.

Narrowing takes the first end of the start and the second end of the stop for the outer ones, or the
other two if the step is negative, and looks at one end of the step to tell which. The bound of the
variable encloses what the loop runs through exactly if the ends that are read are the outer ones or
the others lie too close to matter. -/
namespace LoopSafety

/-- The values that a loop takes with any start, stop and step between the given ends. -/
def Iterates (start stop step : Int64 × Int64) (v : Int) : Prop :=
  ∃ s ∈ between start, ∃ t ∈ between stop, ∃ d ∈ between step, d ≠ 0 ∧ Visits s t d v

/-- The ends of two steps have the same signs, which is all that narrowing looks at. -/
def SameSigns (d d' : Int64 × Int64) : Prop :=
  d.1.toInt.sign = d'.1.toInt.sign ∧ d.2.toInt.sign = d'.2.toInt.sign

/-- Steps of one or zero with given signs. -/
def unitStep (d : Int64 × Int64) : Int64 × Int64 :=
  (Saturating.clamp d.1.toInt.sign, Saturating.clamp d.2.toInt.sign)

lemma toInt_clamp_sign (n : Int) : (Saturating.clamp n.sign).toInt = n.sign := by
  rcases Int.sign_trichotomy n with h | h | h <;> rw [h] <;> rfl

lemma sameSigns_unitStep (d : Int64 × Int64) : SameSigns d (unitStep d) := by
  unfold SameSigns unitStep
  simp only [toInt_clamp_sign, Int.sign_sign, and_self]

lemma SameSigns.high_pos {d d' : Int64 × Int64} (h : SameSigns d d') : 0 < high d' ↔ 0 < high d := by
  obtain ⟨h₁, h₂⟩ := h
  have hpos (n m : Int) (h : n.sign = m.sign) : 0 < m ↔ 0 < n := by
    rw [← Int.sign_eq_one_iff_pos, ← Int.sign_eq_one_iff_pos, h]
  unfold high
  rw [lt_max_iff, lt_max_iff, hpos _ _ h₁, hpos _ _ h₂]

lemma SameSigns.low_neg {d d' : Int64 × Int64} (h : SameSigns d d') : low d' < 0 ↔ low d < 0 := by
  obtain ⟨h₁, h₂⟩ := h
  have hneg (n m : Int) (h : n.sign = m.sign) : m < 0 ↔ n < 0 := by
    rw [← Int.sign_eq_neg_one_iff_neg, ← Int.sign_eq_neg_one_iff_neg, h]
  unfold low
  rw [min_lt_iff, min_lt_iff, hneg _ _ h₁, hneg _ _ h₂]

section

variable {start stop step : Int64 × Int64} {v : Int}

/-- A loop runs upward from its least start to before its greatest stop, or downward between the
others. -/
lemma Iterates.upward_or_downward (h : Iterates start stop step v) :
    0 < high step ∧ low start ≤ v ∧ v < high stop ∨
      low step < 0 ∧ low stop < v ∧ v ≤ high start := by
  obtain ⟨s, hs, t, ht, d, hd, hd0, k, rfl, hup, hdown⟩ := h
  rw [mem_between] at hs ht hd
  rcases lt_or_gt_of_ne hd0 with hneg | hpos
  · have hk : (k : Int) * d ≤ 0 :=
      Int.mul_nonpos_of_nonneg_of_nonpos (Int.natCast_nonneg k) hneg.le
    have := hdown hneg
    right
    omega
  · have hk : 0 ≤ (k : Int) * d := Int.mul_nonneg (Int.natCast_nonneg k) hpos.le
    have := hup hpos
    left
    omega

lemma one_mem_unitStep {d : Int64 × Int64} (h : 0 < high d) : 1 ∈ between (unitStep d) := by
  have hhigh := (sameSigns_unitStep d).high_pos.mpr h
  have hlow : low (unitStep d) ≤ 1 ∧ high (unitStep d) ≤ 1 := by
    unfold low high unitStep
    simp only [toInt_clamp_sign]
    have h₁ := Int.sign_trichotomy d.1.toInt
    have h₂ := Int.sign_trichotomy d.2.toInt
    omega
  exact mem_between.mpr ⟨hlow.1, hhigh⟩

lemma neg_one_mem_unitStep {d : Int64 × Int64} (h : low d < 0) : -1 ∈ between (unitStep d) := by
  have hlow := (sameSigns_unitStep d).low_neg.mpr h
  have hhigh : -1 ≤ high (unitStep d) := by
    unfold high unitStep
    simp only [toInt_clamp_sign]
    have h₁ := Int.sign_trichotomy d.1.toInt
    omega
  exact mem_between.mpr ⟨by omega, hhigh⟩

/-- In each direction that a step may have, it may be of length one. -/
def HasUnits (step : Int64 × Int64) : Prop :=
  (0 < high step → 1 ∈ between step) ∧ (low step < 0 → -1 ∈ between step)

lemma hasUnits_unitStep (d : Int64 × Int64) : HasUnits (unitStep d) :=
  ⟨fun h => one_mem_unitStep ((sameSigns_unitStep d).high_pos.mp h),
    fun h => neg_one_mem_unitStep ((sameSigns_unitStep d).low_neg.mp h)⟩

/-- In unit steps, a loop takes every integer on its way. -/
lemma HasUnits.iterates (hunits : HasUnits step)
    (h : 0 < high step ∧ low start ≤ v ∧ v < high stop ∨
      low step < 0 ∧ low stop < v ∧ v ≤ high start) :
    Iterates start stop step v := by
  rcases h with ⟨hpos, hstart, hstop⟩ | ⟨hneg, hstop, hstart⟩
  · refine ⟨low start, low_mem_between _, high stop, high_mem_between _, 1, hunits.1 hpos,
      by decide, (v - low start).toNat, ?_, fun _ => hstop, ?_⟩
    · omega
    · omega
  · refine ⟨high start, high_mem_between _, low stop, low_mem_between _, -1, hunits.2 hneg,
      by decide, (high start - v).toNat, ?_, ?_, fun _ => hstop⟩
    · omega
    · omega

/-- The values over all steps of the same signs. -/
lemma exists_iterates_iff :
    (∃ step', SameSigns step step' ∧ Iterates start stop step' v) ↔
      0 < high step ∧ low start ≤ v ∧ v < high stop ∨
        low step < 0 ∧ low stop < v ∧ v ≤ high start := by
  constructor
  · rintro ⟨step', hsame, hv⟩
    have := hv.upward_or_downward
    rwa [hsame.high_pos, hsame.low_neg] at this
  · intro h
    have hsame := sameSigns_unitStep step
    refine ⟨unitStep step, hsame, (hasUnits_unitStep step).iterates ?_⟩
    rwa [hsame.high_pos, hsame.low_neg]

/-- The integers from one to before another lie between two ends exactly if the outermost do. -/
lemma segment_between_iff {m n : Int} {c : Int64 × Int64} :
    (∀ v, m ≤ v → v < n → v ∈ between c) ↔ n ≤ m ∨ low c ≤ m ∧ n - 1 ≤ high c := by
  simp only [mem_between]
  constructor
  · intro h
    by_cases hmn : n ≤ m
    · exact .inl hmn
    · exact .inr ⟨(h m (by omega) (by omega)).1, (h (n - 1) (by omega) (by omega)).2⟩
  · intro h v hm hn
    omega

/-- Two ends enclose the values over all steps of the same signs exactly if they enclose the outermost
in each direction. -/
lemma enclosed_iff_outermost {c : Int64 × Int64} :
    (∀ step', SameSigns step step' → ∀ v, Iterates start stop step' v → v ∈ between c) ↔
      (0 < high step → high stop ≤ low start ∨ low c ≤ low start ∧ high stop - 1 ≤ high c) ∧
        (low step < 0 → high start ≤ low stop ∨ low c ≤ low stop + 1 ∧ high start ≤ high c) := by
  have hup := segment_between_iff (m := low start) (n := high stop) (c := c)
  have hdown := segment_between_iff (m := low stop + 1) (n := high start + 1) (c := c)
  rw [Int.add_sub_cancel, Int.add_le_add_iff_right] at hdown
  rw [← hup, ← hdown]
  constructor
  · intro h
    have hall {v : Int} (hv : 0 < high step ∧ low start ≤ v ∧ v < high stop ∨
        low step < 0 ∧ low stop < v ∧ v ≤ high start) : v ∈ between c := by
      obtain ⟨step', hsame, hiterates⟩ := exists_iterates_iff.mpr hv
      exact h step' hsame v hiterates
    exact ⟨fun hpos v hm hn => hall (.inl ⟨hpos, hm, hn⟩),
      fun hneg v hm hn => hall (.inr ⟨hneg, by omega, by omega⟩)⟩
  · rintro ⟨hup, hdown⟩ step' hsame v hv
    rcases exists_iterates_iff.mp ⟨step', hsame, hv⟩ with ⟨hpos, hm, hn⟩ | ⟨hneg, hm, hn⟩
    · exact hup hpos v hm hn
    · exact hdown hneg v (by omega) (by omega)

/-- The bound of a loop variable reads the ends that matter. The first end of the start and the second
end of the stop are the outer ones, or the others lie next to what is read; downward likewise. A step
whose first end is positive is taken to be positive throughout: if it is not, the loop runs downward
as well. -/
def ReadsOuterEnds (start stop step : Int64 × Int64) : Prop :=
  if 0 < step.1 then
    (high stop ≤ low start ∨
      (start.1 ≤ start.2 ∨ stop.2.toInt ≤ start.2.toInt + 1) ∧
        (stop.1 ≤ stop.2 ∨ stop.1.toInt ≤ start.1.toInt + 1)) ∧
    (step.2 < 0 → high start ≤ low stop ∨
      (start.2 ≤ start.1 ∨ start.2 < stop.2) ∧
        (start.1.toInt ≤ stop.1.toInt + 1 ∨ stop.2.toInt ≤ stop.1.toInt + 2))
  else
    high start ≤ low stop ∨
      (start.1 ≤ start.2 ∨ start.1.toInt ≤ stop.1.toInt + 1) ∧
        (stop.1 ≤ stop.2 ∨ start.2.toInt ≤ stop.2.toInt + 1)

instance : Decidable (ReadsOuterEnds start stop step) := inferInstanceAs (Decidable (ite _ _ _))

lemma toInt_sub_one (a : Int64) : (Saturating.sub a 1).toInt = max Saturating.least (a.toInt - 1) := by
  have hone : (1 : Int64).toInt = 1 := by decide
  have := Saturating.le_greatest a
  rw [Saturating.toInt_sub, hone, min_eq_left (by omega)]

lemma toInt_add_one (a : Int64) :
    (Saturating.add a 1).toInt = min (a.toInt + 1) Saturating.greatest := by
  have hone : (1 : Int64).toInt = 1 := by decide
  have hleast := Saturating.least_le a
  have hlimits : Saturating.least < Saturating.greatest := by decide
  rw [Saturating.toInt_add, hone, max_eq_right (by omega)]

/-- With the ends read for a positive step, the values of an upward run. -/
lemma upward_read_iff : high stop ≤ low start ∨
      low (start.1, Saturating.sub stop.2 1) ≤ low start ∧
        high stop - 1 ≤ high (start.1, Saturating.sub stop.2 1) ↔
    high stop ≤ low start ∨ (start.1 ≤ start.2 ∨ stop.2.toInt ≤ start.2.toInt + 1) ∧
      (stop.1 ≤ stop.2 ∨ stop.1.toInt ≤ start.1.toInt + 1) := by
  have h₁ := Saturating.least_le start.1
  have h₂ := Saturating.least_le start.2
  simp only [low, high, toInt_sub_one, Int64.le_iff_toInt_le]
  omega

/-- With the ends read for a positive step, the values of a downward run. -/
lemma downward_misread_iff : high start ≤ low stop ∨
      low (start.1, Saturating.sub stop.2 1) ≤ low stop + 1 ∧
        high start ≤ high (start.1, Saturating.sub stop.2 1) ↔
    high start ≤ low stop ∨ (start.2 ≤ start.1 ∨ start.2 < stop.2) ∧
      (start.1.toInt ≤ stop.1.toInt + 1 ∨ stop.2.toInt ≤ stop.1.toInt + 2) := by
  have h₁ := Saturating.least_le start.1
  have h₂ := Saturating.least_le start.2
  have h₃ := Saturating.least_le stop.1
  have h₄ := Saturating.least_le stop.2
  simp only [low, high, toInt_sub_one, Int64.le_iff_toInt_le, Int64.lt_iff_toInt_lt]
  omega

/-- With the ends read for a negative step, the values of a downward run. -/
lemma downward_read_iff : high start ≤ low stop ∨
      low (Saturating.add stop.1 1, start.2) ≤ low stop + 1 ∧
        high start ≤ high (Saturating.add stop.1 1, start.2) ↔
    high start ≤ low stop ∨ (start.1 ≤ start.2 ∨ start.1.toInt ≤ stop.1.toInt + 1) ∧
      (stop.1 ≤ stop.2 ∨ start.2.toInt ≤ stop.2.toInt + 1) := by
  have h₁ := Saturating.le_greatest start.1
  have h₂ := Saturating.le_greatest start.2
  simp only [low, high, toInt_add_one, Int64.le_iff_toInt_le]
  omega

lemma positive_enclosed_iff (hpos : 0 < step.1) :
    (∀ step', SameSigns step step' → ∀ v, Iterates start stop step' v →
      v ∈ between (start.1, Saturating.sub stop.2 1)) ↔ ReadsOuterEnds start stop step := by
  rw [enclosed_iff_outermost, upward_read_iff, downward_misread_iff, ReadsOuterEnds, if_pos hpos]
  rw [Int64.lt_iff_toInt_lt, Int64.toInt_zero] at hpos
  have hup : 0 < high step := lt_max_of_lt_left hpos
  have hdown : low step < 0 ↔ step.2 < 0 := by
    rw [Int64.lt_iff_toInt_lt, Int64.toInt_zero, low]
    omega
  rw [hdown, forall_prop_of_true hup]

lemma negative_enclosed_iff (hpos : ¬0 < step.1) (hneg : step.2 < 0) :
    (∀ step', SameSigns step step' → ∀ v, Iterates start stop step' v →
      v ∈ between (Saturating.add stop.1 1, start.2)) ↔ ReadsOuterEnds start stop step := by
  rw [enclosed_iff_outermost, downward_read_iff, ReadsOuterEnds, if_neg hpos]
  rw [Int64.lt_iff_toInt_lt, Int64.toInt_zero] at hpos hneg
  have hup : ¬0 < high step := by
    rw [high]
    omega
  have hdown : low step < 0 := min_lt_of_right_lt hneg
  rw [forall_prop_of_true hdown, and_iff_right fun h => absurd h hup]

/-- Two ends that a narrowed range gives, read for a positive or for a negative step. -/
lemma read_enclosed_iff {c : Int64 × Int64}
    (hc : 0 < step.1 ∧ c = (start.1, Saturating.sub stop.2 1) ∨
      ¬0 < step.1 ∧ step.2 < 0 ∧ c = (Saturating.add stop.1 1, start.2)) :
    (∀ step', SameSigns step step' → ∀ v, Iterates start stop step' v → v ∈ between c) ↔
      ReadsOuterEnds start stop step := by
  rcases hc with ⟨hpos, rfl⟩ | ⟨hpos, hneg, rfl⟩
  · exact positive_enclosed_iff hpos
  · exact negative_enclosed_iff hpos hneg

/-- Where all ends are in order, those that are read are the outer ones. -/
lemma readsOuterEnds_of_ordered (hstart : start.1 ≤ start.2) (hstop : stop.1 ≤ stop.2)
    (hstep : step.1 ≤ step.2) : ReadsOuterEnds start stop step := by
  unfold ReadsOuterEnds
  split
  · next hpos =>
    refine ⟨.inr ⟨.inl hstart, .inl hstop⟩, fun hneg => ?_⟩
    exact absurd hneg (Int64.not_lt.mpr (Int64.le_trans (Int64.le_of_lt hpos) hstep))
  · exact .inr ⟨.inl hstart, .inl hstop⟩

namespace Evaluation

variable {p : Program} {ctx : Context} {depth : Nat} {frame : Frame} {loop : LoopId}

/-- Start, stop and step of a loop narrow to intervals, one after the other. -/
inductive RangeEnds (p : Program) (ctx : Context) (depth : Nat) (frame : Frame) (loop : LoopId)
    (s₀ : Probe) : (start stop step : Int64 × Int64) → Prop
  | intro {b₁ b₂ b₃ r₁ r₂ r₃ : Bound} {s₁ s₂ s₃ : Probe} {start stop step : Int64 × Int64}
      (hparts : rangeParts p ctx loop = some (b₁, b₂, b₃))
      (hrun₁ : (narrow p ctx (inductionBound p ctx depth)
        { frame with resolving := loop :: frame.resolving } b₁).run s₀ = (r₁, s₁))
      (hrun₂ : (narrow p ctx (inductionBound p ctx depth)
        { frame with resolving := loop :: frame.resolving } b₂).run s₁ = (r₂, s₂))
      (hrun₃ : (narrow p ctx (inductionBound p ctx depth)
        { frame with resolving := loop :: frame.resolving } b₃).run s₂ = (r₃, s₃))
      (hstart : r₁.interval? = some start) (hstop : r₂.interval? = some stop)
      (hstep : r₃.interval? = some step) : RangeEnds p ctx depth frame loop s₀ start stop step

/-- A bound that is an interval has been read from the ends of start and stop. -/
lemma RangeEnds.read {s₀ s' : Probe} {result : Bound} {c : Int64 × Int64}
    (hends : RangeEnds p ctx depth frame loop s₀ start stop step)
    (hrun : (inductionBound p ctx (depth + 1) frame loop).run s₀ = (result, s'))
    (hc : result.interval? = some c) :
    0 < step.1 ∧ c = (start.1, Saturating.sub stop.2 1) ∨
      ¬0 < step.1 ∧ step.2 < 0 ∧ c = (Saturating.add stop.1 1, start.2) := by
  obtain ⟨hparts, hrun₁, hrun₂, hrun₃, hstart, hstop, hstep⟩ := hends
  rw [inductionBound] at hrun
  split at hrun
  · cases hrun
    cases hc
  · rw [hparts] at hrun
    dsimp only at hrun
    rw [run_bind_of_run hrun₁, Context.run_both hrun₂ hrun₃, hstart, hstop, hstep] at hrun
    unfold inductionInterval at hrun
    dsimp only at hrun
    split at hrun
    · next hpos =>
      cases hrun
      rw [Bound.interval?_interval, Option.some.injEq] at hc
      exact .inl ⟨hpos, hc.symm⟩
    · next hpos =>
      split at hrun
      · next hneg =>
        cases hrun
        rw [Bound.interval?_interval, Option.some.injEq] at hc
        exact .inr ⟨hpos, hneg, hc.symm⟩
      · cases hrun
        cases hc

/-- The bound of a loop variable encloses all that a loop with this start and stop runs through, in steps
between ends of these signs, exactly if it reads the ends that matter. -/
theorem loop_values_enclosed_iff {s₀ s' : Probe} {result : Bound} {c : Int64 × Int64}
    (hends : RangeEnds p ctx depth frame loop s₀ start stop step)
    (hrun : (inductionBound p ctx (depth + 1) frame loop).run s₀ = (result, s'))
    (hc : result.interval? = some c) :
    (∀ step', SameSigns step step' → ∀ v, Iterates start stop step' v → v ∈ between c) ↔
      ReadsOuterEnds start stop step :=
  read_enclosed_iff (hends.read hrun hc)

/-- In the steps that the range narrows to, the bound encloses all that the loop runs through if it reads
the ends that matter, and only then if the loop may go in units. -/
theorem evaluated_step_enclosed {s₀ s' : Probe} {result : Bound} {c : Int64 × Int64}
    (hends : RangeEnds p ctx depth frame loop s₀ start stop step)
    (hrun : (inductionBound p ctx (depth + 1) frame loop).run s₀ = (result, s'))
    (hc : result.interval? = some c) :
    (ReadsOuterEnds start stop step → ∀ v, Iterates start stop step v → v ∈ between c) ∧
      (HasUnits step → (∀ v, Iterates start stop step v → v ∈ between c) →
        ReadsOuterEnds start stop step) := by
  have hiff := read_enclosed_iff (hends.read hrun hc)
  refine ⟨fun hread => hiff.mpr hread step ⟨rfl, rfl⟩, fun hunits henclosed => hiff.mp ?_⟩
  intro step' hsame v hv
  exact henclosed v (hunits.iterates (exists_iterates_iff.mp ⟨step', hsame, hv⟩))

end Evaluation

end

/-! An outer loop of ten iterations, an inner loop up to `9 - i`, and an access at `j + 1` to an array of
five cells. -/
namespace Shrinking

open Evaluation

def outerIndex : Term := ⟨⟨0⟩, .var "i" .int none⟩
def innerIndex : Term := ⟨⟨1⟩, .var "j" .int none⟩
def last : Term := ⟨⟨2⟩, .literal (.int 9)⟩
def remaining : Term := ⟨⟨3⟩, .binary .sub last outerIndex .int⟩
def one : Term := ⟨⟨4⟩, .literal (.int 1)⟩
def next : Term := ⟨⟨5⟩, .binary .add innerIndex one .int⟩
def cell : Term := ⟨⟨6⟩, .access ⟨0⟩ [next]⟩
def inner : Term := ⟨⟨7⟩, .forLoop ⟨1⟩ cell⟩
def outer : Term := ⟨⟨8⟩, .forLoop ⟨0⟩ inner⟩

def nodes : List (Node NodeId) :=
  [.var "i" .int none, .var "j" .int none, .literal (.int 9), .binary .sub ⟨2⟩ ⟨0⟩ .int,
    .literal (.int 1), .binary .add ⟨1⟩ ⟨4⟩ .int, .access ⟨0⟩ [⟨5⟩], .forLoop ⟨1⟩ ⟨6⟩,
    .forLoop ⟨0⟩ ⟨7⟩]

def program : Program where
  terms := #[outerIndex, innerIndex, last, remaining, one, next, cell, inner, outer]
  loops := #[⟨"i", .int, .simple ⟨0, 10, 1⟩⟩, ⟨"j", .int, .symbolic none (some ⟨3⟩) none ⟨0, 0, 1⟩⟩]
  arrays := #[⟨"a", ⟨.intArray, [5]⟩, none, false⟩]

def session : Session := ((Session.new outer {} ∅).prepare program).2

def frame : Frame := { loops := [⟨0⟩, ⟨1⟩] }

/-- The inner loop from `i` up to ten. -/
def risingProgram : Program :=
  { program with
    loops :=
      #[⟨"i", .int, .simple ⟨0, 10, 1⟩⟩, ⟨"j", .int, .symbolic (some ⟨0⟩) none none ⟨0, 10, 1⟩⟩] }

def rising : Context := ((Session.new outer {} ∅).prepare risingProgram).2.context

/-- A start between 0 and 9 with its smaller end first is read rightly. -/
theorem rising_values_enclosed :
    Program.ofTables nodes risingProgram.loops.toList risingProgram.arrays.toList [] =
      .ok risingProgram ∧
    RangeEnds risingProgram rising 4 frame ⟨1⟩ {} (0, 9) (10, 10) (1, 1) ∧
    ((inductionBound risingProgram rising 5 frame ⟨1⟩).run {}).1.interval? = some (0, 9) ∧
    ReadsOuterEnds (0, 9) (10, 10) (1, 1) ∧
    ∀ v, Iterates (0, 9) (10, 10) (1, 1) v → v ∈ between (0, 9) := by
  have hparts : rangeParts risingProgram rising ⟨1⟩ =
      some (.var "i" .int, .literal 10 .int, .literal 1 .int) := rfl
  have hends : RangeEnds risingProgram rising 4 frame ⟨1⟩ {} (0, 9) (10, 10) (1, 1) :=
    .intro hparts rfl rfl rfl rfl rfl rfl
  have hc : ((inductionBound risingProgram rising 5 frame ⟨1⟩).run {}).1.interval? = some (0, 9) := rfl
  have hread : ReadsOuterEnds (0, 9) (10, 10) (1, 1) :=
    readsOuterEnds_of_ordered (by decide) (by decide) (by decide)
  exact ⟨rfl, hends, hc, hread, (loop_values_enclosed_iff hends rfl hc).mpr hread (1, 1) ⟨rfl, rfl⟩⟩

/-- The stop has its larger end first, so that its smaller end is taken for the larger one: the bound of
the inner variable misses 8, and the access is stored as needing no check. -/
theorem shrinking_values_lost :
    session.context.accessVerdicts.get? ⟨6⟩ = some [false] ∧
    RangeEnds program session.context 4 frame ⟨1⟩ {} (0, 0) (9, 0) (1, 1) ∧
    ((inductionBound program session.context 5 frame ⟨1⟩).run {}).1.interval? = some (0, -1) ∧
    ((inductionBound program session.context 5 frame ⟨1⟩).run {}).2.safe = true ∧
    Iterates (0, 0) (9, 0) (1, 1) 8 ∧ 8 ∉ between (0, -1) := by
  have hparts : rangeParts program session.context ⟨1⟩ = some (.literal 0 .int,
      .binary .sub (.literal 9 .int) (.var "i" .int) .int, .literal 1 .int) := rfl
  refine ⟨by decide +kernel, .intro hparts rfl rfl rfl rfl rfl rfl, rfl, rfl, ?_, by decide⟩
  exact ⟨0, by decide, 9, by decide, 1, by decide, by decide, 8, by decide⟩

end Shrinking

end LoopSafety
