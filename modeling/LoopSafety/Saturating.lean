/-! Signed 64-bit arithmetic that stops at the ends of the range.
Every operation is the exact integer result followed by one clamp, so a law of the integers that
survives clamping (monotonicity above all) carries over. -/
namespace LoopSafety.Saturating

def least : Int := -9223372036854775808
def greatest : Int := 9223372036854775807

/-- The 64-bit integer nearest to an integer. -/
def clamp (n : Int) : Int64 := Int64.ofIntClamp n

theorem toInt_clamp (n : Int) : (clamp n).toInt = max least (min n greatest) := by
  unfold clamp Int64.ofIntClamp least greatest
  have hmin : Int64.minValue.toInt = -9223372036854775808 := by decide
  have hmax : Int64.maxValue.toInt = 9223372036854775807 := by decide
  split
  · split
    · rw [Int64.toInt_ofIntLE]
      omega
    · omega
  · omega

theorem least_le (a : Int64) : least ≤ a.toInt := a.le_toInt

theorem le_greatest (a : Int64) : a.toInt ≤ greatest := by
  have := a.toInt_lt
  unfold greatest
  omega

/-- An integer inside the range is its own nearest neighbour. -/
theorem toInt_clamp_of_mem {n : Int} (lower : least ≤ n) (upper : n ≤ greatest) :
    (clamp n).toInt = n := by
  rw [toInt_clamp]
  omega

def add (a b : Int64) : Int64 := clamp (a.toInt + b.toInt)
def sub (a b : Int64) : Int64 := clamp (a.toInt - b.toInt)
def mul (a b : Int64) : Int64 := clamp (a.toInt * b.toInt)

/-- Division toward zero; the divisor is not zero. -/
def div (a b : Int64) : Int64 := clamp (a.toInt.tdiv b.toInt)

/-- The remainder of division toward zero, with the sign of the dividend. -/
def rem (a b : Int64) : Int64 := clamp (a.toInt.tmod b.toInt)

/-- An exponent past 64 only says which sign an overflowing power has. -/
def effectiveExponent (e : Nat) : Nat := if e ≤ 64 then e else 64 + e % 2

/-- The power with a non-negative exponent. -/
def pow (a : Int64) (e : Nat) : Int64 := clamp (Int.pow a.toInt (effectiveExponent e))

/-- The power with exponent `-e`, as a real number cut toward zero. The exponent is read with 53
significant bits, so that from `2 ^ 53` on every exponent is even. -/
def reciprocalPow (a : Int64) (e : Nat) : Int64 :=
  if a = 0 then Int64.maxValue
  else if a = 1 then 1
  else if a = -1 then (if e % 2 = 1 ∧ e < Nat.pow 2 53 then -1 else 1)
  else 0

/-- A shift distance lies between 0 and 63. -/
def shiftDistance (b : Int64) : Nat := min b.toInt.toNat 63

/-- Multiplication by the saturated power of two. -/
def shiftLeft (a b : Int64) : Int64 := mul a (pow 2 (shiftDistance b))

def shiftRight (a b : Int64) : Int64 := clamp (a.toInt >>> shiftDistance b)

def ofBool (b : Bool) : Int64 := if b then 1 else 0

@[simp] theorem toInt_add (a b : Int64) :
    (add a b).toInt = max least (min (a.toInt + b.toInt) greatest) :=
  toInt_clamp _
@[simp] theorem toInt_sub (a b : Int64) :
    (sub a b).toInt = max least (min (a.toInt - b.toInt) greatest) :=
  toInt_clamp _

@[simp] theorem toInt_min (a b : Int64) : (min a b).toInt = min a.toInt b.toInt := by
  have hmin : min a b = if a ≤ b then a else b := rfl
  by_cases h : a ≤ b
  · have := Int64.le_iff_toInt_le.mp h
    rw [hmin, if_pos h]
    omega
  · have := mt Int64.le_iff_toInt_le.mpr h
    rw [hmin, if_neg h]
    omega

@[simp] theorem toInt_max (a b : Int64) : (max a b).toInt = max a.toInt b.toInt := by
  have hmax : max a b = if a ≤ b then b else a := rfl
  by_cases h : a ≤ b
  · have := Int64.le_iff_toInt_le.mp h
    rw [hmax, if_pos h]
    omega
  · have := mt Int64.le_iff_toInt_le.mpr h
    rw [hmax, if_neg h]
    omega

example : div Int64.minValue (-1) = Int64.maxValue := by decide
example : rem Int64.minValue (-1) = 0 := by decide
example : pow (-2) 63 = Int64.minValue := by decide
example : shiftLeft (-1) 63 = -9223372036854775807 := by decide

end LoopSafety.Saturating
