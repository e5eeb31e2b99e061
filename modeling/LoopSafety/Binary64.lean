/-! Finite doubles as exact dyadic numbers, and the square root of a sum of two squares. -/
namespace LoopSafety

/-- The absolute value of a finite double: `mantissa * 2 ^ exponent`. -/
structure Binary64 where
  mantissa : Nat
  exponent : Int
  deriving DecidableEq, Repr

namespace Binary64

def isNegative (x : Float) : Bool := x.toBits >>> 63 == 1

/-- The exact absolute value of a finite double. -/
def ofFloat (x : Float) : Binary64 :=
  let bits := x.toBits.toNat
  let fraction : Nat := bits % Nat.pow 2 52
  let biased : Nat := bits / Nat.pow 2 52 % Nat.pow 2 11
  if biased = 0 then ⟨fraction, -1074⟩ else ⟨Nat.pow 2 52 + fraction, (biased : Int) - 1075⟩

/-- A quotient of naturals equal to the number. -/
def toFraction (b : Binary64) : Nat × Nat :=
  (b.mantissa * Nat.pow 2 b.exponent.toNat, Nat.pow 2 (-b.exponent).toNat)

/-- The integer square root below `2 ^ bits`, one bit at a time from the top. -/
def squareRoot (n : Nat) : Nat → Nat
  | 0 => 0
  | bits + 1 => go (Nat.pow 2 bits) (bits + 1) 0
where
  go (bit : Nat) : Nat → Nat → Nat
    | 0, root => root
    | k + 1, root =>
      let next := root + bit
      go (bit / 2) k (if next * next ≤ n then next else root)

/-- The double nearest to `n * 2 ^ q`, or just above it when a remainder was dropped. -/
def nearestFloat (n : Nat) (remainder : Bool) (q : Int) : Float :=
  -- at most 64 leading bits and a sticky bit leave the rounding to the conversion
  let extra := n.log2 - 63
  let sticky := if remainder || n % Nat.pow 2 extra != 0 then 1 else 0
  (Float.ofNat (2 * (n / Nat.pow 2 extra) + sticky)).scaleB (q + extra - 1)

/-- The double nearest to the length of the hypotenuse of two finite legs. -/
def hypotenuse (x y : Float) : Float :=
  let a := ofFloat x
  let b := ofFloat y
  let q := min a.exponent b.exponent
  let m := a.mantissa * Nat.pow 2 (a.exponent - q).toNat
  let n := b.mantissa * Nat.pow 2 (b.exponent - q).toNat
  let square := (m * m + n * n) * Nat.pow 2 120
  let root := squareRoot square (square.log2 / 2 + 1)
  nearestFloat root (root * root != square) (q - 60)

end Binary64

end LoopSafety
