import LoopSafety.Binary64

/-! Decimal texts of doubles: the fewest digits that read back, and a fixed number of places. -/
namespace LoopSafety.Decimal

/-- `digits * 10 ^ exponent`. -/
structure Digits where
  digits : Nat
  exponent : Int
  deriving DecidableEq, Repr

/-- Which neighbour an exact half goes to. -/
inductive Tie where
  | up | toEven
  deriving DecidableEq, Repr

def digitCount (n : Nat) : Nat := (Nat.toDigits 10 n).length

/-- The largest `e` with `10 ^ e ≤ num / den`, for positive `num` and `den`. -/
def magnitude (num den : Nat) : Int :=
  if den ≤ num then digitCount (num / den) - 1 else -digitCount ((den - 1) / num)

/-- The reals that round to a double, in units of a quarter of its last place: the number itself
is `4 * mantissa`. -/
structure Neighbourhood where
  lower : Nat
  value : Nat
  upper : Nat
  closed : Bool
  exponent : Int

def neighbourhood (b : Binary64) : Neighbourhood :=
  let narrow := b.mantissa = Nat.pow 2 52 && b.exponent > -1074
  { lower := 4 * b.mantissa - (if narrow then 1 else 2)
    value := 4 * b.mantissa
    upper := 4 * b.mantissa + 2
    closed := b.mantissa % 2 = 0
    exponent := b.exponent - 2 }

/-- The point of the grid `10 ^ k` nearest to a double, if it reads back as that double. -/
def onGrid (tie : Tie) (n : Neighbourhood) (k : Int) : Option Digits :=
  -- `unit / scale` is the size of a quarter of the last place in units of the grid
  let unit := Nat.pow 2 n.exponent.toNat * Nat.pow 10 (-k).toNat
  let scale := Nat.pow 2 (-n.exponent).toNat * Nat.pow 10 k.toNat
  let d := n.value * unit / scale
  let below := d * scale
  let above := (d + 1) * scale
  let hitsBelow := if n.closed then n.lower * unit ≤ below else n.lower * unit < below
  let hitsAbove := if n.closed then above ≤ n.upper * unit else above < n.upper * unit
  let toBelow := n.value * unit - below
  let toAbove := above - n.value * unit
  let preferAbove := toAbove < toBelow || (toAbove = toBelow && (tie = .up || d % 2 = 1))
  match decide hitsBelow, decide hitsAbove with
  | true, true => some ⟨if preferAbove then d + 1 else d, k⟩
  | true, false => some ⟨d, k⟩
  | false, true => some ⟨d + 1, k⟩
  | false, false => none

/-- Digits without trailing zeros. -/
def strip : Nat → Digits → Digits
  | 0, d => d
  | fuel + 1, d =>
    if d.digits % 10 = 0 ∧ d.digits ≠ 0 then strip fuel ⟨d.digits / 10, d.exponent + 1⟩ else d

/-- The fewest digits that read back as a positive finite double, and of these the nearest. -/
def shortest (tie : Tie) (b : Binary64) : Digits :=
  let (num, den) := b.toFraction
  let top := magnitude num den
  let n := neighbourhood b
  match (List.range 17).findSome? fun (i : Nat) => onGrid tie n (top - i) with
  | some d => strip 20 d
  | none => ⟨0, 0⟩

def zeros (n : Nat) : String := String.ofList (List.replicate n '0')

/-- The digits written without an exponent, with a point only where a fraction follows. -/
def Digits.positional (d : Digits) : String :=
  let ds := toString d.digits
  let point : Int := ds.length + d.exponent
  if 0 ≤ d.exponent then ds ++ zeros d.exponent.toNat
  else if 0 < point then
    String.ofList (ds.toList.take point.toNat) ++ "." ++ String.ofList (ds.toList.drop point.toNat)
  else "0." ++ zeros (-point).toNat ++ ds

/-- The digits as one digit, a fraction, and a power of ten that always has its sign. -/
def Digits.scientific (d : Digits) : String :=
  let ds := toString d.digits
  let fraction := if ds.length = 1 then "" else "." ++ String.ofList (ds.toList.drop 1)
  let power : Int := ds.length + d.exponent - 1
  String.ofList (ds.toList.take 1) ++ fraction ++ "e" ++
    (if 0 ≤ power then "+" else "-") ++ toString power.natAbs

def signText (x : Float) : String := if Binary64.isNegative x then "-" else ""

/-- Plain text: positional, no fraction for a whole number. -/
def plain (x : Float) : String :=
  if x.isNaN then "NaN"
  else if x.isInf then signText x ++ "inf"
  else if x == 0 then signText x ++ "0"
  else signText x ++ (shortest .up (Binary64.ofFloat x)).positional

/-- The text of a finite double in a data file: always with a fraction or an exponent, the exponent
only outside `1e-5 ≤ x < 1e16`. -/
def data (x : Float) : String :=
  if x == 0 then signText x ++ "0.0"
  else
    let d := shortest .toEven (Binary64.ofFloat x)
    let point : Int := digitCount d.digits + d.exponent
    signText x ++
      (if 0 ≤ d.exponent ∧ point ≤ 16 then d.positional ++ ".0"
       else if -5 < point ∧ point ≤ 16 then d.positional
       else d.scientific)

/-- A quotient rounded to the nearest integer, an exact half to the even one. -/
def roundHalfEven (num den : Nat) : Nat :=
  let q := num / den
  let r := num % den
  if 2 * r < den then q else if den < 2 * r then q + 1 else q + q % 2

/-- The exact value rounded to a number of decimal places. -/
def fixed (places : Nat) (x : Float) : String :=
  if x.isNaN then "NaN"
  else if x.isInf then signText x ++ "inf"
  else
    let (num, den) := (Binary64.ofFloat x).toFraction
    let n := roundHalfEven (num * Nat.pow 10 places) den
    let whole := toString (n / Nat.pow 10 places)
    let fraction := toString (n % Nat.pow 10 places)
    signText x ++ whole ++
      (if places = 0 then "" else "." ++ zeros (places - fraction.length) ++ fraction)

end LoopSafety.Decimal
