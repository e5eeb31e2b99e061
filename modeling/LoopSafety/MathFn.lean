import LoopSafety.Binary64

/-! Real functions and their images of intervals. -/
namespace LoopSafety

inductive MathFn where
  | abs | hypot | sqrt | exp | ceil | acos | cos | sin | log | round
  deriving DecidableEq, Repr

namespace MathFn

def all : List MathFn := [abs, hypot, sqrt, exp, ceil, acos, cos, sin, log, round]

def name : MathFn → String
  | abs => "Abs" | hypot => "Hypot" | sqrt => "Sqrt" | exp => "Exp" | ceil => "Ceil"
  | acos => "Acos" | cos => "Cos" | sin => "Sin" | log => "Log" | round => "Round"

def ofName? (s : String) : Option MathFn := all.find? (·.name == s)

def text : MathFn → String
  | abs => "abs" | hypot => "hypot" | sqrt => "sqrt" | exp => "exp" | ceil => "ceil"
  | acos => "acos" | cos => "cos" | sin => "sin" | log => "log" | round => "round"

def arity : MathFn → Nat
  | hypot => 2
  | _ => 1

def larger (x y : Float) : Float := if x < y then y else x
def smaller (x y : Float) : Float := if y < x then y else x

/-- The least absolute value of an interval. -/
def nearest (lo hi : Float) : Float :=
  if lo ≤ 0 && hi ≥ 0 then 0 else smaller lo.abs hi.abs

/-- The greatest absolute value of an interval. -/
def farthest (lo hi : Float) : Float := larger lo.abs hi.abs

/-- Both ends, unless one of them is not a number. -/
def numbers (ends : Float × Float) : Option (Float × Float) :=
  if ends.1.isNaN || ends.2.isNaN then none else some ends

/-- The image of one interval per argument; `acos` decreases, and `cos` and `sin` are not followed
through their periods. -/
def image : MathFn → List (Float × Float) → Option (Float × Float)
  | abs, [(lo, hi)] => numbers (nearest lo hi, farthest lo hi)
  | hypot, [(lo, hi), (lo2, hi2)] =>
    numbers (Binary64.hypotenuse (nearest lo hi) (nearest lo2 hi2),
      Binary64.hypotenuse (farthest lo hi) (farthest lo2 hi2))
  | sqrt, [(lo, hi)] => numbers (lo.sqrt, hi.sqrt)
  | exp, [(lo, hi)] => numbers (lo.exp, hi.exp)
  | ceil, [(lo, hi)] => numbers (lo.ceil, hi.ceil)
  | round, [(lo, hi)] => numbers (lo.round, hi.round)
  | log, [(lo, hi)] => numbers (lo.log, hi.log)
  | acos, [(lo, hi)] => numbers (hi.acos, lo.acos)
  | cos, [_] | sin, [_] => some (-1, 1)
  | _, _ => none

@[simp] theorem ofName?_name (f : MathFn) : ofName? f.name = some f := by
  cases f <;> decide

end MathFn

end LoopSafety
