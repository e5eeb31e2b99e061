/-! JSON values. Whole numbers and reals are kept apart: a whole number is one written without
fraction or exponent that fits in 64 bits, signed when negative.

A text may be well formed and yet stand for no value: a number beyond the doubles, a string with a
lone surrogate, an object with such a string as a key. A reader may skip it but not use it. -/
namespace LoopSafety

inductive Json where
  | null
  | bool (b : Bool)
  | int (n : Int)
  | real (x : Float)
  | str (s : String)
  | arr (items : List Json)
  | obj (members : List (String × Json))
  | valueless
  deriving Inhabited

namespace Json

mutual

/-- How many containers are open at the deepest point. -/
def nesting : Json → Nat
  | arr items => nestingItems items + 1
  | obj members => nestingMembers members + 1
  | _ => 0

def nestingItems : List Json → Nat
  | [] => 0
  | j :: js => max j.nesting (nestingItems js)

def nestingMembers : List (String × Json) → Nat
  | [] => 0
  | (_, j) :: ms => max j.nesting (nestingMembers ms)

end

mutual

/-- No part of the value is without a value of its own. -/
def isReadable : Json → Bool
  | valueless => false
  | arr items => readableItems items
  | obj members => readableMembers members
  | _ => true

def readableItems : List Json → Bool
  | [] => true
  | j :: js => j.isReadable && readableItems js

def readableMembers : List (String × Json) → Bool
  | [] => true
  | (_, j) :: ms => j.isReadable && readableMembers ms

end

end Json

end LoopSafety
