import LoopSafety.Saturating
import LoopSafety.DataType

/-! The operators of kernel expressions and their meaning on 64-bit literals. -/
namespace LoopSafety

inductive BinaryOp where
  | add | sub | mul | div | pow | mod
  | logicalOr | logicalAnd
  | leftShift | rightShift
  | bitAnd | bitOr | bitXor
  | equal | notEqual | lessThan | lessEqual | greaterThan | greaterEqual
  deriving DecidableEq, Repr

namespace BinaryOp

def all : List BinaryOp :=
  [add, sub, mul, div, pow, mod, logicalOr, logicalAnd, leftShift, rightShift,
   bitAnd, bitOr, bitXor, equal, notEqual, lessThan, lessEqual, greaterThan, greaterEqual]

def name : BinaryOp → String
  | add => "Add" | sub => "Sub" | mul => "Mul" | div => "Div" | pow => "Pow" | mod => "Mod"
  | logicalOr => "LogicalOr" | logicalAnd => "LogicalAnd"
  | leftShift => "LeftShift" | rightShift => "RightShift"
  | bitAnd => "BitAnd" | bitOr => "BitOr" | bitXor => "BitXor"
  | equal => "Equal" | notEqual => "NotEqual" | lessThan => "LessThan" | lessEqual => "LessEqual"
  | greaterThan => "GreaterThan" | greaterEqual => "GreaterEqual"

def ofName? (s : String) : Option BinaryOp := all.find? (·.name == s)

def symbol : BinaryOp → String
  | add => "+" | sub => "-" | mul => "*" | div => "/" | pow => "**" | mod => "%"
  | logicalOr => "||" | logicalAnd => "&&"
  | leftShift => "<<" | rightShift => ">>"
  | bitAnd => "&" | bitOr => "|" | bitXor => "^"
  | equal => "==" | notEqual => "!=" | lessThan => "<" | lessEqual => "<="
  | greaterThan => ">" | greaterEqual => ">="

/-- Operators whose result can leave the range of its type. -/
def isArithmetic : BinaryOp → Bool
  | add | sub | mul | div | pow | mod | leftShift => true
  | _ => false

def isDivision : BinaryOp → Bool
  | div | mod => true
  | _ => false

/-- The saturated result on two literals; division by zero has none. -/
def apply (op : BinaryOp) (a b : Int64) : Option Int64 :=
  match op with
  | add => some (Saturating.add a b)
  | sub => some (Saturating.sub a b)
  | mul => some (Saturating.mul a b)
  | div => if b = 0 then none else some (Saturating.div a b)
  | mod => if b = 0 then none else some (Saturating.rem a b)
  | pow =>
    if 0 ≤ b then some (Saturating.pow a (min b.toInt.toNat (UInt32.size - 1)))
    else some (Saturating.reciprocalPow a (-b.toInt).toNat)
  | leftShift => some (Saturating.shiftLeft a b)
  | rightShift => some (Saturating.shiftRight a b)
  | bitAnd => some (a &&& b)
  | bitOr => some (a ||| b)
  | bitXor => some (a ^^^ b)
  | logicalOr => some (Saturating.ofBool (a != 0 || b != 0))
  | logicalAnd => some (Saturating.ofBool (a != 0 && b != 0))
  | equal => some (Saturating.ofBool (a == b))
  | notEqual => some (Saturating.ofBool (a != b))
  | lessThan => some (Saturating.ofBool (decide (a < b)))
  | lessEqual => some (Saturating.ofBool (decide (a ≤ b)))
  | greaterThan => some (Saturating.ofBool (decide (b < a)))
  | greaterEqual => some (Saturating.ofBool (decide (b ≤ a)))

@[simp] theorem ofName?_name (op : BinaryOp) : ofName? op.name = some op := by
  cases op <;> decide

/-- Only a division by zero has no result. -/
theorem apply_eq_none_iff (op : BinaryOp) (a b : Int64) :
    op.apply a b = none ↔ op.isDivision = true ∧ b = 0 := by
  cases op <;> simp [apply, isDivision] <;> split <;> simp_all

example : apply pow (-1) 4294967296 = some (-1) := by decide
example : apply pow 0 (-1) = some Int64.maxValue := by decide

end BinaryOp

inductive UnaryOp where
  | cast | neg | not
  deriving DecidableEq, Repr

namespace UnaryOp

def all : List UnaryOp := [cast, neg, not]

def name : UnaryOp → String
  | cast => "Cast" | neg => "Neg" | not => "Not"

def ofName? (s : String) : Option UnaryOp := all.find? (·.name == s)

@[simp] theorem ofName?_name (op : UnaryOp) : ofName? op.name = some op := by
  cases op <;> decide

end UnaryOp

/-- The smaller or the larger of two integers. -/
inductive Builtin where
  | min | max
  deriving DecidableEq, Repr

namespace Builtin

def all : List Builtin := [min, max]

def name : Builtin → String
  | min => "Min" | max => "Max"

def ofName? (s : String) : Option Builtin := all.find? (·.name == s)

def text : Builtin → String
  | min => "min" | max => "max"

def apply : Builtin → Int64 → Int64 → Int64
  | min, a, b => Min.min a b
  | max, a, b => Max.max a b

@[simp] theorem ofName?_name (b : Builtin) : ofName? b.name = some b := by
  cases b <;> decide

end Builtin

end LoopSafety
