/-! The types a kernel may give to a scalar or an array. -/
namespace LoopSafety

inductive DataType where
  | int | long | double | bool
  | intArray | longArray | doubleArray | boolArray
  | none
  deriving DecidableEq, Repr

namespace DataType

def all : List DataType :=
  [int, long, double, bool, intArray, longArray, doubleArray, boolArray, none]

/-- The name that the kernel format and error texts use. -/
def name : DataType → String
  | int => "Int" | long => "Long" | double => "Double" | bool => "Bool"
  | intArray => "IntArray" | longArray => "LongArray"
  | doubleArray => "DoubleArray" | boolArray => "BoolArray"
  | none => "None"

def ofName? (s : String) : Option DataType := all.find? (·.name == s)

/-- The spelling inside described programs. -/
def text : DataType → String
  | int => "int" | long => "long" | double => "double" | bool => "bool"
  | intArray => "int[]" | longArray => "long[]"
  | doubleArray => "double[]" | boolArray => "bool[]"
  | none => "none"

def isArray : DataType → Bool
  | intArray | longArray | doubleArray | boolArray => true
  | _ => false

/-- The type of an array's elements; a scalar type is its own. -/
def element : DataType → DataType
  | intArray => int | longArray => long | doubleArray => double | boolArray => bool
  | t => t

/-- Bytes of one element. -/
def elementBytes (t : DataType) : Int64 :=
  match t.element with
  | int => 4 | long => 8 | double => 8 | bool => 1
  | _ => 0

/-- The least and greatest value of an integer type. -/
def limits : DataType → Option (Int64 × Int64)
  | int => some (-2147483648, 2147483647)
  | long => some (Int64.minValue, Int64.maxValue)
  | _ => Option.none

/-- Only integer arrays have contents that a scan can bound. -/
def isScannable : DataType → Bool
  | intArray | longArray => true
  | _ => false

/-- The type of an operation on two operands. -/
def widen : DataType → DataType → DataType
  | int, int => int
  | bool, bool => bool
  | int, bool | bool, int => int
  | _, _ => long

/-- The nearest value of an integer type; any other type leaves the value alone. -/
def saturate (t : DataType) (v : Int64) : Int64 :=
  match t.limits with
  | some (lo, hi) => max lo (min v hi)
  | Option.none => v

@[simp] theorem ofName?_name (t : DataType) : ofName? t.name = some t := by
  cases t <;> decide

end DataType

end LoopSafety
