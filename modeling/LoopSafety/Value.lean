import LoopSafety.Decimal
import LoopSafety.Error
import LoopSafety.Json.Decode

/-! Literal values and their declared types. -/
namespace LoopSafety

inductive Value where
  | int (v : Int32)
  | long (v : Int64)
  | double (v : Float)
  | bool (v : Bool)
  deriving DecidableEq

namespace Value

def dataType : Value → DataType
  | int _ => .int
  | long _ => .long
  | double _ => .double
  | bool _ => .bool

/-- The integer view: a double is cut toward zero and stops at the ends of the range. -/
def toInt64 : Value → Int64
  | int v => v.toInt64
  | long v => v
  | double v => v.toInt64
  | bool v => if v then 1 else 0

/-- The value as one of a declared type: the same type, or an integer widened. -/
def specialize (v : Value) (expected : DataType) : Except Error Value :=
  if v.dataType = expected then .ok v
  else match v, expected with
    | int n, .long => .ok (long n.toInt64)
    | _, _ => .error (.typeMismatch expected v.dataType)

def text : Value → String
  | int v => toString v
  | long v => toString v ++ "L"
  | double v => Decimal.plain v
  | bool v => toString v

/-- A double that is not finite is written as null. -/
def toJson : Value → Json
  | int v => .obj [("Int", .int v.toInt)]
  | long v => .obj [("Long", .int v.toInt)]
  | double v => .obj [("Double", if v.isFinite then .real v else .null)]
  | bool v => .obj [("Bool", .bool v)]

def ofJson? : Json → Option Value
  | .obj [("Int", j)] => j.int32?.map int
  | .obj [("Long", j)] => j.int64?.map long
  | .obj [("Double", j)] => j.float?.map double
  | .obj [("Bool", j)] => j.bool?.map bool
  | _ => none

end Value

end LoopSafety
