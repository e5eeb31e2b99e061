import LoopSafety.Handle
import LoopSafety.MathFn
import LoopSafety.Operator

/-! Symbolic bounds: integer expressions over loop variables, constants and array contents, and
the intervals that they narrow to. -/
namespace LoopSafety

inductive Bound where
  | literal (value : Int64) (ty : DataType)
  | limit (lo hi : Bound) (ty : DataType)
  | either (thenPart elsePart : Bound) (ty : DataType)
  | range (start stop step : Bound)
  | var (name : String) (ty : DataType)
  | binary (op : BinaryOp) (left right : Bound) (ty : DataType)
  | builtin (kind : Builtin) (left right : Bound) (ty : DataType)
  | math (fn : MathFn) (args : List Bound) (ty : DataType)
  | call (name : String) (params : List (String × Bound)) (ret : Bound) (ty : DataType)
  | array (id : ArrayId) (name : String) (ty : DataType)
  | fail
  deriving Inhabited

namespace Bound

/-- The interval between two literals; equal ends make a literal. -/
def interval (lo hi : Int64) (ty : DataType) : Bound :=
  if lo = hi then literal lo ty else limit (literal lo ty) (literal hi ty) ty

def isFail : Bound → Bool
  | fail => true
  | _ => false

def literal? : Bound → Option Int64
  | literal value _ => some value
  | _ => none

/-- The ends of a bound that is an interval of literals. -/
def interval? : Bound → Option (Int64 × Int64)
  | literal value _ => some (value, value)
  | limit (literal lo _) (literal hi _) _ => some (lo, hi)
  | _ => none

def ty : Bound → DataType
  | literal _ ty | limit _ _ ty | either _ _ ty | var _ ty | binary _ _ _ ty
  | builtin _ _ _ ty | math _ _ ty | call _ _ _ ty | array _ _ ty => ty
  | range start _ _ => start.ty
  | fail => .none

mutual

def text : Bound → String
  | literal value _ => toString value
  | limit lo hi _ => "[" ++ lo.text ++ ", " ++ hi.text ++ "]"
  | either thenPart elsePart _ => "either(" ++ thenPart.text ++ ", " ++ elsePart.text ++ ")"
  | range start stop step =>
    "range(" ++ start.text ++ ", " ++ stop.text ++ ", " ++ step.text ++ ")"
  | var name _ => name
  | binary op left right _ => "(" ++ left.text ++ " " ++ op.symbol ++ " " ++ right.text ++ ")"
  | builtin kind left right _ => kind.text ++ "(" ++ left.text ++ ", " ++ right.text ++ ")"
  | math fn args _ => fn.text ++ "(" ++ textList args ++ ")"
  | call name _ ret _ => name ++ "() -> " ++ ret.text
  | array _ name _ => name ++ "[*]"
  | fail => "FAIL"

def textList : List Bound → String
  | [] => ""
  | [b] => b.text
  | b :: bs => b.text ++ ", " ++ textList bs

end

/-- Every literal of an evaluated bound is an index below a size. -/
def within (size : Int64) : Bound → Bool
  | literal value _ => 0 ≤ value && value < size
  | limit lo hi _ => lo.within size && hi.within size
  | either thenPart elsePart _ => thenPart.within size && elsePart.within size
  | _ => false

/-- No literal of an evaluated bound is one of two extremes. -/
def avoids (lo hi : Int64) : Bound → Bool
  | literal value _ => value != lo && value != hi
  | limit a b _ => a.avoids lo hi && b.avoids lo hi
  | either a b _ => a.avoids lo hi && b.avoids lo hi
  | _ => false

/-- The smaller of two values that may be missing. -/
def least? : Option Int64 → Option Int64 → Option Int64
  | some a, some b => some (min a b)
  | a, none => a
  | none, b => b

/-- The least literal of an evaluated bound. -/
def lowest? : Bound → Option Int64
  | literal value _ => some value
  | limit lo hi _ => least? lo.lowest? hi.lowest?
  | either thenPart elsePart _ => least? thenPart.lowest? elsePart.lowest?
  | _ => none

@[simp] theorem interval?_interval (lo hi : Int64) (ty : DataType) :
    (interval lo hi ty).interval? = some (lo, hi) := by
  unfold interval
  split <;> simp_all [interval?]

end Bound

end LoopSafety
