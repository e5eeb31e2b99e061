import LoopSafety.ArrayShape
import LoopSafety.LoopRange
import LoopSafety.Term

/-! Programs: the tables that handles point into, with the node table already resolved to syntax
trees. -/
namespace LoopSafety

structure Param where
  name : String
  ty : DataType
  deriving DecidableEq, Repr

structure FunctionDef where
  name : String
  params : List Param
  ret : NodeId
  retTy : DataType
  deriving DecidableEq, Repr

structure Program where
  terms : Array Term := #[]
  loops : Array LoopInfo := #[]
  arrays : Array Binding := #[]
  functions : Array FunctionDef := #[]

namespace Program

def term? (p : Program) (id : NodeId) : Option Term := p.terms[id.toNat]?
def loop? (p : Program) (id : LoopId) : Option LoopInfo := p.loops[id.toNat]?
def array? (p : Program) (id : ArrayId) : Option Binding := p.arrays[id.toNat]?
def function? (p : Program) (id : FunctionId) : Option FunctionDef := p.functions[id.toNat]?

def term (p : Program) (id : NodeId) : Except Error Term :=
  match p.term? id with
  | some t => .ok t
  | none => .error (.missing (.node id))

/-- Whether a handle other than a node's points into its table. -/
def inTable (p : Program) : Handle → Bool
  | .node id => id.toNat < p.terms.size
  | .loop id => id.toNat < p.loops.size
  | .array id => id.toNat < p.arrays.size
  | .function id => id.toNat < p.functions.size

def loopIds (p : Program) : List LoopId := (List.range p.loops.size).map LoopId.ofNat

/-- The trees that call a function, in the order of the node table. -/
def callSites (p : Program) (function : FunctionId) : List Term :=
  p.terms.toList.filter fun t =>
    match t.node with
    | .call f _ => f = function
    | _ => false

/-- The type of a construct's value. -/
def typeOf (p : Program) (t : Term) : DataType :=
  match t.node with
  | .literal value => value.dataType
  | .var _ ty _ | .binary _ _ _ ty | .unary _ _ ty | .builtin _ _ ty | .math _ _ ty
  | .cond _ _ _ ty => ty
  | .access array _ => (p.array? array).elim .none (·.shape.ty.element)
  | .call function _ => (p.function? function).elim .none (·.retTy)
  | _ => .none

def arrayName (p : Program) (id : ArrayId) : String := (p.array? id).elim id.text (·.name)

def functionName (p : Program) (id : FunctionId) : String := (p.function? id).elim id.text (·.name)

/-- A loop's variable and range, before the braces of its body. -/
def loopHead (p : Program) (id : LoopId) : String :=
  match p.loop? id with
  | none => id.text
  | some info => info.induction ++ " in " ++ (info.simpleSpan?.elim "range(..)" Span.text)

mutual

/-- The source text of a construct. -/
def describe (p : Program) : Term → String
  | .mk _ (.literal value) => value.text
  | .mk _ (.var name _ _) => name
  | .mk _ (.binary op left right _) =>
    "(" ++ p.describe left ++ " " ++ op.symbol ++ " " ++ p.describe right ++ ")"
  | .mk _ (.unary .cast operand ty) => "(" ++ ty.text ++ ")" ++ p.describe operand
  | .mk _ (.unary .neg operand _) => "-" ++ p.describe operand
  | .mk _ (.unary .not operand _) => "!" ++ p.describe operand
  | .mk _ (.access array indices) => p.arrayName array ++ p.describeIndices indices
  | .mk _ (.builtin kind args _) => kind.text ++ "(" ++ p.describeList ", " args ++ ")"
  | .mk _ (.math fn args _) => fn.text ++ "(" ++ p.describeList ", " args ++ ")"
  | .mk _ (.cond condition thenPart none _) =>
    "if " ++ p.describe condition ++ " \x7b " ++ p.describe thenPart ++ " \x7d"
  | .mk _ (.cond condition thenPart (some elsePart) _) =>
    "if " ++ p.describe condition ++ " \x7b " ++ p.describe thenPart ++ " \x7d else \x7b "
      ++ p.describe elsePart ++ " \x7d"
  | .mk _ (.forLoop loop body) =>
    "for " ++ p.loopHead loop ++ " \x7b " ++ p.describe body ++ " \x7d"
  | .mk _ (.whileLoop condition body) =>
    "while " ++ p.describe condition ++ " \x7b " ++ p.describe body ++ " \x7d"
  | .mk _ (.block statements) => p.describeList "; " statements
  | .mk _ (.assign target value) => p.describe target ++ " = " ++ p.describe value
  | .mk _ (.call function args) =>
    p.functionName function ++ "(" ++ p.describeList ", " args ++ ")"
  | .mk _ (.ret value) => "return " ++ p.describe value
  | .mk _ .brk => "break"

def describeIndices (p : Program) : List Term → String
  | [] => ""
  | t :: ts => "[" ++ p.describe t ++ "]" ++ p.describeIndices ts

def describeList (p : Program) (separator : String) : List Term → String
  | [] => ""
  | [t] => p.describe t
  | t :: ts => p.describe t ++ separator ++ p.describeList separator ts

end

end Program

end LoopSafety
