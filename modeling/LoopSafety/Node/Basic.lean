import LoopSafety.Handle
import LoopSafety.MathFn
import LoopSafety.Operator
import LoopSafety.Value

/-! The constructs of a kernel. The type of references to other constructs is left open: a file
refers by position in its node table, a syntax tree holds the constructs themselves. -/
namespace LoopSafety

inductive Node (ρ : Type) where
  | literal (value : Value)
  | var (name : String) (ty : DataType) (definition : Option ρ)
  | binary (op : BinaryOp) (left right : ρ) (ty : DataType)
  | unary (op : UnaryOp) (operand : ρ) (ty : DataType)
  | access (array : ArrayId) (indices : List ρ)
  | builtin (kind : Builtin) (args : List ρ) (ty : DataType)
  | math (fn : MathFn) (args : List ρ) (ty : DataType)
  | cond (condition thenPart : ρ) (elsePart : Option ρ) (ty : DataType)
  | forLoop (loop : LoopId) (body : ρ)
  | whileLoop (condition body : ρ)
  | block (statements : List ρ)
  | assign (target value : ρ)
  | call (function : FunctionId) (args : List ρ)
  | ret (value : ρ)
  | brk

namespace Node

variable {ρ σ : Type}

/-- The constructs evaluated as part of this one, in order. The definition of a variable is not
one of them. -/
def children : Node ρ → List ρ
  | literal _ | var .. | brk => []
  | binary _ left right _ => [left, right]
  | unary _ operand _ => [operand]
  | access _ indices => indices
  | builtin _ args _ | math _ args _ | call _ args => args
  | cond condition thenPart elsePart _ => condition :: thenPart :: elsePart.toList
  | forLoop _ body => [body]
  | whileLoop condition body => [condition, body]
  | block statements => statements
  | assign target value => [target, value]
  | ret value => [value]

def kind : Node ρ → String
  | literal _ => "literal"
  | var .. => "variable"
  | binary .. => "binary operation"
  | unary .. => "unary operation"
  | access .. => "array access"
  | builtin .. => "builtin call"
  | math .. => "math function"
  | cond .. => "conditional"
  | forLoop .. => "for loop"
  | whileLoop .. => "while loop"
  | block _ => "block"
  | assign .. => "assignment"
  | call .. => "function call"
  | ret _ => "return"
  | brk => "break"

def map (f : ρ → σ) : Node ρ → Node σ
  | literal value => literal value
  | var name ty definition => var name ty (definition.map f)
  | binary op left right ty => binary op (f left) (f right) ty
  | unary op operand ty => unary op (f operand) ty
  | access array indices => access array (indices.map f)
  | builtin kind args ty => builtin kind (args.map f) ty
  | math fn args ty => math fn (args.map f) ty
  | cond condition thenPart elsePart ty => cond (f condition) (f thenPart) (elsePart.map f) ty
  | forLoop loop body => forLoop loop (f body)
  | whileLoop condition body => whileLoop (f condition) (f body)
  | block statements => block (statements.map f)
  | assign target value => assign (f target) (f value)
  | call function args => call function (args.map f)
  | ret value => ret (f value)
  | brk => brk

/-- Replace every reference, from the first to the last, stopping at the first failure. -/
def mapM {m : Type → Type} [Monad m] (f : ρ → m σ) : Node ρ → m (Node σ)
  | literal value => pure (literal value)
  | var name ty definition => do return var name ty (← definition.mapM f)
  | binary op left right ty => do return binary op (← f left) (← f right) ty
  | unary op operand ty => do return unary op (← f operand) ty
  | access array indices => do return access array (← indices.mapM f)
  | builtin kind args ty => do return builtin kind (← args.mapM f) ty
  | math fn args ty => do return math fn (← args.mapM f) ty
  | cond condition thenPart elsePart ty => do
    return cond (← f condition) (← f thenPart) (← elsePart.mapM f) ty
  | forLoop loop body => do return forLoop loop (← f body)
  | whileLoop condition body => do return whileLoop (← f condition) (← f body)
  | block statements => do return block (← statements.mapM f)
  | assign target value => do return assign (← f target) (← f value)
  | call function args => do return call function (← args.mapM f)
  | ret value => do return ret (← f value)
  | brk => pure brk

/-- The table entry that a construct names besides other constructs. -/
def handle? : Node ρ → Option Handle
  | forLoop loop _ => some (.loop loop)
  | access array _ => some (.array array)
  | call function _ => some (.function function)
  | _ => none

end Node

end LoopSafety
