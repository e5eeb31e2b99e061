import LoopSafety.Node.Basic
import LoopSafety.LoopRange

/-! The file format of constructs: an object, or an array, that starts from its tag. -/
namespace LoopSafety.Node

open Json (Field)

def idsJson (ids : List NodeId) : Json := .arr (ids.map NodeId.toJson)
def typeJson (ty : DataType) : Json := .str ty.name

def toJson : Node NodeId → Json
  | literal value => .obj [("node", .str "literal"), ("value", value.toJson)]
  | var name ty definition =>
    .obj [("node", .str "var"), ("name", .str name), ("ty", typeJson ty),
      ("def", LoopRange.handleJson definition)]
  | binary op left right ty =>
    .obj [("node", .str "bin_op"), ("op", .str op.name), ("left", left.toJson),
      ("right", right.toJson), ("ty", typeJson ty)]
  | unary op operand ty =>
    .obj [("node", .str "unary_op"), ("op", .str op.name), ("operand", operand.toJson),
      ("ty", typeJson ty)]
  | access array indices =>
    .obj [("node", .str "array_access"), ("array", .int array.toNat), ("indices", idsJson indices)]
  | builtin kind args ty =>
    .obj [("node", .str "builtin"), ("kind", .str kind.name), ("args", idsJson args),
      ("ty", typeJson ty)]
  | math fn args ty =>
    .obj [("node", .str "math"), ("func", .str fn.name), ("args", idsJson args),
      ("ty", typeJson ty)]
  | cond condition thenPart elsePart ty =>
    .obj [("node", .str "if"), ("cond", condition.toJson), ("then", thenPart.toJson),
      ("orelse", LoopRange.handleJson elsePart), ("ty", typeJson ty)]
  | forLoop loop body =>
    .obj [("node", .str "for"), ("info", .int loop.toNat), ("body", body.toJson)]
  | whileLoop condition body =>
    .obj [("node", .str "while"), ("cond", condition.toJson), ("body", body.toJson)]
  | block statements => .obj [("node", .str "block"), ("stmts", idsJson statements)]
  | assign target value =>
    .obj [("node", .str "assign"), ("target", target.toJson), ("value", value.toJson)]
  | call function args =>
    .obj [("node", .str "call"), ("function", .int function.toNat), ("args", idsJson args)]
  | ret value => .obj [("node", .str "return"), ("value", value.toJson)]
  | brk => .obj [("node", .str "break")]

def tags : List String :=
  ["literal", "var", "bin_op", "unary_op", "array_access", "builtin", "math", "if", "for", "while",
   "block", "assign", "call", "return", "break"]

/-- How many containers may be open inside a node of a kernel file. -/
def nestingLimit : Nat := 125

def ids? (j : Json) : Option (List NodeId) := j.list? NodeId.ofJson?
def type? (j : Json) : Option DataType := j.named? .buffered DataType.ofName?

/-- The members of a construct with the given tag. -/
def ofRecord? (tag : String) (j : Json) : Option (Node NodeId) := do
  match tag with
  | "literal" =>
    match ← j.record? [.required "value"] with
    | [value] => return literal (← Json.needed Value.ofJson? value)
    | _ => none
  | "var" =>
    match ← j.record? [.required "name", .required "ty", .defaulted "def"] with
    | [name, ty, definition] =>
      return var (← Json.needed Json.string? name) (← Json.needed type? ty)
        (← Json.maybe NodeId.ofJson? definition)
    | _ => none
  | "bin_op" =>
    match ← j.record? [.required "op", .required "left", .required "right", .required "ty"] with
    | [op, left, right, ty] =>
      return binary (← Json.needed (Json.named? .buffered BinaryOp.ofName?) op)
        (← Json.needed NodeId.ofJson? left) (← Json.needed NodeId.ofJson? right)
        (← Json.needed type? ty)
    | _ => none
  | "unary_op" =>
    match ← j.record? [.required "op", .required "operand", .required "ty"] with
    | [op, operand, ty] =>
      return unary (← Json.needed (Json.named? .buffered UnaryOp.ofName?) op)
        (← Json.needed NodeId.ofJson? operand) (← Json.needed type? ty)
    | _ => none
  | "array_access" =>
    match ← j.record? [.required "array", .required "indices"] with
    | [array, indices] =>
      return access ⟨← Json.needed Json.uint32? array⟩ (← Json.needed ids? indices)
    | _ => none
  | "builtin" =>
    match ← j.record? [.required "kind", .required "args", .required "ty"] with
    | [kind, args, ty] =>
      return builtin (← Json.needed (Json.named? .buffered Builtin.ofName?) kind)
        (← Json.needed ids? args) (← Json.needed type? ty)
    | _ => none
  | "math" =>
    match ← j.record? [.required "func", .required "args", .required "ty"] with
    | [fn, args, ty] =>
      return math (← Json.needed (Json.named? .buffered MathFn.ofName?) fn)
        (← Json.needed ids? args) (← Json.needed type? ty)
    | _ => none
  | "if" =>
    match ← j.record? [.required "cond", .required "then", .defaulted "orelse", .required "ty"] with
    | [condition, thenPart, elsePart, ty] =>
      return cond (← Json.needed NodeId.ofJson? condition) (← Json.needed NodeId.ofJson? thenPart)
        (← Json.maybe NodeId.ofJson? elsePart) (← Json.needed type? ty)
    | _ => none
  | "for" =>
    match ← j.record? [.required "info", .required "body"] with
    | [info, body] =>
      return forLoop ⟨← Json.needed Json.uint32? info⟩ (← Json.needed NodeId.ofJson? body)
    | _ => none
  | "while" =>
    match ← j.record? [.required "cond", .required "body"] with
    | [condition, body] =>
      return whileLoop (← Json.needed NodeId.ofJson? condition) (← Json.needed NodeId.ofJson? body)
    | _ => none
  | "block" =>
    match ← j.record? [.required "stmts"] with
    | [statements] => return block (← Json.needed ids? statements)
    | _ => none
  | "assign" =>
    match ← j.record? [.required "target", .required "value"] with
    | [target, value] =>
      return assign (← Json.needed NodeId.ofJson? target) (← Json.needed NodeId.ofJson? value)
    | _ => none
  | "call" =>
    match ← j.record? [.required "function", .required "args"] with
    | [function, args] =>
      return call ⟨← Json.needed Json.uint32? function⟩ (← Json.needed ids? args)
    | _ => none
  | "return" =>
    match ← j.record? [.required "value"] with
    | [value] => return ret (← Json.needed NodeId.ofJson? value)
    | _ => none
  | "break" => do
    j.emptyRecord?
    return brk
  | _ => none

def ofJson? (j : Json) : Option (Node NodeId) := do
  let (tag, members) ← j.tagged? .direct nestingLimit "node" tags
  ofRecord? tag members

end LoopSafety.Node
