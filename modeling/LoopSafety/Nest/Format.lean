import LoopSafety.Json.Decode
import LoopSafety.Nest.Basic

/-! The text format in which a nest is put to an oracle and an answer comes back. -/
namespace LoopSafety.Nest

open Json (Source)

namespace Expr

mutual

def toJson : Expr → Json
  | var name => .obj [("kind", .str "var"), ("name", .str name)]
  | literal value => .obj [("kind", .str "literal"), ("value", .int value.toInt)]
  | binary op lhs rhs =>
    .obj [("kind", .str "binary"), ("op", .str op.name), ("lhs", lhs.toJson), ("rhs", rhs.toJson)]
  | unary op operand =>
    .obj [("kind", .str "unary"), ("op", .str op.name), ("operand", operand.toJson)]
  | subscript array indices =>
    .obj [("kind", .str "subscript"), ("array", .str array), ("indices", .arr (toJsonList indices))]
  | ternary c t e =>
    .obj [("kind", .str "ternary"), ("cond", c.toJson), ("then", t.toJson), ("orelse", e.toJson)]
  | intrinsic name args =>
    .obj [("kind", .str "intrinsic"), ("name", .str name), ("args", .arr (toJsonList args))]
  | call name args =>
    .obj [("kind", .str "call"), ("name", .str name), ("args", .arr (toJsonList args))]

def toJsonList : List Expr → List Json
  | [] => []
  | e :: es => e.toJson :: toJsonList es

end

def kinds : List String :=
  ["var", "literal", "binary", "unary", "subscript", "ternary", "intrinsic", "call"]

/-- The expression of a value with at most `limit` open containers. -/
def ofJson? (source : Source) : Nat → Json → Option Expr
  | 0, _ => none
  | limit + 1, j => do
    let inner := ofJson? .buffered limit
    match ← j.tagged? source (limit + 1) "kind" kinds with
    | ("var", j) =>
      match ← j.record? [.required "name"] with
      | [name] => return var (← Json.needed Json.string? name)
      | _ => none
    | ("literal", j) =>
      match ← j.record? [.required "value"] with
      | [value] => return literal (← Json.needed Json.int64? value)
      | _ => none
    | ("binary", j) =>
      match ← j.record? [.required "op", .required "lhs", .required "rhs"] with
      | [op, lhs, rhs] =>
        return binary (← Json.needed (Json.named? .buffered BinaryOp.ofName?) op)
          (← Json.needed inner lhs) (← Json.needed inner rhs)
      | _ => none
    | ("unary", j) =>
      match ← j.record? [.required "op", .required "operand"] with
      | [op, operand] =>
        return unary (← Json.needed (Json.named? .buffered UnaryOp.ofName?) op)
          (← Json.needed inner operand)
      | _ => none
    | ("subscript", j) =>
      match ← j.record? [.required "array", .required "indices"] with
      | [array, indices] =>
        return subscript (← Json.needed Json.string? array)
          (← Json.needed (Json.list? inner) indices)
      | _ => none
    | ("ternary", j) =>
      match ← j.record? [.required "cond", .required "then", .required "orelse"] with
      | [c, t, e] =>
        return ternary (← Json.needed inner c) (← Json.needed inner t) (← Json.needed inner e)
      | _ => none
    | (kind, j) =>
      match ← j.record? [.required "name", .required "args"] with
      | [name, args] =>
        let name ← Json.needed Json.string? name
        let args ← Json.needed (Json.list? inner) args
        return if kind == "intrinsic" then intrinsic name args else call name args
      | _ => none

end Expr

namespace LoopHead

def members (head : LoopHead) : List (String × Json) :=
  [("label", .str head.label), ("induction", .str head.induction), ("start", head.start.toJson),
   ("stop", head.stop.toJson), ("step", head.step.toJson)]

end LoopHead

namespace Stmt

mutual

def toJson : Stmt → Json
  | assign label target value =>
    .obj [("kind", .str "assign"), ("label", .str label), ("target", target.toJson),
      ("value", value.toJson)]
  | expr label e => .obj [("kind", .str "expr"), ("label", .str label), ("expr", e.toJson)]
  | cond label condition thenPart elsePart =>
    .obj [("kind", .str "if"), ("label", .str label), ("cond", condition.toJson),
      ("then", .arr (toJsonList thenPart)), ("orelse", .arr (toJsonList elsePart))]
  | loop head body =>
    .obj (("kind", .str "for") :: head.members ++ [("body", .arr (toJsonList body))])
  | brk label => .obj [("kind", .str "break"), ("label", .str label)]

def toJsonList : List Stmt → List Json
  | [] => []
  | s :: ss => s.toJson :: toJsonList ss

end

end Stmt

/-- A loop's members; the readers of its parts are given. -/
def Loop.ofRecord? (expr? : Json → Option Expr) (stmt? : Json → Option Stmt) (j : Json) :
    Option Loop := do
  match ← j.record? [.required "label", .required "induction", .required "start", .required "stop",
      .required "step", .required "body"] with
  | [label, induction, start, stop, step, body] =>
    return {
      head := {
        label := ← Json.needed Json.string? label
        induction := ← Json.needed Json.string? induction
        start := ← Json.needed expr? start
        stop := ← Json.needed expr? stop
        step := ← Json.needed expr? step }
      body := ← Json.needed (Json.list? stmt?) body }
  | _ => none

namespace Stmt

def kinds : List String := ["assign", "expr", "if", "for", "break"]

/-- The statement of a value with at most `limit` open containers. -/
def ofJson? (source : Source) : Nat → Json → Option Stmt
  | 0, _ => none
  | limit + 1, j => do
    let inner := ofJson? .buffered limit
    let expr? := Expr.ofJson? .buffered limit
    match ← j.tagged? source (limit + 1) "kind" kinds with
    | ("assign", j) =>
      match ← j.record? [.required "label", .required "target", .required "value"] with
      | [label, target, value] =>
        return assign (← Json.needed Json.string? label) (← Json.needed expr? target)
          (← Json.needed expr? value)
      | _ => none
    | ("expr", j) =>
      match ← j.record? [.required "label", .required "expr"] with
      | [label, e] => return expr (← Json.needed Json.string? label) (← Json.needed expr? e)
      | _ => none
    | ("if", j) =>
      match ← j.record? [.required "label", .required "cond", .required "then",
        .required "orelse"] with
      | [label, condition, thenPart, elsePart] =>
        return cond (← Json.needed Json.string? label) (← Json.needed expr? condition)
          (← Json.needed (Json.list? inner) thenPart) (← Json.needed (Json.list? inner) elsePart)
      | _ => none
    | ("for", j) =>
      let l ← Loop.ofRecord? expr? inner j
      return loop l.head l.body
    | (_, j) =>
      match ← j.record? [.required "label"] with
      | [label] => return brk (← Json.needed Json.string? label)
      | _ => none

end Stmt

end LoopSafety.Nest

namespace LoopSafety

namespace Nest

def Loop.toJson (l : Loop) : Json :=
  .obj (l.head.members ++ [("body", .arr (Stmt.toJsonList l.body))])

def toJson (n : Nest) : Json :=
  .obj [("root", n.root.toJson), ("locals", .arr (n.locals.map .str)),
    ("constants", .obj ((n.constants.entries.mergeSort fun a b => a.1 ≤ b.1).map
      fun (k, v) => (k, .int v.toInt)))]

/-- How many containers may be open inside an expression of the outermost loop. -/
def expressionLimit : Nat := 125

/-- How many containers may be open inside a statement of the outermost loop. -/
def statementLimit : Nat := 124

def ofJson? (j : Json) : Option Nest := do
  match ← j.record? [.required "root", .required "locals", .required "constants"] with
  | [root, locals, constants] =>
    return {
      root := ← Json.needed (Loop.ofRecord? (Expr.ofJson? .direct expressionLimit)
        (Stmt.ofJson? .direct statementLimit)) root
      locals := ← Json.needed (Json.list? Json.string?) locals
      constants := Table.ofList (← Json.needed (Json.dictionary? Json.int64?) constants) }
  | _ => none

end Nest

namespace DependenceResult

def pairJson (pair : String × String) : Json := .arr [.str pair.1, .str pair.2]

def toJson (r : DependenceResult) : Json :=
  .obj [("independent_loops", .arr (r.independent.map .str)),
    ("flow_dependences", .arr (r.flows.map pairJson))]

def pair? : Json → Option (String × String)
  | .arr [a, b] => do return (← a.string?, ← b.string?)
  | _ => none

def ofJson? (j : Json) : Option DependenceResult := do
  match ← j.record? [.required "independent_loops", .required "flow_dependences"] with
  | [independent, flows] =>
    return {
      independent := Nest.sortedSet (← Json.needed (Json.list? Json.string?) independent)
      flows := ← Json.needed (Json.list? pair?) flows }
  | _ => none

end DependenceResult

end LoopSafety
