import LoopSafety.Node.Basic

/-! Syntax trees: the constructs of a kernel with their numbers. -/
namespace LoopSafety

inductive Term where
  | mk (id : NodeId) (node : Node Term)

namespace Term

def id : Term → NodeId
  | mk id _ => id

def node : Term → Node Term
  | mk _ node => node

def children (t : Term) : List Term := t.node.children

def kind (t : Term) : String := t.node.kind

/-- The construct with numbers in place of its parts. -/
def flat (t : Term) : Node NodeId := t.node.map id

def isForLoop (t : Term) : Bool :=
  match t.node with
  | .forLoop .. => true
  | _ => false

end Term

/-- A construct inside a region with the loops around it, outermost first. -/
structure Occurrence where
  term : Term
  loops : List LoopId

namespace Term

mutual

/-- All constructs of a tree in evaluation order, each before its parts. -/
def occurrences (loops : List LoopId) : Term → List Occurrence
  | mk id node => ⟨mk id node, loops⟩ :: nodeOccurrences loops node

def nodeOccurrences (loops : List LoopId) : Node Term → List Occurrence
  | .literal _ | .var .. | .brk => []
  | .binary _ left right _ => left.occurrences loops ++ right.occurrences loops
  | .unary _ operand _ => operand.occurrences loops
  | .access _ indices => listOccurrences loops indices
  | .builtin _ args _ | .math _ args _ | .call _ args => listOccurrences loops args
  | .cond condition thenPart none _ =>
    condition.occurrences loops ++ thenPart.occurrences loops
  | .cond condition thenPart (some elsePart) _ =>
    condition.occurrences loops ++ thenPart.occurrences loops ++ elsePart.occurrences loops
  | .forLoop loop body => body.occurrences (loops ++ [loop])
  | .whileLoop condition body => condition.occurrences loops ++ body.occurrences loops
  | .block statements => listOccurrences loops statements
  | .assign target value => target.occurrences loops ++ value.occurrences loops
  | .ret value => value.occurrences loops

def listOccurrences (loops : List LoopId) : List Term → List Occurrence
  | [] => []
  | t :: ts => t.occurrences loops ++ listOccurrences loops ts

end

end Term

end LoopSafety
