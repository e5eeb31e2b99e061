import LoopSafety.Table

/-! Directed graphs over labels, and the search for a cycle. -/
namespace LoopSafety

/-- Vertices are numbered in the order in which their labels appear. Three tables are kept side by
side: the number of each label, the label of each number, and the targets of each vertex's edges. -/
structure Digraph where
  index : Table String Nat := ∅
  labels : List String := []
  targets : List (List Nat) := []

namespace Digraph

/-- The number of a label, which becomes a new vertex if it is not one yet. -/
def addVertex (g : Digraph) (label : String) : Digraph × Nat :=
  match g.index.get? label with
  | some v => (g, v)
  | none =>
    let v := g.labels.length
    ({ index := g.index.insert label v
       labels := g.labels ++ [label]
       targets := g.targets ++ [[]] }, v)

/-- Put a number into an ascending list that may hold it already. -/
def enter (n : Nat) : List Nat → List Nat
  | [] => [n]
  | m :: ms => if n < m then n :: m :: ms else if n = m then m :: ms else m :: enter n ms

def addEdge (g : Digraph) (source target : String) : Digraph :=
  let (g, s) := g.addVertex source
  let (g, t) := g.addVertex target
  { g with targets := g.targets.modify s (enter t) }

def ofEdges (edges : List (String × String)) : Digraph :=
  edges.foldl (fun g e => g.addEdge e.1 e.2) {}

/-- The targets of a vertex's edges, in ascending order. -/
def successors (g : Digraph) (v : Nat) : List Nat := g.targets.getD v []

def hasEdge (g : Digraph) (source target : String) : Bool :=
  match g.index.get? source, g.index.get? target with
  | some s, some t => (g.successors s).contains t
  | _, _ => false

def vertexCount (g : Digraph) : Nat := g.labels.length
def edgeCount (g : Digraph) : Nat := (g.targets.map List.length).foldr (· + ·) 0

/-- Where a search stands: which vertices it has come to, which of them it has not left, and these
once more in the order in which it came to them. -/
structure Marks where
  visited : Array Bool
  onStack : Array Bool
  path : List Nat := []

namespace Marks

def clear (n : Nat) : Marks where
  visited := .replicate n false
  onStack := .replicate n false

def isVisited (m : Marks) (v : Nat) : Bool := m.visited.getD v false
def isOnStack (m : Marks) (v : Nat) : Bool := m.onStack.getD v false

def come (v : Nat) (m : Marks) : Marks where
  visited := m.visited.setIfInBounds v true
  onStack := m.onStack.setIfInBounds v true
  path := m.path ++ [v]

def leave (v : Nat) (m : Marks) : Marks :=
  { m with onStack := m.onStack.setIfInBounds v false, path := m.path.dropLast }

/-- The path from the place of a vertex on and back to it; a vertex that has no place counts as the
first. -/
def closing (m : Marks) (v : Nat) : List Nat :=
  m.path.drop ((m.path.findIdx? (· == v)).getD 0) ++ [v]

end Marks

/-- A search goes on with its marks or is stopped by a cycle. -/
abbrev Search := ExceptT (List Nat) (StateM Marks)

/-- Visit a vertex and, from it, those that have not been visited. A path never repeats a vertex, so
`depth` bounds its growth. -/
def visit (g : Digraph) : Nat → Nat → Search Unit
  | 0, _ => pure ()
  | depth + 1, v => do
    modify (Marks.come v)
    (g.successors v).forM fun next => do
      let m ← get
      if m.isOnStack next then throw (m.closing next)
      else if m.isVisited next then pure ()
      else visit g depth next
    modify (Marks.leave v)

/-- Search from every vertex in turn. -/
def search (g : Digraph) : Search Unit :=
  (List.range g.vertexCount).forM fun v => do
    if (← get).isVisited v then pure () else g.visit g.vertexCount v

/-- The labels along one cycle, the first repeated at the end. -/
def findCycle (g : Digraph) : Option (List String) :=
  match (g.search (Marks.clear g.vertexCount)).1 with
  | .error cycle => some (cycle.map fun v => g.labels.getD v "")
  | .ok () => none

def isCyclic (g : Digraph) : Bool := g.findCycle.isSome

end Digraph

end LoopSafety
