import LoopSafety.Program.Basic

/-! Resolving a node table to syntax trees. Parts come before the constructs they belong to, so
one pass suffices, and a table that passes has no cycles. -/
namespace LoopSafety.Program

/-- The tree at a position, for a construct of the given owner's text. A position past the trees
built so far is a forward reference, one past the whole table dangles. -/
def resolveId (terms : Array Term) (total : Nat) (owner : String) (id : NodeId) :
    Except Error Term :=
  match terms[id.toNat]? with
  | some t => .ok t
  | none =>
    if id.toNat < total then .error (.unsupported owner (.forwardReference id))
    else .error (.unsupported owner (.dangling (.node id)))

/-- Check a handle that a construct names. -/
def checkHandle (p : Program) (owner : String) (handle : Option Handle) : Except Error Unit :=
  match handle with
  | none => .ok ()
  | some h => if p.inTable h then .ok () else .error (.unsupported owner (.dangling h))

/-- Resolve the next construct of a table of the given length and append its tree. -/
def resolveNode (total : Nat) (p : Program) (node : Node NodeId) : Except Error Program := do
  let id := NodeId.ofNat p.terms.size
  let resolved ← node.mapM (resolveId p.terms total id.text)
  p.checkHandle id.text node.handle?
  return { p with terms := p.terms.push ⟨id, resolved⟩ }

/-- The node parts of a loop's range. -/
def rangeParts : LoopRange → List NodeId
  | .simple _ => []
  | .symbolic start stop step _ => start.toList ++ stop.toList ++ step.toList

def checkNode (p : Program) (owner : String) (id : NodeId) : Except Error Unit :=
  p.checkHandle owner (some (.node id))

/-- The program of the given tables: all nodes resolve, then every loop part and every function's
result is a node. -/
def ofTables (nodes : List (Node NodeId)) (loops : List LoopInfo) (arrays : List Binding)
    (functions : List FunctionDef) : Except Error Program := do
  let tables : Program :=
    { loops := loops.toArray, arrays := arrays.toArray, functions := functions.toArray }
  let p ← nodes.foldlM (resolveNode nodes.length) tables
  (p.loopIds.zip loops).forM fun (id, info) => (rangeParts info.range).forM (p.checkNode id.text)
  functions.forM fun f => p.checkNode f.name f.ret
  return p

end LoopSafety.Program
