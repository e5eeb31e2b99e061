import LoopSafety.Program.Resolve

/-! Growing a program construct by construct, with the types of operations computed from their
operands. -/
namespace LoopSafety.Program

/-- Append a construct whose parts are already there; its own table entries may come later. -/
def push (p : Program) (node : Node NodeId) : Except Error (Program × Term) := do
  let id := NodeId.ofNat p.terms.size
  let resolved ← node.mapM p.term
  let t := Term.mk id resolved
  return ({ p with terms := p.terms.push t }, t)

def addLoop (p : Program) (info : LoopInfo) : Program × LoopId :=
  ({ p with loops := p.loops.push info }, LoopId.ofNat p.loops.size)

/-- Append an array; contents given with it are a storage of their own. -/
def addArray (p : Program) (name : String) (shape : ArrayShape) (values : Option (List Int64))
    (readOnly : Bool) : Program × ArrayId :=
  let storage := values.map (Storage.mk p.arrays.size)
  let binding : Binding := { name, shape, storage, readOnly }
  ({ p with arrays := p.arrays.push binding }, ArrayId.ofNat p.arrays.size)

def addFunction (p : Program) (f : FunctionDef) : Program × FunctionId :=
  ({ p with functions := p.functions.push f }, FunctionId.ofNat p.functions.size)

/-- The common type of two constructs. -/
def widened (p : Program) (a b : NodeId) : Except Error DataType := do
  return (p.typeOf (← p.term a)).widen (p.typeOf (← p.term b))

def binary (p : Program) (op : BinaryOp) (left right : NodeId) : Except Error (Program × Term) := do
  p.push (.binary op left right (← p.widened left right))

def builtin (p : Program) (kind : Builtin) (left right : NodeId) :
    Except Error (Program × Term) := do
  p.push (.builtin kind [left, right] (← p.widened left right))

/-- A conditional; without an else part it has no value. -/
def conditional (p : Program) (condition thenPart : NodeId) (elsePart : Option NodeId) :
    Except Error (Program × Term) := do
  let ty ← match elsePart with
    | some e => p.widened thenPart e
    | none => pure .none
  p.push (.cond condition thenPart elsePart ty)

/-- A loop over a new entry of the loop table. -/
def forLoop (p : Program) (info : LoopInfo) (body : NodeId) : Except Error (Program × Term) :=
  let (p, loop) := p.addLoop info
  p.push (.forLoop loop body)

end LoopSafety.Program
