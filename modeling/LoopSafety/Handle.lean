/-! Numbers by which the parts of a program refer to each other: positions in its tables. -/
namespace LoopSafety

structure NodeId where
  index : UInt32
  deriving DecidableEq, Repr

structure LoopId where
  index : UInt32
  deriving DecidableEq, Repr

structure ArrayId where
  index : UInt32
  deriving DecidableEq, Repr

structure FunctionId where
  index : UInt32
  deriving DecidableEq, Repr

namespace NodeId
def toNat (id : NodeId) : Nat := id.index.toNat
def ofNat (n : Nat) : NodeId := ⟨UInt32.ofNat n⟩
def text (id : NodeId) : String := "n" ++ toString id.index
end NodeId

namespace LoopId
def toNat (id : LoopId) : Nat := id.index.toNat
def ofNat (n : Nat) : LoopId := ⟨UInt32.ofNat n⟩
def text (id : LoopId) : String := "L" ++ toString id.index
end LoopId

namespace ArrayId
def toNat (id : ArrayId) : Nat := id.index.toNat
def ofNat (n : Nat) : ArrayId := ⟨UInt32.ofNat n⟩
def text (id : ArrayId) : String := toString id.index
end ArrayId

namespace FunctionId
def toNat (id : FunctionId) : Nat := id.index.toNat
def ofNat (n : Nat) : FunctionId := ⟨UInt32.ofNat n⟩
def text (id : FunctionId) : String := toString id.index
end FunctionId

/-- A reference into one of the tables. -/
inductive Handle where
  | node (id : NodeId)
  | loop (id : LoopId)
  | array (id : ArrayId)
  | function (id : FunctionId)
  deriving DecidableEq, Repr

def Handle.text : Handle → String
  | node id => "node handle " ++ id.text
  | loop id => "loop " ++ id.text
  | array id => "array " ++ id.text
  | function id => "function " ++ id.text

end LoopSafety
