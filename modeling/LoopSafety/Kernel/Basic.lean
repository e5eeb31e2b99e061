import LoopSafety.Program.Resolve
import LoopSafety.Table

/-! Kernels: a program with the loops to analyse and the values of its constants. -/
namespace LoopSafety

structure ArrayDecl where
  name : String
  ty : DataType
  dims : List Int64
  values : Option (List Int64)
  readOnly : Bool
  aliasOf : Option String

structure ConstantDecl where
  name : String
  value : Value
  ty : DataType

/-- What a kernel file declares. -/
structure KernelFile where
  arrays : List ArrayDecl
  nodes : List (Node NodeId)
  loops : List LoopInfo
  functions : List FunctionDef
  regions : List NodeId
  constants : List ConstantDecl
  instantiations : List (Table String Int64)

abbrev Constants := Table String Int64

structure Kernel where
  program : Program
  regions : List NodeId
  constants : Constants
  instantiations : List Constants

namespace KernelFile

/-- Bind one more array. An alias takes shape and storage of the first binding of its target. -/
def bindArray (bindings : List Binding) (decl : ArrayDecl) : Except Error (List Binding) := do
  match decl.aliasOf with
  | some target =>
    match bindings.find? (·.name == target) with
    | some aliased =>
      return bindings ++ [{ aliased with name := decl.name, readOnly := decl.readOnly }]
    | none => throw (.unsupported decl.name (.undeclaredAlias target))
  | none =>
    let shape ← ArrayShape.make decl.ty decl.dims
    let storage := decl.values.map (Storage.mk bindings.length)
    return bindings ++ [{ name := decl.name, shape, storage, readOnly := decl.readOnly }]

def bindConstant (constants : Constants) (decl : ConstantDecl) : Except Error Constants := do
  let value ← decl.value.specialize decl.ty
  return constants.insert decl.name value.toInt64

def checkRegion (p : Program) (root : NodeId) : Except Error Unit :=
  if (p.term? root).any Term.isForLoop then .ok ()
  else .error (.unsupported ("region " ++ root.text) .regionNotLoop)

/-- The kernel of a file whose declarations are all in order: arrays, constants, nodes, loops,
functions, regions. -/
def toKernel (file : KernelFile) : Except Error Kernel := do
  let arrays ← file.arrays.foldlM bindArray []
  let constants ← file.constants.foldlM bindConstant ∅
  let program ← Program.ofTables file.nodes file.loops arrays file.functions
  file.regions.forM (checkRegion program)
  return { program, regions := file.regions, constants, instantiations := file.instantiations }

end KernelFile

end LoopSafety
