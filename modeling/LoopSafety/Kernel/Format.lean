import LoopSafety.Json.Parser
import LoopSafety.Kernel.Basic
import LoopSafety.Node.Format

/-! The file format of kernels. -/
namespace LoopSafety

def Param.toJson (p : Param) : Json :=
  .obj [("name", .str p.name), ("ty", Node.typeJson p.ty)]

def Param.ofJson? (j : Json) : Option Param := do
  match ← j.record? [.required "name", .required "ty"] with
  | [name, ty] =>
    let ty ← Json.needed (Json.named? .direct DataType.ofName?) ty
    return ⟨← Json.needed Json.string? name, ty⟩
  | _ => none

def FunctionDef.toJson (f : FunctionDef) : Json :=
  .obj [("name", .str f.name), ("params", .arr (f.params.map Param.toJson)),
    ("ret", f.ret.toJson), ("ret_ty", Node.typeJson f.retTy)]

def FunctionDef.ofJson? (j : Json) : Option FunctionDef := do
  match ← j.record? [.required "name", .required "params", .required "ret", .required "ret_ty"] with
  | [name, params, ret, retTy] =>
    return {
      name := ← Json.needed Json.string? name
      params := ← Json.needed (Json.list? Param.ofJson?) params
      ret := ← Json.needed NodeId.ofJson? ret
      retTy := ← Json.needed (Json.named? .direct DataType.ofName?) retTy }
  | _ => none

def ArrayDecl.wordsJson (words : List Int64) : Json := .arr (words.map fun n => .int n.toInt)

def ArrayDecl.toJson (decl : ArrayDecl) : Json :=
  .obj [("name", .str decl.name), ("ty", Node.typeJson decl.ty), ("dims", wordsJson decl.dims),
    ("values", decl.values.elim .null wordsJson), ("read_only", .bool decl.readOnly),
    ("alias_of", decl.aliasOf.elim .null .str)]

def ArrayDecl.ofJson? (j : Json) : Option ArrayDecl := do
  match ← j.record? [.required "name", .required "ty", .required "dims", .defaulted "values",
      .defaulted "read_only", .defaulted "alias_of"] with
  | [name, ty, dims, values, readOnly, aliasOf] =>
    return {
      name := ← Json.needed Json.string? name
      ty := ← Json.needed (Json.named? .direct DataType.ofName?) ty
      dims := ← Json.needed (Json.list? Json.int64?) dims
      values := ← Json.maybe (Json.list? Json.int64?) values
      readOnly := ← Json.orElse false Json.bool? readOnly
      aliasOf := ← Json.maybe Json.string? aliasOf }
  | _ => none

def ConstantDecl.toJson (decl : ConstantDecl) : Json :=
  .obj [("name", .str decl.name), ("value", decl.value.toJson), ("ty", Node.typeJson decl.ty)]

def ConstantDecl.ofJson? (j : Json) : Option ConstantDecl := do
  match ← j.record? [.required "name", .required "value", .required "ty"] with
  | [name, value, ty] =>
    return {
      name := ← Json.needed Json.string? name
      value := ← Json.needed Value.ofJson? value
      ty := ← Json.needed (Json.named? .direct DataType.ofName?) ty }
  | _ => none

namespace KernelFile

def constantsJson (constants : Constants) : Json :=
  .obj (constants.entries.map fun entry => (entry.1, .int entry.2.toInt))

/-- Values by name; the last of a repeated name counts. -/
def constants? (j : Json) : Option Constants := (j.dictionary? Json.int64?).map Table.ofList

def toJson (file : KernelFile) : Json :=
  .obj [("arrays", .arr (file.arrays.map ArrayDecl.toJson)),
    ("nodes", .arr (file.nodes.map Node.toJson)), ("loops", .arr (file.loops.map LoopInfo.toJson)),
    ("functions", .arr (file.functions.map FunctionDef.toJson)),
    ("regions", Node.idsJson file.regions),
    ("constants", .arr (file.constants.map ConstantDecl.toJson)),
    ("instantiations", .arr (file.instantiations.map constantsJson))]

def ofJson? (j : Json) : Option KernelFile := do
  match ← j.record? [.defaulted "arrays", .required "nodes", .defaulted "loops",
      .defaulted "functions", .required "regions", .defaulted "constants",
      .defaulted "instantiations"] with
  | [arrays, nodes, loops, functions, regions, constants, instantiations] =>
    return {
      arrays := ← Json.orElse [] (Json.list? ArrayDecl.ofJson?) arrays
      nodes := ← Json.needed (Json.list? Node.ofJson?) nodes
      loops := ← Json.orElse [] (Json.list? LoopInfo.ofJson?) loops
      functions := ← Json.orElse [] (Json.list? FunctionDef.ofJson?) functions
      regions := ← Json.needed (Json.list? NodeId.ofJson?) regions
      constants := ← Json.orElse [] (Json.list? ConstantDecl.ofJson?) constants
      instantiations := ← Json.orElse [] (Json.list? constants?) instantiations }
  | _ => none

end KernelFile

namespace Kernel

/-- Decode and check a kernel. -/
def ofJson (j : Json) : Except Error Kernel :=
  match KernelFile.ofJson? j with
  | some file => file.toKernel
  | none => .error .malformed

def ofText (text : String) : Except Error Kernel :=
  match Json.parse? text with
  | some j => ofJson j
  | none => .error .malformed

end Kernel

end LoopSafety
