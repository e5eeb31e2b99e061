import LoopSafety.Error
import LoopSafety.Saturating
import LoopSafety.Json.Basic

/-! Arrays: their shape, and the storage that two names may share. -/
namespace LoopSafety

/-- An array type and the extent of each dimension. -/
structure ArrayShape where
  ty : DataType
  dimensions : List Int64
  deriving DecidableEq, Repr

namespace ArrayShape

def maxDimensions : Nat := 10

/-- A type with a list of extents, as error texts show it. -/
def text (ty : DataType) (dimensions : List Int64) : String :=
  ty.text ++ "[" ++ String.intercalate ", " (dimensions.map toString) ++ "]"

/-- The shape of an array type with one to ten extents, none of them negative. -/
def make (ty : DataType) (dimensions : List Int64) : Except Error ArrayShape :=
  if !ty.isArray then .error (.typeMismatch .intArray ty)
  else if dimensions.isEmpty || maxDimensions < dimensions.length then
    .error (.unsupported (text ty dimensions) .arrayRank)
  else match dimensions.find? (· < 0) with
    | some extent => .error (.unsupported (text ty dimensions) (.negativeExtent extent))
    | none => .ok ⟨ty, dimensions⟩

def rank (s : ArrayShape) : Nat := s.dimensions.length

/-- Bytes of the whole array. -/
def bytes (s : ArrayShape) : Int64 := s.dimensions.foldl Saturating.mul s.ty.elementBytes

def toJson (s : ArrayShape) : Json :=
  .obj [("ty", .str s.ty.name), ("dimensions", .arr (s.dimensions.map fun d => .int d.toInt))]

end ArrayShape

/-- The contents of an array, under the number of the declaration that brought them in. Bindings
share storage exactly when the numbers agree. -/
structure Storage where
  identity : Nat
  values : List Int64
  deriving DecidableEq, Repr

/-- A name for an array. -/
structure Binding where
  name : String
  shape : ArrayShape
  storage : Option Storage
  readOnly : Bool
  deriving DecidableEq, Repr

namespace Binding

def identity? (b : Binding) : Option Nat := b.storage.map (·.identity)

/-- Contents may be scanned if nothing writes them through this name and one index reaches them. -/
def isScanEligible (b : Binding) : Bool :=
  b.readOnly && b.storage.isSome && b.shape.rank == 1 && b.shape.ty.isScannable

end Binding

end LoopSafety
