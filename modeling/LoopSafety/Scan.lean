import LoopSafety.ArrayShape
import LoopSafety.Table

/-! Bounds on the contents of arrays, kept per storage so that contents are read once. -/
namespace LoopSafety

/-- Whether all contents differ, if that has been asked. -/
inductive Uniqueness where
  | unknown | unique | repeated
  deriving DecidableEq, Repr

def Uniqueness.name : Uniqueness → String
  | unknown => "Unknown" | unique => "Unique" | repeated => "Repeated"

structure Contents where
  min : Int64
  max : Int64
  uniqueness : Uniqueness
  deriving DecidableEq, Repr

namespace Contents

/-- Two values that stand side by side are equal. -/
def hasEqualNeighbours : List Int64 → Bool
  | v :: w :: vs => v == w || hasEqualNeighbours (w :: vs)
  | _ => false

/-- Equal values stand side by side once the values are sorted. -/
def hasRepeats (values : List Int64) : Bool := hasEqualNeighbours values.mergeSort

/-- The extremes of the values and, on demand, whether they all differ; nothing is known of no
values. -/
def scan (checkUnique : Bool) : List Int64 → Option Contents
  | [] => none
  | v :: vs =>
    let uniqueness :=
      if checkUnique then (if hasRepeats (v :: vs) then .repeated else .unique) else .unknown
    some ⟨vs.foldl Min.min v, vs.foldl Max.max v, uniqueness⟩

end Contents

/-- What is known of each storage, and how often contents were read. -/
structure ScanCache where
  entries : Table Nat Contents := ∅
  scans : Nat := 0

namespace ScanCache

def get? (c : ScanCache) (b : Binding) : Option Contents := b.identity?.bind c.entries.get?

/-- A known entry answers unless uniqueness is asked for the first time. -/
def answers (checkUnique : Bool) (found : Contents) : Bool :=
  !checkUnique || found.uniqueness != .unknown

/-- The contents of a binding's storage, read only if the cache cannot answer. -/
def getOrScan (b : Binding) (checkUnique : Bool) (c : ScanCache) : Option Contents × ScanCache :=
  match b.storage with
  | none => (none, c)
  | some storage =>
    match (c.entries.get? storage.identity).filter (answers checkUnique) with
    | some found => (some found, c)
    | none =>
      match Contents.scan checkUnique storage.values with
      | none => (none, c)
      | some found =>
        (some found, { entries := c.entries.insert storage.identity found, scans := c.scans + 1 })

end ScanCache

end LoopSafety
