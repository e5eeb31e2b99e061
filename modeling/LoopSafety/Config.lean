import LoopSafety.Error
import LoopSafety.Json.Decode
import LoopSafety.Json.Parser

/-! Settings of the analysis. -/
namespace LoopSafety

structure Config where
  boundCheck : Bool := true
  scanMinMax : Bool := true
  scanUniqueness : Bool := false
  offloadThreshold : UInt64 := 1000
  retryLimit : UInt64 := 5
  concurrent : Bool := true
  checkDependencies : Bool := true
  branchFanout : UInt64 := 2
  deriving DecidableEq, Repr

namespace Config

def toJson (c : Config) : Json :=
  .obj [("bound_check", .bool c.boundCheck), ("scan_array_min_max", .bool c.scanMinMax),
    ("scan_array_uniqueness", .bool c.scanUniqueness),
    ("offload_threshold", .int c.offloadThreshold.toNat), ("retry_limit", .int c.retryLimit.toNat),
    ("concurrent", .bool c.concurrent), ("check_dependencies", .bool c.checkDependencies),
    ("branch_fanout", .int c.branchFanout.toNat)]

/-- Every setting may be left out. -/
def ofJson? (j : Json) : Option Config := do
  let d : Config := {}
  match ← j.record? [.defaulted "bound_check", .defaulted "scan_array_min_max",
      .defaulted "scan_array_uniqueness", .defaulted "offload_threshold", .defaulted "retry_limit",
      .defaulted "concurrent", .defaulted "check_dependencies", .defaulted "branch_fanout"] with
  | [boundCheck, scanMinMax, scanUniqueness, offloadThreshold, retryLimit, concurrent,
      checkDependencies, branchFanout] =>
    return {
      boundCheck := ← Json.orElse d.boundCheck Json.bool? boundCheck
      scanMinMax := ← Json.orElse d.scanMinMax Json.bool? scanMinMax
      scanUniqueness := ← Json.orElse d.scanUniqueness Json.bool? scanUniqueness
      offloadThreshold := ← Json.orElse d.offloadThreshold Json.uint64? offloadThreshold
      retryLimit := ← Json.orElse d.retryLimit Json.uint64? retryLimit
      concurrent := ← Json.orElse d.concurrent Json.bool? concurrent
      checkDependencies := ← Json.orElse d.checkDependencies Json.bool? checkDependencies
      branchFanout := ← Json.orElse d.branchFanout Json.uint64? branchFanout }
  | _ => none

def ofText (text : String) : Except Error Config :=
  match (Json.parse? text).bind ofJson? with
  | some c => .ok c
  | none => .error .malformed

end Config

end LoopSafety
