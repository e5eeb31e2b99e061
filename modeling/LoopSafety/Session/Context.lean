import LoopSafety.Bound.Basic
import LoopSafety.Config
import LoopSafety.Kernel.Basic
import LoopSafety.Scan

/-! What the analysis of one region accumulates: its targets, their symbolic bounds, the ranges
of its loops, and for each target whether a run-time check stays. -/
namespace LoopSafety

structure Context where
  config : Config := {}
  constants : Constants := ∅
  /-- Loops in the order of their occurrence. -/
  loops : List LoopId := []
  accesses : List Occurrence := []
  overflowChecks : List Occurrence := []
  loopBounds : Table LoopId Bound := ∅
  ranges : Table LoopId Span := ∅
  accessBounds : Table NodeId (List Bound) := ∅
  overflowBounds : Table NodeId Bound := ∅
  /-- For every dimension of an access, whether its check stays. -/
  accessVerdicts : Table NodeId (List Bool) := ∅
  overflowVerdicts : Table NodeId Bool := ∅
  scans : ScanCache := {}
  /-- The least index found so far, at most zero. -/
  minimum : Int64 := 0

namespace Occurrence

def loop? (o : Occurrence) : Option LoopId :=
  match o.term.node with
  | .forLoop loop _ => some loop
  | _ => none

def isAccess (o : Occurrence) : Bool :=
  match o.term.node with
  | .access .. => true
  | _ => false

/-- Integer operations whose result may leave the range of its type. -/
def mayOverflow (o : Occurrence) : Bool :=
  match o.term.node with
  | .binary op _ _ ty => op.isArithmetic && (ty == .int || ty == .long)
  | _ => false

end Occurrence

namespace Context

/-- Add all loops, accesses and overflowing operations of a region. -/
def register (root : Term) (ctx : Context) : Context :=
  let all := root.occurrences []
  { ctx with
    loops := ctx.loops ++ all.filterMap Occurrence.loop?
    accesses := ctx.accesses ++ all.filter Occurrence.isAccess
    overflowChecks := ctx.overflowChecks ++ all.filter Occurrence.mayOverflow }

def addAccess (target : Occurrence) (ctx : Context) : Context :=
  { ctx with accesses := ctx.accesses ++ [target] }

def addOverflowCheck (target : Occurrence) (ctx : Context) : Context :=
  { ctx with overflowChecks := ctx.overflowChecks ++ [target] }

def setConstant (name : String) (value : Int64) (ctx : Context) : Context :=
  { ctx with constants := ctx.constants.insert name value }

/-- Forget everything derived; settings, constants and targets stay. -/
def reset (ctx : Context) : Context :=
  { config := ctx.config
    constants := ctx.constants
    loops := ctx.loops
    accesses := ctx.accesses
    overflowChecks := ctx.overflowChecks }

/-- The range of a loop, if it is known from the start or has been resolved. -/
def resolvedRange (p : Program) (ctx : Context) (loop : LoopId) : Option Span :=
  ((p.loop? loop).bind LoopInfo.simpleSpan?).or (ctx.ranges.get? loop)

/-- Whether a target still needs a run-time check; an access if any of its dimensions does. -/
def requiresCheck (ctx : Context) (node : NodeId) : Option Bool :=
  match ctx.accessVerdicts.get? node with
  | some dims => some (dims.any id)
  | none => ctx.overflowVerdicts.get? node

end Context

end LoopSafety
