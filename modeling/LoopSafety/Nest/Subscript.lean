import LoopSafety.Nest.Basic

/-! The subscript test: a conservative answer from the statements of a nest alone.

A loop is independent if its body has no calls or breaks, reads no scalar that an earlier iteration
may have left behind, and reaches every written array only through one tuple of indices that holds
the loop variable. -/
namespace LoopSafety.Nest

/-- What a statement does to scalars and array cells, in order. A conditional effect need not
happen in every iteration. -/
inductive Effect where
  | scalar (name : String) (write conditional : Bool)
  | cell (array : String) (indices : List Expr) (write : Bool) (label : String)
  | unknown

namespace Expr

mutual

/-- The reads of an expression inside a labelled statement. -/
def effects (conditional : Bool) (label : String) : Expr → List Effect
  | var name => [.scalar name false conditional]
  | literal _ => []
  | binary _ lhs rhs => lhs.effects conditional label ++ rhs.effects conditional label
  | unary _ operand => operand.effects conditional label
  | subscript array indices =>
    effectsOf conditional label indices ++ [.cell array indices false label]
  | ternary c t e =>
    c.effects conditional label ++ t.effects conditional label ++ e.effects conditional label
  | intrinsic _ args => effectsOf conditional label args
  | call _ args => .unknown :: effectsOf conditional label args

def effectsOf (conditional : Bool) (label : String) : List Expr → List Effect
  | [] => []
  | e :: es => e.effects conditional label ++ effectsOf conditional label es

end

/-- The effects of assigning to a target. -/
def targetEffects (conditional : Bool) (label : String) : Expr → List Effect
  | var name => [.scalar name true conditional]
  | subscript array indices =>
    effectsOf conditional label indices ++ [.cell array indices true label]
  | other => other.effects conditional label

end Expr

/-- The reads of a loop's range and the write of its variable. -/
def LoopHead.effects (conditional : Bool) (head : LoopHead) : List Effect :=
  head.start.effects conditional head.label ++ head.stop.effects conditional head.label
    ++ head.step.effects conditional head.label ++ [.scalar head.induction true conditional]

namespace Stmt

mutual

def effects (conditional : Bool) : Stmt → List Effect
  | assign label target value =>
    value.effects conditional label ++ target.targetEffects conditional label
  | expr label e => e.effects conditional label
  | cond label condition thenPart elsePart =>
    condition.effects conditional label ++ effectsOf true thenPart ++ effectsOf true elsePart
  | loop head body => head.effects conditional ++ effectsOf true body
  | brk _ => [.unknown]

def effectsOf (conditional : Bool) : List Stmt → List Effect
  | [] => []
  | s :: ss => s.effects conditional ++ effectsOf conditional ss

end

end Stmt

namespace Effect

def isUnknown : Effect → Bool
  | unknown => true
  | _ => false

/-- The scalar that an effect writes. -/
def written? : Effect → Option String
  | scalar name true _ => some name
  | _ => none

/-- Whether an effect on a scalar settles if it is carried: a read, or a write that always
happens. -/
def settles (name : String) : Effect → Bool
  | scalar n write conditional => n == name && (!write || !conditional)
  | _ => false

def isRead : Effect → Bool
  | scalar _ write _ => !write
  | cell _ _ write _ => !write
  | unknown => false

/-- The array cell of an effect. -/
def array? : Effect → Option String
  | cell array .. => some array
  | _ => none

def indices : Effect → List Expr
  | cell _ indices _ _ => indices
  | _ => []

def label : Effect → String
  | cell _ _ _ label => label
  | _ => ""

end Effect

namespace Loop

/-- The effects of one iteration. -/
def effects (l : Loop) : List Effect := Stmt.effectsOf false l.body

/-- A scalar is carried if the first effect that settles it is a read. -/
def carries (effects : List Effect) (name : String) : Bool :=
  (effects.find? (·.settles name)).any Effect.isRead

/-- The effects on one array. -/
def cells (effects : List Effect) (array : String) : List Effect :=
  effects.filter (·.array? == some array)

/-- Whether all effects on an array use one tuple of indices that holds the loop variable. -/
def separates (induction : String) (cells : List Effect) : Bool :=
  match cells with
  | [] => true
  | first :: _ =>
    cells.all (fun c => decide (c.indices = first.indices)) &&
      first.indices.any fun i => decide (i = .var induction)

/-- The arrays written with effects that may meet in two iterations. -/
def conflicts (l : Loop) : List (List Effect) :=
  let effects := l.effects
  let arrays := (effects.filterMap Effect.array?).eraseDups
  (arrays.map (cells effects)).filter fun cs =>
    cs.any (!·.isRead) && !separates l.head.induction cs

def isIndependent (l : Loop) : Bool :=
  let effects := l.effects
  !effects.any Effect.isUnknown
    && (effects.filterMap Effect.written?).all (fun name => !carries effects name)
    && l.conflicts.isEmpty

/-- Every write of a conflicting array may reach every read of it. -/
def flows (l : Loop) : List (String × String) :=
  l.conflicts.flatMap fun cs =>
    (cs.filter (!·.isRead)).flatMap fun w =>
      (cs.filter Effect.isRead).map fun r => (w.label, r.label)

end Loop

/-- Pairs of texts in ascending order, without repeats. -/
def sortedPairs (pairs : List (String × String)) : List (String × String) :=
  (pairs.mergeSort fun a b => a.1 < b.1 || (a.1 == b.1 && a.2 ≤ b.2)).eraseDups

/-- The subscript test of every loop of a nest. -/
def subscriptTest (n : Nest) : DependenceResult where
  independent := sortedSet ((n.loops.filter Loop.isIndependent).map (·.head.label))
  flows := sortedPairs (n.loops.flatMap Loop.flows)

end LoopSafety.Nest
