import Mathlib.Tactic.Common
import LoopSafety.Nest.Basic

/-! What the statements of a nest do when they run.

A run leaves a trace of the scalars and array cells that it reads and writes. Which branch is taken,
how often a loop repeats and what a called function does are left open, and so is the meaning of the
operators, so the runs of a real machine are among these. -/
namespace LoopSafety.Nest

/-- The contents of scalars and of array cells. -/
structure Memory (α : Type) where
  scalars : String → α
  cells : String → List α → α

namespace Memory

variable {α : Type}

def setScalar (s : Memory α) (name : String) (v : α) : Memory α :=
  { s with scalars := fun n => if n = name then v else s.scalars n }

open Classical in
noncomputable def setCell (s : Memory α) (array : String) (indices : List α) (v : α) : Memory α :=
  { s with cells := fun a is => if a = array ∧ is = indices then v else s.cells a is }

@[simp] lemma setScalar_scalars (s : Memory α) (name n : String) (v : α) :
    (s.setScalar name v).scalars n = if n = name then v else s.scalars n := rfl

end Memory

/-- One access of a run. -/
inductive Event (α : Type) where
  | scalar (name : String) (write : Bool)
  | cell (array : String) (indices : List α) (write : Bool)

/-- The values of literals, operators and intrinsic functions. -/
structure Meaning (α : Type) where
  literal : Int64 → α
  binary : BinaryOp → α → α → α
  unary : UnaryOp → α → α
  intrinsic : String → List α → α

variable {α : Type}

mutual

/-- Evaluation from one memory to another, with a value and a trace. Only calls change memory: they
may access anything and leave anything behind. -/
inductive Eval (M : Meaning α) : Memory α → Expr → α → List (Event α) → Memory α → Prop
  | var (s x) : Eval M s (.var x) (s.scalars x) [.scalar x false] s
  | literal (s n) : Eval M s (.literal n) (M.literal n) [] s
  | binary {s s₁ s₂ op lhs rhs a b t₁ t₂} (first : Eval M s lhs a t₁ s₁)
      (second : Eval M s₁ rhs b t₂ s₂) :
      Eval M s (.binary op lhs rhs) (M.binary op a b) (t₁ ++ t₂) s₂
  /-- A logical operator may be settled by its first operand. -/
  | settled {s s₁ op lhs rhs a t} (logical : op = .logicalAnd ∨ op = .logicalOr)
      (first : Eval M s lhs a t s₁) : Eval M s (.binary op lhs rhs) a t s₁
  | unary {s s₁ op e a t} (operand : Eval M s e a t s₁) :
      Eval M s (.unary op e) (M.unary op a) t s₁
  | subscript {s s₁ array indices vs t} (place : EvalList M s indices vs t s₁) :
      Eval M s (.subscript array indices) (s₁.cells array vs) (t ++ [.cell array vs false]) s₁
  | ternaryThen {s s₁ s₂ c t e a b tr₁ tr₂} (condition : Eval M s c a tr₁ s₁)
      (taken : Eval M s₁ t b tr₂ s₂) : Eval M s (.ternary c t e) b (tr₁ ++ tr₂) s₂
  | ternaryElse {s s₁ s₂ c t e a b tr₁ tr₂} (condition : Eval M s c a tr₁ s₁)
      (taken : Eval M s₁ e b tr₂ s₂) : Eval M s (.ternary c t e) b (tr₁ ++ tr₂) s₂
  | intrinsic {s s₁ name args vs t} (operands : EvalList M s args vs t s₁) :
      Eval M s (.intrinsic name args) (M.intrinsic name vs) t s₁
  | call {s s₁ s₂ name args vs t inside v} (operands : EvalList M s args vs t s₁) :
      Eval M s (.call name args) v (t ++ inside) s₂

inductive EvalList (M : Meaning α) :
    Memory α → List Expr → List α → List (Event α) → Memory α → Prop
  | nil (s) : EvalList M s [] [] [] s
  | cons {s s₁ s₂ e es v vs t₁ t₂} (head : Eval M s e v t₁ s₁) (tail : EvalList M s₁ es vs t₂ s₂) :
      EvalList M s (e :: es) (v :: vs) (t₁ ++ t₂) s₂

end

/-- How statements end: at their end, or at a break. -/
inductive Exit where
  | normal | broken

mutual

/-- The runs of a statement. An assignment to something other than a scalar or an array cell only
evaluates it. -/
inductive Exec (M : Meaning α) : Memory α → Stmt → List (Event α) → Memory α → Exit → Prop
  | assignScalar {s s₁ label x value v t} (evaluated : Eval M s value v t s₁) :
      Exec M s (.assign label (.var x) value) (t ++ [.scalar x true]) (s₁.setScalar x v) .normal
  | assignCell {s s₁ s₂ label array indices value v vs t₁ t₂} (evaluated : Eval M s value v t₁ s₁)
      (place : EvalList M s₁ indices vs t₂ s₂) :
      Exec M s (.assign label (.subscript array indices) value)
        (t₁ ++ t₂ ++ [.cell array vs true]) (s₂.setCell array vs v) .normal
  | assignOther {s s₁ s₂ label target value v w t₁ t₂} (notScalar : ∀ x, target ≠ .var x)
      (notCell : ∀ array indices, target ≠ .subscript array indices)
      (evaluated : Eval M s value v t₁ s₁) (place : Eval M s₁ target w t₂ s₂) :
      Exec M s (.assign label target value) (t₁ ++ t₂) s₂ .normal
  | expr {s s₁ label e v t} (evaluated : Eval M s e v t s₁) :
      Exec M s (.expr label e) t s₁ .normal
  | condThen {s s₁ s₂ label c thenPart elsePart v t₁ t₂ exit} (condition : Eval M s c v t₁ s₁)
      (taken : ExecList M s₁ thenPart t₂ s₂ exit) :
      Exec M s (.cond label c thenPart elsePart) (t₁ ++ t₂) s₂ exit
  | condElse {s s₁ s₂ label c thenPart elsePart v t₁ t₂ exit} (condition : Eval M s c v t₁ s₁)
      (taken : ExecList M s₁ elsePart t₂ s₂ exit) :
      Exec M s (.cond label c thenPart elsePart) (t₁ ++ t₂) s₂ exit
  | loop {s s₁ s₂ s₃ s₄} {head : LoopHead} {body a b c v t₁ t₂ t₃ t₄}
      (start : Eval M s head.start a t₁ s₁) (stop : Eval M s₁ head.stop b t₂ s₂)
      (step : Eval M s₂ head.step c t₃ s₃)
      (trips : Trips M (s₃.setScalar head.induction v) head.induction body t₄ s₄) :
      Exec M s (.loop head body) (t₁ ++ t₂ ++ t₃ ++ [.scalar head.induction true] ++ t₄) s₄ .normal
  | brk (s label) : Exec M s (.brk label) [] s .broken

inductive ExecList (M : Meaning α) : Memory α → List Stmt → List (Event α) → Memory α → Exit → Prop
  | nil (s) : ExecList M s [] [] s .normal
  | cons {s s₁ s₂ stmt stmts t₁ t₂ exit} (first : Exec M s stmt t₁ s₁ .normal)
      (rest : ExecList M s₁ stmts t₂ s₂ exit) : ExecList M s (stmt :: stmts) (t₁ ++ t₂) s₂ exit
  | stop {s s₁ stmt stmts t} (first : Exec M s stmt t s₁ .broken) :
      ExecList M s (stmt :: stmts) t s₁ .broken

/-- Any number of iterations of a body. Its variable gets a new value before each further one. -/
inductive Trips (M : Meaning α) :
    Memory α → String → List Stmt → List (Event α) → Memory α → Prop
  | done (s x body) : Trips M s x body [] s
  | next {s s₁ s₂ x body v t₁ t₂} (trip : ExecList M s body t₁ s₁ .normal)
      (rest : Trips M (s₁.setScalar x v) x body t₂ s₂) :
      Trips M s x body (t₁ ++ [.scalar x true] ++ t₂) s₂
  | broken {s s₁ x body t} (trip : ExecList M s body t s₁ .broken) : Trips M s x body t s₁

end

/-- A trace reads or writes a cell. -/
def Touches (trace : List (Event α)) (array : String) (indices : List α) : Prop :=
  ∃ write, Event.cell array indices write ∈ trace

/-! Integers on which every binary operator adds, and memories of zeros: enough for runs of given
statements. -/

def Meaning.adding : Meaning Int where
  literal := Int64.toInt
  binary _ a b := a + b
  unary _ a := a
  intrinsic _ _ := 0

def Memory.blank : Memory Int := ⟨fun _ => 0, fun _ _ => 0⟩

/-- Where an iteration of a loop over `i` begins. -/
def Memory.iteration (i : Int) : Memory Int := Memory.blank.setScalar "i" i

end LoopSafety.Nest
