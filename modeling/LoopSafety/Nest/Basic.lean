import LoopSafety.Operator
import LoopSafety.Table

/-! Loop nests as a dependence oracle sees them: labelled statements over named scalars and
arrays. -/
namespace LoopSafety.Nest

inductive Expr where
  | var (name : String)
  | literal (value : Int64)
  | binary (op : BinaryOp) (lhs rhs : Expr)
  | unary (op : UnaryOp) (operand : Expr)
  | subscript (array : String) (indices : List Expr)
  | ternary (condition thenPart elsePart : Expr)
  | intrinsic (name : String) (args : List Expr)
  | call (name : String) (args : List Expr)

/-- What stands before the body of a loop. -/
structure LoopHead where
  label : String
  induction : String
  start : Expr
  stop : Expr
  step : Expr

inductive Stmt where
  | assign (label : String) (target value : Expr)
  | expr (label : String) (expr : Expr)
  | cond (label : String) (condition : Expr) (thenPart elsePart : List Stmt)
  | loop (head : LoopHead) (body : List Stmt)
  | brk (label : String)

structure Loop where
  head : LoopHead
  body : List Stmt

namespace Expr

mutual

def same : Expr → Expr → Bool
  | var a, var b => a == b
  | literal a, literal b => a == b
  | binary o a b, binary o' a' b' => o == o' && a.same a' && b.same b'
  | unary o a, unary o' a' => o == o' && a.same a'
  | subscript a is, subscript a' is' => a == a' && sameList is is'
  | ternary a b c, ternary a' b' c' => a.same a' && b.same b' && c.same c'
  | intrinsic n as, intrinsic n' as' => n == n' && sameList as as'
  | call n as, call n' as' => n == n' && sameList as as'
  | _, _ => false

def sameList : List Expr → List Expr → Bool
  | [], [] => true
  | a :: as, b :: bs => a.same b && sameList as bs
  | _, _ => false

end

mutual

theorem eq_of_same : ∀ {a b : Expr}, a.same b = true → a = b
  | var _, b, h => by cases b <;> simp_all [same]
  | literal _, b, h => by cases b <;> simp_all [same]
  | binary o l r, b, h => by
    cases b <;> simp only [same, Bool.and_eq_true, beq_iff_eq, Bool.false_eq_true] at h
    obtain ⟨⟨rfl, hl⟩, hr⟩ := h
    rw [eq_of_same hl, eq_of_same hr]
  | unary o e, b, h => by
    cases b <;> simp only [same, Bool.and_eq_true, beq_iff_eq, Bool.false_eq_true] at h
    obtain ⟨rfl, he⟩ := h
    rw [eq_of_same he]
  | subscript a is, b, h => by
    cases b <;> simp only [same, Bool.and_eq_true, beq_iff_eq, Bool.false_eq_true] at h
    obtain ⟨rfl, hi⟩ := h
    rw [eq_of_sameList hi]
  | ternary c t e, b, h => by
    cases b <;> simp only [same, Bool.and_eq_true, Bool.false_eq_true] at h
    obtain ⟨⟨hc, ht⟩, he⟩ := h
    rw [eq_of_same hc, eq_of_same ht, eq_of_same he]
  | intrinsic n as, b, h => by
    cases b <;> simp only [same, Bool.and_eq_true, beq_iff_eq, Bool.false_eq_true] at h
    obtain ⟨rfl, ha⟩ := h
    rw [eq_of_sameList ha]
  | call n as, b, h => by
    cases b <;> simp only [same, Bool.and_eq_true, beq_iff_eq, Bool.false_eq_true] at h
    obtain ⟨rfl, ha⟩ := h
    rw [eq_of_sameList ha]

theorem eq_of_sameList : ∀ {as bs : List Expr}, sameList as bs = true → as = bs
  | [], bs, h => by cases bs <;> simp_all [sameList]
  | a :: as, bs, h => by
    cases bs with
    | nil => simp [sameList] at h
    | cons b bs =>
      simp only [sameList, Bool.and_eq_true] at h
      rw [eq_of_same h.1, eq_of_sameList h.2]

end

mutual

theorem same_refl : ∀ a : Expr, a.same a = true
  | var _ | literal _ => by simp [same]
  | binary o l r => by simp [same, same_refl l, same_refl r]
  | unary o e => by simp [same, same_refl e]
  | subscript a is => by simp [same, sameList_refl is]
  | ternary c t e => by simp [same, same_refl c, same_refl t, same_refl e]
  | intrinsic n as => by simp [same, sameList_refl as]
  | call n as => by simp [same, sameList_refl as]

theorem sameList_refl : ∀ as : List Expr, sameList as as = true
  | [] => rfl
  | a :: as => by simp [sameList, same_refl a, sameList_refl as]

end

instance : DecidableEq Expr := fun a b =>
  decidable_of_iff (a.same b = true) ⟨eq_of_same, fun h => h ▸ same_refl a⟩

end Expr

namespace Stmt

mutual

/-- All loops of a statement, each before those inside it. -/
def loops : Stmt → List Loop
  | assign .. | expr .. | brk _ => []
  | cond _ _ thenPart elsePart => loopsOf thenPart ++ loopsOf elsePart
  | loop head body => ⟨head, body⟩ :: loopsOf body

def loopsOf : List Stmt → List Loop
  | [] => []
  | s :: ss => s.loops ++ loopsOf ss

end

mutual

/-- The scalars that statements assign, loop variables apart. -/
def assigned : Stmt → List String
  | assign _ (.var name) _ => [name]
  | assign .. | expr .. | brk _ => []
  | cond _ _ thenPart elsePart => assignedOf thenPart ++ assignedOf elsePart
  | loop _ body => assignedOf body

def assignedOf : List Stmt → List String
  | [] => []
  | s :: ss => s.assigned ++ assignedOf ss

end

end Stmt

/-- All loops of a nest, each before those inside it. -/
def Loop.loops (l : Loop) : List Loop := l :: Stmt.loopsOf l.body

end LoopSafety.Nest

namespace LoopSafety

structure Nest where
  root : Nest.Loop
  locals : List String
  constants : Table String Int64

namespace Nest

def loops (n : Nest) : List Loop := n.root.loops

def loopLabels (n : Nest) : List String := n.loops.map (·.head.label)

/-- Texts in ascending order, without repeats. -/
def sortedSet (texts : List String) : List String := (texts.mergeSort fun a b => a ≤ b).eraseDups

theorem mem_sortedSet {texts : List String} {text : String} :
    text ∈ sortedSet texts ↔ text ∈ texts := by
  rw [sortedSet, List.mem_eraseDups, List.mem_mergeSort]

end Nest

/-- An oracle's answer: the loops without carried dependences, and the pairs of statements with a
flow dependence from the first to the second. -/
structure DependenceResult where
  independent : List String := []
  flows : List (String × String) := []
  deriving DecidableEq, Repr

end LoopSafety
