import Mathlib.Data.List.Forall2
import LoopSafety.Proofs.Parallel

/-! The array accesses of a region and the subscripts of its nest.

Lowering keeps every access: the subscripts of a nest outside the ranges of its loops correspond one
by one, and in order, to the accesses of the region, each with the same loops around it. Ranges that
are resolved have no subscripts. -/
namespace LoopSafety

/-- An array access with the loops around it, outermost first. -/
structure Access where
  array : ArrayId
  indices : List Term
  loops : List LoopId

def Occurrence.access? (o : Occurrence) : Option Access :=
  match o.term.node with
  | .access array indices => some ⟨array, indices, o.loops⟩
  | _ => none

namespace Term

/-- The array accesses of a region, each before those in its indices. -/
def accesses (root : Term) : List Access := (root.occurrences []).filterMap Occurrence.access?

/-- The loops of a region, each before those inside it. -/
def loops (root : Term) : List LoopId := (root.occurrences []).filterMap Occurrence.loop?

end Term

namespace Nest

/-- A subscript with the loops around it, outermost first. -/
structure Site where
  array : String
  indices : List Expr
  heads : List LoopHead

namespace Expr

mutual

/-- The subscripts of an expression, each before those in its indices. -/
def sites (heads : List LoopHead) : Expr → List Site
  | var _ | literal _ => []
  | binary _ lhs rhs => lhs.sites heads ++ rhs.sites heads
  | unary _ operand => operand.sites heads
  | subscript array indices => ⟨array, indices, heads⟩ :: sitesOf heads indices
  | ternary condition thenPart elsePart =>
    condition.sites heads ++ thenPart.sites heads ++ elsePart.sites heads
  | intrinsic _ args | call _ args => sitesOf heads args

def sitesOf (heads : List LoopHead) : List Expr → List Site
  | [] => []
  | e :: es => e.sites heads ++ sitesOf heads es

end

end Expr

def LoopHead.sites (heads : List LoopHead) (head : LoopHead) : List Site :=
  head.start.sites heads ++ head.stop.sites heads ++ head.step.sites heads

/-- No range of a loop has subscripts. -/
def PlainRanges (loops : List Loop) : Prop := ∀ l ∈ loops, ∀ heads, l.head.sites heads = []

lemma plainRanges_append {first rest : List Loop} :
    PlainRanges (first ++ rest) ↔ PlainRanges first ∧ PlainRanges rest := by
  simp [PlainRanges, or_imp, forall_and]

namespace Stmt

mutual

def sites (heads : List LoopHead) : Stmt → List Site
  | assign _ target value => target.sites heads ++ value.sites heads
  | expr _ e => e.sites heads
  | cond _ condition thenPart elsePart =>
    condition.sites heads ++ sitesOf heads thenPart ++ sitesOf heads elsePart
  | loop head body => head.sites heads ++ sitesOf (heads ++ [head]) body
  | brk _ => []

def sitesOf (heads : List LoopHead) : List Stmt → List Site
  | [] => []
  | s :: ss => s.sites heads ++ sitesOf heads ss

end

mutual

/-- The subscripts of a statement other than those in the ranges of its loops. -/
def bodySites (heads : List LoopHead) : Stmt → List Site
  | assign _ target value => target.sites heads ++ value.sites heads
  | expr _ e => e.sites heads
  | cond _ condition thenPart elsePart =>
    condition.sites heads ++ bodySitesOf heads thenPart ++ bodySitesOf heads elsePart
  | loop head body => bodySitesOf (heads ++ [head]) body
  | brk _ => []

def bodySitesOf (heads : List LoopHead) : List Stmt → List Site
  | [] => []
  | s :: ss => s.bodySites heads ++ bodySitesOf heads ss

end

lemma bodySitesOf_append (heads : List LoopHead) (first rest : List Stmt) :
    bodySitesOf heads (first ++ rest) = bodySitesOf heads first ++ bodySitesOf heads rest := by
  induction first with
  | nil => rfl
  | cons s first ih => rw [List.cons_append, bodySitesOf, bodySitesOf, ih, List.append_assoc]

mutual

theorem sites_eq_bodySites : ∀ {s : Stmt} (heads : List LoopHead), PlainRanges s.loops →
    s.sites heads = s.bodySites heads
  | assign .., _, _ | expr .., _, _ | brk _, _, _ => rfl
  | cond _ condition thenPart elsePart, heads, h => by
    rw [loops, plainRanges_append] at h
    rw [sites, bodySites, sitesOf_eq_bodySitesOf heads h.1, sitesOf_eq_bodySitesOf heads h.2]
  | loop head body, heads, h => by
    rw [loops, PlainRanges, List.forall_mem_cons] at h
    rw [sites, bodySites, h.1 heads, List.nil_append, sitesOf_eq_bodySitesOf _ h.2]

theorem sitesOf_eq_bodySitesOf : ∀ {ss : List Stmt} (heads : List LoopHead),
    PlainRanges (loopsOf ss) → sitesOf heads ss = bodySitesOf heads ss
  | [], _, _ => rfl
  | s :: ss, heads, h => by
    rw [loopsOf, plainRanges_append] at h
    rw [sitesOf, bodySitesOf, sites_eq_bodySites heads h.1, sitesOf_eq_bodySitesOf heads h.2]

end

end Stmt

/-- All subscripts of a nest in the order of its text. -/
def sites (n : Nest) : List Site :=
  n.root.head.sites [] ++ Stmt.sitesOf [n.root.head] n.root.body

/-- The subscripts of a nest other than those in the ranges of its loops. -/
def bodySites (n : Nest) : List Site := Stmt.bodySitesOf [n.root.head] n.root.body

end Nest

namespace Lowering

variable {p : Program} {ctx : Context}

/-- The loops around a construct and what they are lowered to. -/
def Around (p : Program) (ctx : Context) : List LoopId → List Nest.LoopHead → Prop :=
  List.Forall₂ fun loop head => loopHead p ctx loop = .ok head

/-- An access and the subscript that it is lowered to. -/
structure Lowers (p : Program) (ctx : Context) (a : Access) (s : Nest.Site) : Prop where
  array : ∃ binding, p.array? a.array = some binding ∧ s.array = binding.name
  indices : exprs p a.indices = .ok s.indices
  around : Around p ctx a.loops s.heads

lemma Around.snoc {loops : List LoopId} {heads : List Nest.LoopHead} {loop : LoopId}
    {head : Nest.LoopHead} (h : Around p ctx loops heads) (hhead : loopHead p ctx loop = .ok head) :
    Around p ctx (loops ++ [loop]) (heads ++ [head]) :=
  List.rel_append h (.cons hhead .nil)

/-- The accesses of a construct that is none itself are those of its parts. -/
lemma accesses_of_parts {id : NodeId} {node : Node Term} {loops : List LoopId}
    (h : Occurrence.access? ⟨.mk id node, loops⟩ = none) :
    ((Term.mk id node).occurrences loops).filterMap Occurrence.access? =
      (Term.nodeOccurrences loops node).filterMap Occurrence.access? := by
  rw [Term.occurrences, List.filterMap_cons_none h]

lemma accesses_of_access (id : NodeId) (array : ArrayId) (indices : List Term)
    (loops : List LoopId) :
    ((Term.mk id (.access array indices)).occurrences loops).filterMap Occurrence.access? =
      ⟨array, indices, loops⟩ :: (Term.listOccurrences loops indices).filterMap Occurrence.access? := by
  rw [Term.occurrences, Term.nodeOccurrences]
  rfl

mutual

theorem expr_sites {loops : List LoopId} {heads : List Nest.LoopHead}
    (around : Around p ctx loops heads) : ∀ {t : Term} {e : Nest.Expr}, expr p t = .ok e →
      List.Forall₂ (Lowers p ctx) ((t.occurrences loops).filterMap Occurrence.access?)
        (e.sites heads)
  | .mk _ (.literal _), _, h | .mk _ (.var ..), _, h => by
    cases h
    exact .nil
  | .mk _ (.binary _ _ _ _), _, h => by
    rw [expr] at h
    obtain ⟨_, hl, h⟩ := bind_eq_ok h
    obtain ⟨_, hr, h⟩ := bind_eq_ok h
    cases h
    rw [accesses_of_parts rfl, Term.nodeOccurrences, List.filterMap_append]
    exact List.rel_append (expr_sites around hl) (expr_sites around hr)
  | .mk _ (.unary _ _ _), _, h => by
    rw [expr] at h
    obtain ⟨_, ho, h⟩ := bind_eq_ok h
    cases h
    rw [accesses_of_parts rfl, Term.nodeOccurrences, Nest.Expr.sites]
    exact expr_sites around ho
  | .mk id (.access array indices), _, h => by
    rw [expr] at h
    split at h
    · cases h
    · rename_i binding hbinding
      obtain ⟨_, hi, h⟩ := bind_eq_ok h
      cases h
      rw [accesses_of_access]
      exact .cons ⟨⟨binding, hbinding, rfl⟩, hi, around⟩ (exprs_sites around hi)
  | .mk _ (.builtin _ _ _), _, h | .mk _ (.math _ _ _), _, h => by
    rw [expr] at h
    obtain ⟨_, ha, h⟩ := bind_eq_ok h
    cases h
    rw [accesses_of_parts rfl, Term.nodeOccurrences]
    exact exprs_sites around ha
  | .mk _ (.cond _ _ (some _) _), _, h => by
    rw [expr] at h
    obtain ⟨_, hc, h⟩ := bind_eq_ok h
    obtain ⟨_, ht, h⟩ := bind_eq_ok h
    obtain ⟨_, he, h⟩ := bind_eq_ok h
    cases h
    rw [accesses_of_parts rfl, Term.nodeOccurrences, List.filterMap_append, List.filterMap_append]
    exact List.rel_append (List.rel_append (expr_sites around hc) (expr_sites around ht))
      (expr_sites around he)
  | .mk _ (.call _ _), _, h => by
    rw [expr] at h
    split at h
    · cases h
    · obtain ⟨_, ha, h⟩ := bind_eq_ok h
      cases h
      rw [accesses_of_parts rfl, Term.nodeOccurrences]
      exact exprs_sites around ha
  | .mk _ (.cond _ _ none _), _, h | .mk _ (.forLoop ..), _, h | .mk _ (.whileLoop ..), _, h
  | .mk _ (.block _), _, h | .mk _ (.assign ..), _, h | .mk _ (.ret _), _, h
  | .mk _ .brk, _, h => by
    rw [expr] at h
    cases h

theorem exprs_sites {loops : List LoopId} {heads : List Nest.LoopHead}
    (around : Around p ctx loops heads) : ∀ {ts : List Term} {es : List Nest.Expr},
      exprs p ts = .ok es →
        List.Forall₂ (Lowers p ctx) ((Term.listOccurrences loops ts).filterMap Occurrence.access?)
          (Nest.Expr.sitesOf heads es)
  | [], _, h => by
    cases h
    exact .nil
  | t :: ts, _, h => by
    rw [exprs] at h
    obtain ⟨_, ht, h⟩ := bind_eq_ok h
    obtain ⟨_, hts, h⟩ := bind_eq_ok h
    cases h
    rw [Term.listOccurrences, List.filterMap_append]
    exact List.rel_append (expr_sites around ht) (exprs_sites around hts)

end

/-- The head of a loop whose range is resolved. -/
lemma loopHead_resolved {loop : LoopId} {head : Nest.LoopHead} {span : Span}
    (h : loopHead p ctx loop = .ok head) (hspan : ctx.resolvedRange p loop = some span) :
    ∃ info, p.loop? loop = some info ∧
      head = ⟨loopLabel loop, info.induction, .literal (Saturating.add span.start (shift ctx)),
        .literal (Saturating.add span.stop (shift ctx)), .literal span.step⟩ := by
  unfold loopHead at h
  split at h
  · cases h
  · rename_i info hinfo
    dsimp only at h
    rw [hspan] at h
    cases h
    exact ⟨info, hinfo, rfl⟩

lemma loopHead_sites {loop : LoopId} {head : Nest.LoopHead} (h : loopHead p ctx loop = .ok head)
    (hresolved : (ctx.resolvedRange p loop).isSome) (heads : List Nest.LoopHead) :
    head.sites heads = [] := by
  obtain ⟨span, hspan⟩ := Option.isSome_iff_exists.mp hresolved
  obtain ⟨info, -, rfl⟩ := loopHead_resolved h hspan
  rfl

mutual

theorem block_bodySites {loops : List LoopId} {heads : List Nest.LoopHead}
    (around : Around p ctx loops heads) : ∀ {t : Term} {stmts : List Nest.Stmt},
      block p ctx t = .ok stmts →
        List.Forall₂ (Lowers p ctx) ((t.occurrences loops).filterMap Occurrence.access?)
          (Nest.Stmt.bodySitesOf heads stmts)
  | .mk _ (.block statements), _, h => by
    rw [block] at h
    rw [accesses_of_parts rfl, Term.nodeOccurrences]
    exact blocks_bodySites around h
  | .mk _ (.forLoop loop body), _, h => by
    rw [block] at h
    obtain ⟨head, hhead, h⟩ := bind_eq_ok h
    obtain ⟨stmts, hbody, h⟩ := bind_eq_ok h
    cases h
    rw [accesses_of_parts rfl, Term.nodeOccurrences, Nest.Stmt.bodySitesOf, Nest.Stmt.bodySites,
      Nest.Stmt.bodySitesOf, List.append_nil]
    exact block_bodySites (around.snoc hhead) hbody
  | .mk id (.assign target value), _, h => by
    rw [block] at h
    obtain ⟨_, ht, h⟩ := bind_eq_ok h
    obtain ⟨_, hv, h⟩ := bind_eq_ok h
    cases h
    rw [accesses_of_parts rfl, Term.nodeOccurrences, List.filterMap_append, Nest.Stmt.bodySitesOf,
      Nest.Stmt.bodySites, Nest.Stmt.bodySitesOf, List.append_nil]
    exact List.rel_append (expr_sites around ht) (expr_sites around hv)
  | .mk id (.cond condition thenPart none _), _, h => by
    rw [block] at h
    obtain ⟨_, hc, h⟩ := bind_eq_ok h
    obtain ⟨_, ht, h⟩ := bind_eq_ok h
    cases h
    rw [accesses_of_parts rfl, Term.nodeOccurrences, List.filterMap_append, Nest.Stmt.bodySitesOf,
      Nest.Stmt.bodySites, Nest.Stmt.bodySitesOf, List.append_nil, List.append_nil]
    exact List.rel_append (expr_sites around hc) (block_bodySites around ht)
  | .mk id (.cond condition thenPart (some elsePart) _), _, h => by
    rw [block] at h
    obtain ⟨_, hc, h⟩ := bind_eq_ok h
    obtain ⟨_, ht, h⟩ := bind_eq_ok h
    obtain ⟨_, he, h⟩ := bind_eq_ok h
    cases h
    rw [accesses_of_parts rfl, Term.nodeOccurrences, List.filterMap_append, List.filterMap_append,
      Nest.Stmt.bodySitesOf, Nest.Stmt.bodySites, Nest.Stmt.bodySitesOf, List.append_nil]
    exact List.rel_append (List.rel_append (expr_sites around hc) (block_bodySites around ht))
      (block_bodySites around he)
  | .mk id .brk, _, h => by
    rw [block] at h
    cases h
    exact .nil
  | .mk _ (.whileLoop ..), _, h | .mk _ (.ret _), _, h => by
    rw [block] at h
    cases h
  | .mk _ (.literal _), _, h | .mk _ (.var ..), _, h
  | .mk _ (.binary ..), _, h | .mk _ (.unary ..), _, h
  | .mk _ (.access ..), _, h | .mk _ (.builtin ..), _, h
  | .mk _ (.math ..), _, h | .mk _ (.call ..), _, h => by
    rw [block] at h
    obtain ⟨_, he, h⟩ := bind_eq_ok h
    cases h
    rw [Nest.Stmt.bodySitesOf, Nest.Stmt.bodySites, Nest.Stmt.bodySitesOf, List.append_nil]
    exact expr_sites around he

theorem blocks_bodySites {loops : List LoopId} {heads : List Nest.LoopHead}
    (around : Around p ctx loops heads) : ∀ {ts : List Term} {stmts : List Nest.Stmt},
      blocks p ctx ts = .ok stmts →
        List.Forall₂ (Lowers p ctx) ((Term.listOccurrences loops ts).filterMap Occurrence.access?)
          (Nest.Stmt.bodySitesOf heads stmts)
  | [], _, h => by
    rw [blocks] at h
    cases h
    exact .nil
  | t :: ts, _, h => by
    rw [blocks] at h
    obtain ⟨first, ht, h⟩ := bind_eq_ok h
    obtain ⟨rest, hts, h⟩ := bind_eq_ok h
    cases h
    rw [Term.listOccurrences, List.filterMap_append, Nest.Stmt.bodySitesOf_append]
    exact List.rel_append (block_bodySites around ht) (blocks_bodySites around hts)

end

/-- The subscripts of a nest outside of ranges are its region's accesses, in order. -/
theorem nest_bodySites {root : Term} {n : Nest} (h : nest p ctx root = .ok n) :
    List.Forall₂ (Lowers p ctx) root.accesses n.bodySites := by
  obtain ⟨id, node⟩ := root
  cases node with
  | forLoop loop body =>
    rw [nest_forLoop] at h
    obtain ⟨head, hhead, h⟩ := bind_eq_ok h
    obtain ⟨stmts, hbody, h⟩ := bind_eq_ok h
    cases h
    rw [Term.accesses, accesses_of_parts rfl, Term.nodeOccurrences, Nest.bodySites]
    exact block_bodySites (.cons hhead .nil) hbody
  | _ => cases h

lemma nest_plainRanges {root : Term} {n : Nest} (h : nest p ctx root = .ok n)
    (hresolved : ∀ loop ∈ root.loops, (ctx.resolvedRange p loop).isSome) :
    Nest.PlainRanges n.loops := by
  intro l hl heads
  obtain ⟨loop, hloop, hhead⟩ := exists_mem_of_forall₂ (nest_loops h) hl
  exact loopHead_sites hhead (hresolved loop hloop) heads

/-- Once all ranges are resolved, the subscripts of a nest are its region's accesses, in order. -/
theorem nest_sites {root : Term} {n : Nest} (h : nest p ctx root = .ok n)
    (hresolved : ∀ loop ∈ root.loops, (ctx.resolvedRange p loop).isSome) :
    List.Forall₂ (Lowers p ctx) root.accesses n.sites := by
  have hplain := nest_plainRanges h hresolved
  have hsites : n.sites = n.bodySites := by
    obtain ⟨hroot, hbody⟩ := List.forall_mem_cons.mp hplain
    rw [Nest.sites, hroot [], List.nil_append, Nest.Stmt.sitesOf_eq_bodySitesOf _ hbody]
    rfl
  rw [hsites]
  exact nest_bodySites h

end Lowering

end LoopSafety
