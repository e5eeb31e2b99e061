import Mathlib.Data.List.Forall2
import LoopSafety.Proofs.Cycles
import LoopSafety.Proofs.LabelTables

/-! Which loops may run in parallel, whatever the oracle answers.

Lowering keeps all loops of a region, so there is a verdict on each of them. A verdict is favourable
only if the oracle vouches for the loop, no storage is written under one of several names, and the
reported flow dependences form no cycle. -/
namespace LoopSafety

/-- The number and the body of a loop. -/
def Occurrence.loopBody? (o : Occurrence) : Option (LoopId × Term) :=
  match o.term.node with
  | .forLoop loop body => some (loop, body)
  | _ => none

lemma Occurrence.loop?_eq (o : Occurrence) : o.loop? = o.loopBody?.map Prod.fst := by
  unfold loop? loopBody?
  cases o.term.node <;> rfl

/-- Whatever stands on the right of related lists has a partner on the left. -/
lemma exists_mem_of_forall₂ {α β : Type} {r : α → β → Prop} {as : List α} {bs : List β}
    (h : List.Forall₂ r as bs) {b : β} (hb : b ∈ bs) : ∃ a ∈ as, r a b := by
  induction h with
  | nil => cases hb
  | @cons a b' as bs hab _ ih =>
    rcases List.mem_cons.mp hb with rfl | hb
    · exact ⟨a, List.mem_cons_self, hab⟩
    · obtain ⟨a', ha', hab'⟩ := ih hb
      exact ⟨a', List.mem_cons_of_mem a ha', hab'⟩

namespace Lowering

variable {p : Program} {ctx : Context}

/-- The loops of a construct that is none itself are those of its parts. -/
lemma loops_of_parts {id : NodeId} {node : Node Term} {loops : List LoopId}
    (h : Occurrence.loopBody? ⟨.mk id node, loops⟩ = none) :
    ((Term.mk id node).occurrences loops).filterMap Occurrence.loopBody? =
      (Term.nodeOccurrences loops node).filterMap Occurrence.loopBody? := by
  rw [Term.occurrences, List.filterMap_cons_none h]

mutual

/-- A construct that is an expression has no loops. -/
theorem expr_loops : ∀ {t : Term} {e : Nest.Expr} (loops : List LoopId), expr p t = .ok e →
    (t.occurrences loops).filterMap Occurrence.loopBody? = []
  | .mk _ (.literal _), _, _, _ => rfl
  | .mk _ (.var _ _ _), _, _, _ => rfl
  | .mk _ (.binary _ left right _), _, loops, h => by
    rw [expr] at h
    obtain ⟨_, hl, h⟩ := bind_eq_ok h
    obtain ⟨_, hr, -⟩ := bind_eq_ok h
    rw [loops_of_parts rfl, Term.nodeOccurrences, List.filterMap_append, expr_loops loops hl,
      expr_loops loops hr, List.append_nil]
  | .mk _ (.unary _ operand _), _, loops, h => by
    rw [expr] at h
    obtain ⟨_, ho, -⟩ := bind_eq_ok h
    rw [loops_of_parts rfl, Term.nodeOccurrences, expr_loops loops ho]
  | .mk _ (.access _ indices), _, loops, h => by
    rw [expr] at h
    split at h
    · cases h
    · obtain ⟨_, hi, -⟩ := bind_eq_ok h
      rw [loops_of_parts rfl, Term.nodeOccurrences, exprs_loops loops hi]
  | .mk _ (.builtin _ args _), _, loops, h => by
    rw [expr] at h
    obtain ⟨_, ha, -⟩ := bind_eq_ok h
    rw [loops_of_parts rfl, Term.nodeOccurrences, exprs_loops loops ha]
  | .mk _ (.math _ args _), _, loops, h => by
    rw [expr] at h
    obtain ⟨_, ha, -⟩ := bind_eq_ok h
    rw [loops_of_parts rfl, Term.nodeOccurrences, exprs_loops loops ha]
  | .mk _ (.cond _ _ (some _) _), _, loops, h => by
    rw [expr] at h
    obtain ⟨_, hc, h⟩ := bind_eq_ok h
    obtain ⟨_, ht, h⟩ := bind_eq_ok h
    obtain ⟨_, he, -⟩ := bind_eq_ok h
    rw [loops_of_parts rfl, Term.nodeOccurrences, List.filterMap_append, List.filterMap_append,
      expr_loops loops hc, expr_loops loops ht, expr_loops loops he, List.append_nil,
      List.append_nil]
  | .mk _ (.call _ args), _, loops, h => by
    rw [expr] at h
    split at h
    · cases h
    · obtain ⟨_, ha, -⟩ := bind_eq_ok h
      rw [loops_of_parts rfl, Term.nodeOccurrences, exprs_loops loops ha]
  | .mk _ (.cond _ _ none _), _, _, h | .mk _ (.forLoop ..), _, _, h | .mk _ (.whileLoop ..), _, _, h
  | .mk _ (.block _), _, _, h | .mk _ (.assign ..), _, _, h | .mk _ (.ret _), _, _, h
  | .mk _ .brk, _, _, h => by
    rw [expr] at h
    cases h

theorem exprs_loops : ∀ {ts : List Term} {es : List Nest.Expr} (loops : List LoopId),
    exprs p ts = .ok es → (Term.listOccurrences loops ts).filterMap Occurrence.loopBody? = []
  | [], _, _, _ => rfl
  | t :: ts, _, loops, h => by
    rw [exprs] at h
    obtain ⟨_, ht, h⟩ := bind_eq_ok h
    obtain ⟨_, hts, -⟩ := bind_eq_ok h
    rw [Term.listOccurrences, List.filterMap_append, expr_loops loops ht, exprs_loops loops hts,
      List.append_nil]

end

lemma forLoop_loops (id : NodeId) (loop : LoopId) (body : Term) (loops : List LoopId) :
    ((Term.mk id (.forLoop loop body)).occurrences loops).filterMap Occurrence.loopBody? =
      (loop, body) :: (body.occurrences (loops ++ [loop])).filterMap Occurrence.loopBody? := by
  rw [Term.occurrences, Term.nodeOccurrences]
  rfl

/-- Loops of a region and the loops of a nest that they become. -/
def Kept (p : Program) (ctx : Context) : List (LoopId × Term) → List Nest.Loop → Prop :=
  List.Forall₂ fun loop l => loopHead p ctx loop.1 = .ok l.head ∧ block p ctx loop.2 = .ok l.body

mutual

/-- Lowering keeps the loops of a construct and their order. -/
theorem block_loops : ∀ {t : Term} {stmts : List Nest.Stmt} (loops : List LoopId),
    block p ctx t = .ok stmts →
      Kept p ctx ((t.occurrences loops).filterMap Occurrence.loopBody?) (Nest.Stmt.loopsOf stmts)
  | .mk _ (.block statements), _, loops, h => by
    rw [block] at h
    rw [loops_of_parts rfl, Term.nodeOccurrences]
    exact blocks_loops loops h
  | .mk _ (.forLoop loop body), _, loops, h => by
    rw [block] at h
    obtain ⟨head, hhead, h⟩ := bind_eq_ok h
    obtain ⟨stmts, hbody, h⟩ := bind_eq_ok h
    cases h
    rw [forLoop_loops, Nest.Stmt.loopsOf, Nest.Stmt.loops, Nest.Stmt.loopsOf, List.append_nil]
    exact .cons ⟨hhead, hbody⟩ (block_loops (loops ++ [loop]) hbody)
  | .mk id (.assign target value), _, loops, h => by
    rw [block] at h
    obtain ⟨_, ht, h⟩ := bind_eq_ok h
    obtain ⟨_, hv, h⟩ := bind_eq_ok h
    cases h
    rw [loops_of_parts rfl, Term.nodeOccurrences, List.filterMap_append, expr_loops loops ht,
      expr_loops loops hv]
    exact .nil
  | .mk id (.cond condition thenPart none _), _, loops, h => by
    rw [block] at h
    obtain ⟨_, hc, h⟩ := bind_eq_ok h
    obtain ⟨_, ht, h⟩ := bind_eq_ok h
    cases h
    rw [loops_of_parts rfl, Term.nodeOccurrences, List.filterMap_append, expr_loops loops hc,
      List.nil_append, Nest.Stmt.loopsOf, Nest.Stmt.loops, Nest.Stmt.loopsOf, List.append_nil,
      List.append_nil]
    exact block_loops loops ht
  | .mk id (.cond condition thenPart (some elsePart) _), _, loops, h => by
    rw [block] at h
    obtain ⟨_, hc, h⟩ := bind_eq_ok h
    obtain ⟨_, ht, h⟩ := bind_eq_ok h
    obtain ⟨_, he, h⟩ := bind_eq_ok h
    cases h
    rw [loops_of_parts rfl, Term.nodeOccurrences, List.filterMap_append, List.filterMap_append,
      expr_loops loops hc, List.nil_append, Nest.Stmt.loopsOf, Nest.Stmt.loops, Nest.Stmt.loopsOf,
      List.append_nil]
    exact List.rel_append (block_loops loops ht) (block_loops loops he)
  | .mk id .brk, _, _, h => by
    rw [block] at h
    cases h
    exact .nil
  | .mk _ (.whileLoop ..), _, _, h | .mk _ (.ret _), _, _, h => by
    rw [block] at h
    cases h
  | .mk _ (.literal _), _, loops, h | .mk _ (.var ..), _, loops, h
  | .mk _ (.binary ..), _, loops, h | .mk _ (.unary ..), _, loops, h
  | .mk _ (.access ..), _, loops, h | .mk _ (.builtin ..), _, loops, h
  | .mk _ (.math ..), _, loops, h | .mk _ (.call ..), _, loops, h => by
    rw [block] at h
    obtain ⟨_, he, h⟩ := bind_eq_ok h
    cases h
    rw [expr_loops loops he]
    exact .nil

theorem blocks_loops : ∀ {ts : List Term} {stmts : List Nest.Stmt} (loops : List LoopId),
    blocks p ctx ts = .ok stmts →
      Kept p ctx ((Term.listOccurrences loops ts).filterMap Occurrence.loopBody?)
        (Nest.Stmt.loopsOf stmts)
  | [], _, _, h => by
    rw [blocks] at h
    cases h
    exact .nil
  | t :: ts, _, loops, h => by
    rw [blocks] at h
    obtain ⟨first, ht, h⟩ := bind_eq_ok h
    obtain ⟨rest, hts, h⟩ := bind_eq_ok h
    cases h
    rw [loopsOf_append, Term.listOccurrences, List.filterMap_append]
    exact List.rel_append (block_loops loops ht) (blocks_loops loops hts)

end

/-- The loops of a nest are those of the region, in the order of their occurrence. -/
theorem nest_kept {root : Term} {n : Nest} (h : nest p ctx root = .ok n) :
    Kept p ctx ((root.occurrences []).filterMap Occurrence.loopBody?) n.loops := by
  obtain ⟨id, node⟩ := root
  cases node with
  | forLoop loop body =>
    rw [nest_forLoop] at h
    obtain ⟨head, hhead, h⟩ := bind_eq_ok h
    obtain ⟨stmts, hbody, h⟩ := bind_eq_ok h
    cases h
    rw [forLoop_loops]
    exact .cons ⟨hhead, hbody⟩ (block_loops ([] ++ [loop]) hbody)
  | _ => cases h

theorem nest_loops {root : Term} {n : Nest} (h : nest p ctx root = .ok n) :
    List.Forall₂ (fun loop l => loopHead p ctx loop = .ok l.head)
      ((root.occurrences []).filterMap Occurrence.loop?) n.loops := by
  have hids : (root.occurrences []).filterMap Occurrence.loop? =
      ((root.occurrences []).filterMap Occurrence.loopBody?).map Prod.fst := by
    rw [List.map_filterMap]
    exact List.filterMap_congr fun o _ => o.loop?_eq
  rw [hids, List.forall₂_map_left_iff]
  exact (nest_kept h).imp fun _ _ hkept => hkept.1

theorem nest_loopLabels {root : Term} {n : Nest} (h : nest p ctx root = .ok n) :
    n.loopLabels = ((root.occurrences []).filterMap Occurrence.loop?).map loopLabel := by
  have hlabels := (nest_loops h).imp fun _ _ hhead => (loopHead_label hhead).symm
  rw [Nest.loopLabels, eq_comm, ← List.forall₂_eq_eq_eq, List.forall₂_map_left_iff,
    List.forall₂_map_right_iff]
  exact hlabels

end Lowering

namespace Oracle

/-- What an oracle has to say on a nest; nothing if it fails. -/
def answer (oracle : Oracle) (n : Nest) : DependenceResult :=
  match oracle.test n with
  | .ok result => result
  | .error _ => {}

end Oracle

namespace Program

/-- The verdict on the loop with a label, if there is one. -/
def verdictOn (p : Program) (root : Term) (answer : DependenceResult) (label : String) :
    Option ParallelVerdict :=
  ((Lowering.labels root).loops.get? label).map fun loop =>
    { label, loop
      independent := answer.independent.contains label
      reason := sequentialReason (answer.independent.contains label) (p.collision? root)
        (Digraph.ofEdges answer.flows).findCycle }

variable {p : Program} {ctx : Context} {oracle : Oracle} {root : Term} {n : Nest}

/-- The suspects that are left are the loops for which nothing vouches. -/
lemma mem_suspects {labels independent : List String} {label : String} :
    label ∈ suspects labels independent ↔ label ∈ labels ∧ label ∉ independent := by
  unfold suspects
  induction independent generalizing labels with
  | nil => simp
  | cons vouched independent ih =>
    rw [List.foldl_cons, ih]
    simp [and_assoc]

lemma contains_suspects {labels independent : List String} {label : String} (h : label ∈ labels) :
    (!(suspects labels independent).contains label) = independent.contains label := by
  rw [Bool.eq_iff_iff, Bool.not_eq_true', ← Bool.not_eq_true, List.contains_iff_mem,
    List.contains_iff_mem, mem_suspects]
  tauto

lemma dependences_eq (h : Lowering.nest p ctx root = .ok n) (oracle : Oracle) :
    p.dependences ctx oracle root = .ok
      { loops := n.loopLabels.filterMap (p.verdictOn root (oracle.answer n))
        flows := (oracle.answer n).flows.map fun (source, sink) =>
          (p.renderLabel (Lowering.labels root).statements source,
            p.renderLabel (Lowering.labels root).statements sink)
        cyclic := (Digraph.ofEdges (oracle.answer n).flows).findCycle.isSome } := by
  unfold dependences
  rw [Lowering.lower_run, h]
  refine congrArg (fun loops => Except.ok (Dependences.mk loops _ _))
    (List.filterMap_congr fun label hlabel => ?_)
  dsimp only
  rw [contains_suspects hlabel]
  rfl

/-- The reason to stay sequential is empty exactly if there is none. -/
lemma sequentialReason_isEmpty_iff {independent : Bool} {collision cycle : Option (List String)} :
    (sequentialReason independent collision cycle).isEmpty ↔
      independent ∧ collision = none ∧ cycle = none := by
  cases independent with
  | false => simp [sequentialReason]
  | true =>
    cases collision with
    | some names => simp [sequentialReason, collisionText]
    | none =>
      cases cycle with
      | some labels => simp [sequentialReason]
      | none => simp [sequentialReason]

lemma verdictOn_eq_some {answer : DependenceResult} {label : String} {v : ParallelVerdict}
    (h : p.verdictOn root answer label = some v) :
    v.label = label ∧ Lowering.loopLabel v.loop = label ∧
      (v.safe ↔ label ∈ answer.independent ∧ p.collision? root = none ∧
        ∀ x, ¬Relation.TransGen (fun a b => (a, b) ∈ answer.flows) x x) := by
  obtain ⟨loop, hloop, rfl⟩ := Option.map_eq_some_iff.mp h
  refine ⟨rfl, ((Lowering.labels_loops_get? _ _ _).mp hloop).2, ?_⟩
  rw [ParallelVerdict.safe, sequentialReason_isEmpty_iff, Digraph.ofEdges_findCycle_eq_none_iff,
    List.contains_iff_mem]

lemma exists_verdictOn (h : Lowering.nest p ctx root = .ok n) (answer : DependenceResult)
    {label : String} (hlabel : label ∈ n.loopLabels) :
    ∃ v, p.verdictOn root answer label = some v := by
  obtain ⟨loop, hloop⟩ := Lowering.exists_loop_of_mem_loopLabels h hlabel
  exact ⟨_, Option.map_eq_some_iff.mpr ⟨loop, hloop, rfl⟩⟩

/-- There is one verdict for every loop of the nest. -/
lemma verdicts_labels (h : Lowering.nest p ctx root = .ok n) (answer : DependenceResult) :
    (n.loopLabels.filterMap (p.verdictOn root answer)).map (·.label) = n.loopLabels := by
  have hall : ∀ label ∈ n.loopLabels, ∃ v, p.verdictOn root answer label = some v :=
    fun label => exists_verdictOn h answer
  -- the verdicts come from the tables and not the list, so the list may be any with verdicts
  generalize n.loopLabels = labels at hall
  induction labels with
  | nil => rfl
  | cons label labels ih =>
    obtain ⟨v, hv⟩ := hall label List.mem_cons_self
    rw [List.filterMap_cons_some hv, List.map_cons, (verdictOn_eq_some hv).1,
      ih fun l hl => hall l (List.mem_cons_of_mem label hl)]

/-- The verdicts are on the loops of the region, one for each occurrence. -/
lemma verdicts_loops (h : Lowering.nest p ctx root = .ok n) (answer : DependenceResult) :
    (n.loopLabels.filterMap (p.verdictOn root answer)).map (·.loop) =
      (root.occurrences []).filterMap Occurrence.loop? := by
  have hlabel : ∀ v ∈ n.loopLabels.filterMap (p.verdictOn root answer),
      Lowering.loopLabel v.loop = v.label := by
    intro v hv
    obtain ⟨label, -, hv⟩ := List.mem_filterMap.mp hv
    obtain ⟨hlabel, hloop, -⟩ := verdictOn_eq_some hv
    exact hloop.trans hlabel.symm
  have hlabels := calc
    ((n.loopLabels.filterMap (p.verdictOn root answer)).map (·.loop)).map Lowering.loopLabel
      = (n.loopLabels.filterMap (p.verdictOn root answer)).map (·.label) := by
        rw [List.map_map]
        exact List.map_congr_left hlabel
    _ = n.loopLabels := verdicts_labels h answer
    _ = ((root.occurrences []).filterMap Occurrence.loop?).map Lowering.loopLabel :=
        Lowering.nest_loopLabels h
  exact List.map_injective_iff.mpr Lowering.loopLabel_injective hlabels

/-- A verdict reads the answer at its own label and the reported flows, and nothing else. -/
lemma verdictOn_congr {answer answer' : DependenceResult} {label : String}
    (hflows : answer.flows = answer'.flows)
    (hlabel : label ∈ answer.independent ↔ label ∈ answer'.independent) :
    p.verdictOn root answer label = p.verdictOn root answer' label := by
  have hcontains : answer.independent.contains label = answer'.independent.contains label := by
    rw [Bool.eq_iff_iff, List.contains_iff_mem, List.contains_iff_mem, hlabel]
  rw [verdictOn, verdictOn, hcontains, hflows]

/-- Whatever the oracle answers, there is one verdict for every loop of the nest, and it is
favourable exactly if the oracle vouches for the loop, no storage collides and the reported flows
form no cycle. A failure proves nothing, and labels of no loop change nothing. -/
theorem parallel_verdicts_fail_closed (h : Lowering.nest p ctx root = .ok n) (oracle : Oracle) :
    ∃ d, p.dependences ctx oracle root = .ok d ∧ d.loops.map (·.label) = n.loopLabels ∧
      (∀ v ∈ d.loops, Lowering.loopLabel v.loop = v.label ∧
        (v.safe ↔ ∃ result, oracle.test n = .ok result ∧ v.label ∈ result.independent ∧
          p.collision? root = none ∧
          ∀ x, ¬Relation.TransGen (fun a b => (a, b) ∈ result.flows) x x)) ∧
      (∀ e, oracle.test n = .error e → ∀ v ∈ d.loops, ¬v.safe) ∧
      ∀ oracle' result result', oracle.test n = .ok result → oracle'.test n = .ok result' →
        result'.flows = result.flows →
        (∀ label ∈ n.loopLabels, label ∈ result'.independent ↔ label ∈ result.independent) →
        p.dependences ctx oracle' root = .ok d := by
  have hsafe : ∀ v ∈ n.loopLabels.filterMap (p.verdictOn root (oracle.answer n)),
      Lowering.loopLabel v.loop = v.label ∧
        (v.safe ↔ ∃ result, oracle.test n = .ok result ∧ v.label ∈ result.independent ∧
          p.collision? root = none ∧
          ∀ x, ¬Relation.TransGen (fun a b => (a, b) ∈ result.flows) x x) := by
    intro v hv
    obtain ⟨label, -, hv⟩ := List.mem_filterMap.mp hv
    obtain ⟨hlabel, hloop, hiff⟩ := verdictOn_eq_some hv
    refine ⟨hloop.trans hlabel.symm, ?_⟩
    rw [hiff, ← hlabel]
    unfold Oracle.answer
    cases oracle.test n with
    | error e => simp
    | ok result => simp
  refine ⟨_, dependences_eq h oracle, verdicts_labels h _, hsafe, ?_, ?_⟩
  · intro e he v hv hvsafe
    obtain ⟨result, hok, -⟩ := (hsafe v hv).2.mp hvsafe
    cases he.symm.trans hok
  · intro oracle' result result' hok hok' hflows hlabels
    have hanswer : oracle.answer n = result := by rw [Oracle.answer, hok]
    have hanswer' : oracle'.answer n = result' := by rw [Oracle.answer, hok']
    rw [dependences_eq h, hanswer, hanswer', hflows,
      List.filterMap_congr fun label hl => verdictOn_congr hflows (hlabels label hl)]

end Program

/-! Two nested loops around `A[i] = B[j]`, and an oracle that vouches for the outer one and for a loop
that does not exist, and reports one flow twice. -/
namespace Vouched

def target : Term := ⟨⟨1⟩, .access ⟨0⟩ [⟨⟨0⟩, .var "i" .int none⟩]⟩
def value : Term := ⟨⟨3⟩, .access ⟨1⟩ [⟨⟨2⟩, .var "j" .int none⟩]⟩
def inner : Term := ⟨⟨5⟩, .forLoop ⟨1⟩ ⟨⟨4⟩, .assign target value⟩⟩
def region : Term := ⟨⟨6⟩, .forLoop ⟨0⟩ inner⟩

def program : Program where
  loops := #[⟨"i", .int, .simple ⟨0, 4, 1⟩⟩, ⟨"j", .int, .simple ⟨0, 4, 1⟩⟩]
  arrays := #[⟨"A", ⟨.intArray, [4]⟩, none, false⟩, ⟨"B", ⟨.intArray, [4]⟩, none, false⟩]

def answer : DependenceResult where
  independent := ["for_L0", "for_L7"]
  flows := [("S_n4", "x"), ("S_n4", "x"), ("x", "y")]

def oracle : Oracle where
  name := "outer"
  test _ := .ok answer

lemma nest_isSome : (Lowering.nest program {} region).toOption.isSome := by decide +kernel

def nest : Nest := (Lowering.nest program {} region).toOption.get nest_isSome

/-- The outer loop may run in parallel and the inner one may not. -/
theorem only_outer_loop_safe :
    Lowering.nest program {} region = .ok nest ∧ nest.loopLabels = ["for_L0", "for_L1"] ∧
    ∃ d, program.dependences {} oracle region = .ok d ∧
      d.loops.map (·.label) = ["for_L0", "for_L1"] ∧ ∀ v ∈ d.loops, v.safe ↔ v.label = "for_L0" := by
  have hnest : Lowering.nest program {} region = .ok nest := eq_ok_get nest_isSome
  have hlabels : nest.loopLabels = ["for_L0", "for_L1"] := by decide +kernel
  have hacyclic := (Digraph.ofEdges_findCycle_eq_none_iff answer.flows).mp (by decide +kernel)
  obtain ⟨d, hd, hloops, hsafe, -⟩ := Program.parallel_verdicts_fail_closed hnest oracle
  refine ⟨hnest, hlabels, d, hd, hloops.trans hlabels, fun v hv => ?_⟩
  have hlabel : v.label = "for_L0" ∨ v.label = "for_L1" := by
    have hmem : v.label ∈ d.loops.map (·.label) := List.mem_map_of_mem hv
    simpa [hloops, hlabels] using hmem
  rw [(hsafe v hv).2]
  constructor
  · rintro ⟨_, ⟨⟩, hmem, -⟩
    refine hlabel.resolve_right fun hinner => ?_
    rw [hinner] at hmem
    exact absurd hmem (by decide)
  · intro hlabel
    exact ⟨answer, rfl, by rw [hlabel]; decide, by decide +kernel, hacyclic⟩

end Vouched

end LoopSafety
