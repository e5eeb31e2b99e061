import Mathlib.Data.List.GetD
import LoopSafety.Proofs.Cycles

/-! Graphs that grow vertex by vertex and edge by edge.

The numbers of vertices depend on the order of insertion, and so does the cycle that the search
meets first. Whether it meets one does not: that is a fact about the inserted edges. -/
namespace LoopSafety

namespace Digraph

inductive Insertion where
  | vertex (label : String)
  | edge (source target : String)

namespace Insertion

def apply (g : Digraph) : Insertion → Digraph
  | vertex label => (g.addVertex label).1
  | edge source target => g.addEdge source target

def edge? : Insertion → Option (String × String)
  | vertex _ => none
  | edge source target => some (source, target)

end Insertion

/-- The graph after a sequence of insertions. -/
def grown (steps : List Insertion) : Digraph := steps.foldl Insertion.apply {}

/-- An edge that is among the insertions. -/
def Inserted (steps : List Insertion) (source target : String) : Prop :=
  Insertion.edge source target ∈ steps

variable {g : Digraph} {pairs : List (String × String)} {steps : List Insertion}

lemma mem_edges_iff {a b : String} :
    (a, b) ∈ steps.filterMap Insertion.edge? ↔ Inserted steps a b := by
  rw [List.mem_filterMap]
  constructor
  · rintro ⟨step, hstep, hedge⟩
    cases step with
    | vertex label => cases hedge
    | edge source target =>
      cases hedge
      exact hstep
  · exact fun h => ⟨.edge a b, h, rfl⟩

lemma grown_represents (steps : List Insertion) :
    (grown steps).Represents (steps.filterMap Insertion.edge?) := by
  induction steps using List.reverseRecOn with
  | nil => exact represents_empty
  | append_singleton steps step ih =>
    rw [grown, List.foldl_append, List.filterMap_append]
    cases step with
    | vertex label =>
      rw [List.filterMap_cons_none rfl, List.filterMap_nil, List.append_nil]
      exact ih.addVertex label
    | edge source target => exact ih.addEdge source target

/-- All vertices of a cycle are vertices of the graph. -/
lemma lt_vertexCount_of_isChain (hbound : g.Bounded) {v : Nat} {inner : List Nat}
    (h : (v :: inner ++ [v]).IsChain g.Edge) : ∀ u ∈ v :: inner, u < g.vertexCount := by
  have hpairs := List.isChain_cons_append_singleton_iff_forall₂.mp h
  -- each vertex but the last has an edge to the next
  exact ((List.forall₂_and_left (p := fun u => u < g.vertexCount) _ _).mp
    (hpairs.imp fun s t hst => ⟨(hbound s t hst).1, hst⟩)).1

/-- Different vertices have different labels. -/
lemma nodup_map_labels (hlabels : g.labels.Nodup) {vs : List Nat} (hvs : vs.Nodup)
    (hlt : ∀ v ∈ vs, v < g.vertexCount) : (vs.map (g.labels.getD · "")).Nodup := by
  refine List.Nodup.map_on (fun v hv w hw heq => ?_) hvs
  rw [List.getD_eq_getElem _ _ (hlt v hv), List.getD_eq_getElem _ _ (hlt w hw)] at heq
  exact hlabels.getElem_inj_iff.mp heq

/-- What the search returns is a closed walk along the represented edges that repeats only the label
where it starts. -/
lemma Represents.findCycle_eq_some (h : g.Represents pairs) {cycle : List String}
    (hfound : g.findCycle = some cycle) :
    ∃ x inner, cycle = x :: inner ++ [x] ∧ (x :: inner).Nodup ∧
      cycle.IsChain fun a b => (a, b) ∈ pairs := by
  have hsearch := search_ensures h.bounded
  unfold Search.Ensures at hsearch
  unfold findCycle at hfound
  cases hrun : (g.search (Marks.clear g.vertexCount)).1 with
  | ok u =>
    rw [hrun] at hfound
    cases hfound
  | error vs =>
    rw [hrun] at hfound hsearch
    cases hfound
    obtain ⟨v, inner, rfl, hnodup⟩ := IsCycle.closed hsearch
    have hwalk := IsCycle.walk hsearch
    refine ⟨g.labels.getD v "", inner.map (g.labels.getD · ""), by simp, ?_, ?_⟩
    · exact nodup_map_labels h.nodup hnodup (lt_vertexCount_of_isChain h.bounded hwalk)
    · rw [List.isChain_map]
      refine hwalk.imp fun s t hst => ?_
      obtain ⟨a, b, hab, hs, ht⟩ := (h.edge s t).mp hst
      simpa [List.getD_eq_getElem?_getD, hs, ht] using hab

/-- A cycle is found exactly if the inserted edges form one. What is found runs along inserted edges
from a label back to it and meets no label twice before. The order of insertions does not decide
whether there is a cycle. -/
theorem findCycle_exact (steps : List Insertion) :
    ((grown steps).findCycle.isSome ↔ ∃ x, Relation.TransGen (Inserted steps) x x) ∧
    (∀ cycle, (grown steps).findCycle = some cycle →
      2 ≤ cycle.length ∧ cycle.head? = cycle.getLast? ∧ cycle.IsChain (Inserted steps) ∧
        cycle.dropLast.Nodup) ∧
    ∀ steps', (∀ a b, Inserted steps' a b ↔ Inserted steps a b) →
      (grown steps').isCyclic = (grown steps).isCyclic := by
  have hcyclic : ∀ steps, (grown steps).isCyclic ↔ ∃ x, Relation.TransGen (Inserted steps) x x := by
    intro steps
    rw [isCyclic, ← Option.ne_none_iff_isSome, Ne, (grown_represents steps).findCycle_eq_none_iff]
    simp only [mem_edges_iff, not_forall, not_not]
  refine ⟨hcyclic steps, fun cycle hfound => ?_, fun steps' hsame => ?_⟩
  · obtain ⟨x, inner, rfl, hnodup, hwalk⟩ := (grown_represents steps).findCycle_eq_some hfound
    simp only [mem_edges_iff] at hwalk
    refine ⟨by simp, ?_, hwalk, ?_⟩
    · rw [List.getLast?_concat]
      rfl
    · rwa [List.dropLast_concat]
  · have hrel : Inserted steps' = Inserted steps := by
      funext a b
      exact propext (hsame a b)
    rw [Bool.eq_iff_iff, hcyclic, hcyclic, hrel]

end Digraph

/-! Two ways into a cycle of three labels, one edge inserted twice, and a vertex without edges. -/
namespace Lasso

open LoopSafety.Digraph

def steps : List Insertion :=
  [.vertex "e", .edge "a" "b", .edge "b" "c", .edge "c" "d", .edge "f" "c", .edge "d" "b",
    .edge "a" "b"]

/-- The search comes in through `a`, which is on no cycle, and returns the three edges from `b` back
to it; it finds a cycle as well if the insertions come in the opposite order. -/
theorem loop_found :
    (grown steps).findCycle = some ["b", "c", "d", "b"] ∧
    ["b", "c", "d", "b"].IsChain (Inserted steps) ∧ ["b", "c", "d", "b"].dropLast.Nodup ∧
    (∃ x, Relation.TransGen (Inserted steps) x x) ∧ (grown steps.reverse).isCyclic := by
  have hfound : (grown steps).findCycle = some ["b", "c", "d", "b"] := by decide +kernel
  obtain ⟨hiff, hcycle, horder⟩ := findCycle_exact steps
  obtain ⟨-, -, hwalk, hnodup⟩ := hcycle _ hfound
  have hsome : (grown steps).findCycle.isSome := by rw [hfound]; rfl
  refine ⟨hfound, hwalk, hnodup, hiff.mp hsome, ?_⟩
  rw [horder steps.reverse fun a b => List.mem_reverse]
  exact hsome

end Lasso

end LoopSafety
