import Mathlib.Data.Finset.Card
import LoopSafety.Proofs.Insertions

/-! What a graph holds after a sequence of insertions.

The numbers of labels are their positions, and an edge is a pair of numbers. As no label ever moves
and none is entered twice, pairs of numbers and pairs of labels correspond, and counting the one is
counting the other. -/
namespace LoopSafety

namespace Digraph

/-- The tables of a graph stay in step: besides, no label is entered in the index but those of
vertices, and the targets of a vertex are vertices, in ascending order and each once. -/
structure Consistent (g : Digraph) : Prop extends InStep g where
  index_keys : g.index.keys = g.labels
  ascending : ∀ ts ∈ g.targets, ts.Pairwise (· < ·)
  targets_lt : ∀ ts ∈ g.targets, ∀ w ∈ ts, w < g.vertexCount

def Insertion.labels : Insertion → List String
  | vertex label => [label]
  | edge source target => [source, target]

/-- The labels that some insertion mentions. -/
def mentioned (steps : List Insertion) : Finset String := (steps.flatMap Insertion.labels).toFinset

/-- The pairs of labels that some insertion joins. -/
def joined (steps : List Insertion) : Finset (String × String) :=
  (steps.filterMap Insertion.edge?).toFinset

/-- All edges, as pairs of numbers. -/
def edges (g : Digraph) : List (Nat × Nat) :=
  (List.range g.vertexCount).flatMap fun v => (g.successors v).map (Prod.mk v)

/-- The labels of an edge. -/
def named (g : Digraph) (e : Nat × Nat) : String × String :=
  (g.labels.getD e.1 "", g.labels.getD e.2 "")

variable {g : Digraph} {pairs : List (String × String)} {steps : List Insertion}

lemma enter_ascending {n : Nat} {ns : List Nat} (h : ns.Pairwise (· < ·)) :
    (enter n ns).Pairwise (· < ·) := by
  induction ns with
  | nil => exact List.pairwise_singleton _ n
  | cons m ms ih =>
    obtain ⟨hfirst, hrest⟩ := List.pairwise_cons.mp h
    unfold enter
    split
    · next hlt =>
      refine List.pairwise_cons.mpr ⟨List.forall_mem_cons.mpr ⟨hlt, fun x hx => ?_⟩, h⟩
      exact Nat.lt_trans hlt (hfirst x hx)
    · split
      · exact h
      · next hlt hne =>
        refine List.pairwise_cons.mpr ⟨fun x hx => ?_, ih hrest⟩
        rcases mem_enter.mp hx with rfl | hx
        · omega
        · exact hfirst x hx

lemma forall_mem_modify {P : List Nat → Prop} {targets : List (List Nat)} {s : Nat}
    {f : List Nat → List Nat} (h : ∀ ts ∈ targets, P ts) (hf : ∀ ts, P ts → P (f ts)) :
    ∀ ts ∈ targets.modify s f, P ts := by
  intro ts hts
  obtain ⟨i, hi⟩ := List.mem_iff_getElem?.mp hts
  rw [List.getElem?_modify, Option.map_eq_map, Option.map_eq_some_iff] at hi
  obtain ⟨old, hold, rfl⟩ := hi
  have hP := h old (List.mem_of_getElem? hold)
  split
  · exact hf old hP
  · exact hP

/-- A label of the graph gets the number that it has, a new one the next number. -/
lemma addVertex_eq (h : g.InStep) (label : String) :
    label ∈ g.labels ∧ (g.addVertex label).1 = g ∨
      label ∉ g.labels ∧ (g.addVertex label).1 =
        ⟨g.index.insert label g.vertexCount, g.labels ++ [label], g.targets ++ [[]]⟩ := by
  have hmem : (g.index.get? label).isSome ↔ label ∈ g.labels := h.index_isSome_iff
  unfold addVertex
  cases hidx : g.index.get? label with
  | some v =>
    rw [hidx] at hmem
    exact .inl ⟨hmem.mp rfl, rfl⟩
  | none =>
    rw [hidx] at hmem
    exact .inr ⟨fun hlabel => absurd (hmem.mpr hlabel) (by simp), rfl⟩

namespace Consistent

variable (h : g.Consistent)
include h

/-- A new label is entered in all three tables. -/
lemma addVertex (label : String) : (g.addVertex label).1.Consistent := by
  have hstep := (h.toInStep.addVertex_spec label).1
  rcases addVertex_eq h.toInStep label with ⟨-, heq⟩ | ⟨hnew, heq⟩
  · rw [heq]
    exact h
  · rw [heq] at hstep ⊢
    refine ⟨hstep, ?_, ?_, ?_⟩
    · rw [Table.keys_insert, h.index_keys, if_neg hnew]
    · exact List.forall_mem_append.mpr ⟨h.ascending, by simp⟩
    · refine List.forall_mem_append.mpr ⟨fun ts hts w hw => ?_, by simp⟩
      exact Nat.lt_of_lt_of_le (h.targets_lt ts hts w hw) (by simp [vertexCount])

/-- A vertex is entered among the targets of another. -/
lemma enter {t : Nat} (ht : t < g.vertexCount) (s : Nat) :
    Consistent { g with targets := g.targets.modify s (enter t) } where
  toInStep := h.toInStep.modify s _
  index_keys := h.index_keys
  ascending := forall_mem_modify h.ascending fun _ => enter_ascending
  targets_lt := forall_mem_modify h.targets_lt fun _ hts w hw =>
    (mem_enter.mp hw).elim (fun heq => heq ▸ ht) (hts w)

lemma addEdge (a b : String) : (g.addEdge a b).Consistent := by
  have hb := (h.addVertex a).addVertex b
  obtain ⟨-, -, ht⟩ := (h.addVertex a).toInStep.addVertex_spec b
  exact hb.enter (List.getElem?_eq_some_iff.mp ht).1 _

lemma apply (step : Insertion) : (step.apply g).Consistent := by
  cases step with
  | vertex label => exact h.addVertex label
  | edge source target => exact h.addEdge source target

end Consistent

lemma consistent_empty : Consistent {} :=
  ⟨represents_empty.toInStep, rfl, by simp, by simp⟩

lemma grown_snoc (steps : List Insertion) (step : Insertion) :
    grown (steps ++ [step]) = step.apply (grown steps) := by
  rw [grown, List.foldl_append]
  rfl

/-- The tables stay in step over every sequence of insertions. -/
lemma grown_consistent (steps : List Insertion) : (grown steps).Consistent := by
  induction steps using List.reverseRecOn with
  | nil => exact consistent_empty
  | append_singleton steps step ih =>
    rw [grown_snoc]
    exact ih.apply step

lemma mem_labels_addVertex (h : g.InStep) {label a : String} :
    a ∈ (g.addVertex label).1.labels ↔ a ∈ g.labels ∨ a = label := by
  rcases addVertex_eq h label with ⟨hmem, heq⟩ | ⟨-, heq⟩
  · rw [heq]
    exact ⟨.inl, fun ha => ha.elim id fun ha => ha ▸ hmem⟩
  · rw [heq]
    simp

namespace Insertion

lemma mem_labels_apply (h : g.Consistent) (step : Insertion) {a : String} :
    a ∈ (step.apply g).labels ↔ a ∈ g.labels ∨ a ∈ step.labels := by
  cases step with
  | vertex label => simp [apply, labels, mem_labels_addVertex h.toInStep]
  | edge source target =>
    have hlabels : (g.addEdge source target).labels =
        ((g.addVertex source).1.addVertex target).1.labels := rfl
    simp [apply, labels, hlabels, mem_labels_addVertex (h.addVertex source).toInStep,
      mem_labels_addVertex h.toInStep, or_assoc]

lemma labels_isPrefix_apply (h : g.Consistent) (step : Insertion) :
    g.labels <+: (step.apply g).labels := by
  cases step with
  | vertex label => exact (h.toInStep.addVertex_spec label).2.1
  | edge source target =>
    exact (h.toInStep.addVertex_spec source).2.1.trans
      ((h.addVertex source).toInStep.addVertex_spec target).2.1

end Insertion

lemma mem_grown_labels {a : String} : a ∈ (grown steps).labels ↔ a ∈ steps.flatMap Insertion.labels := by
  induction steps using List.reverseRecOn with
  | nil => simp [grown]
  | append_singleton steps step ih =>
    rw [grown_snoc, Insertion.mem_labels_apply (grown_consistent steps), ih]
    simp

/-- Labels keep their places whatever is inserted later. -/
lemma grown_labels_isPrefix (steps later : List Insertion) :
    (grown steps).labels <+: (grown (steps ++ later)).labels := by
  induction later using List.reverseRecOn with
  | nil => simp
  | append_singleton later step ih =>
    rw [← List.append_assoc, grown_snoc]
    exact ih.trans (step.labels_isPrefix_apply (grown_consistent _))

namespace Consistent

variable (h : g.Consistent)
include h

lemma successors_nodup (v : Nat) : (g.successors v).Nodup := by
  rcases Nat.lt_or_ge v g.targets.length with hlt | hge
  · rw [successors, List.getD_eq_getElem _ _ hlt]
    exact (h.ascending _ (List.getElem_mem hlt)).imp Nat.ne_of_lt
  · rw [successors, List.getD_eq_default _ _ hge]
    exact List.nodup_nil

lemma mem_edges {s t : Nat} : (s, t) ∈ g.edges ↔ g.Edge s t := by
  have hsource : g.Edge s t → s < g.vertexCount := by
    intro hedge
    by_contra hge
    rw [Edge, successors, List.getD_eq_default _ _ (by rw [h.targets_length]; omega)] at hedge
    exact List.not_mem_nil hedge
  simp only [edges, List.mem_flatMap, List.mem_range, List.mem_map, Prod.mk.injEq]
  constructor
  · rintro ⟨_, -, _, hedge, rfl, rfl⟩
    exact hedge
  · exact fun hedge => ⟨s, hsource hedge, t, hedge, rfl, rfl⟩

lemma edges_nodup : g.edges.Nodup := by
  refine List.nodup_flatMap.mpr ⟨fun v _ => ?_, ?_⟩
  · exact (h.successors_nodup v).map fun _ _ heq => (Prod.mk.inj heq).2
  · refine List.nodup_range.imp fun {v w} hne => ?_
    rintro ⟨s, t⟩ hv hw
    obtain ⟨_, -, hs⟩ := List.mem_map.mp hv
    obtain ⟨_, -, hs'⟩ := List.mem_map.mp hw
    exact hne ((Prod.mk.inj hs).1.trans (Prod.mk.inj hs').1.symm)

lemma length_edges : g.edges.length = g.edgeCount := by
  have htargets : g.targets = (List.range g.vertexCount).map g.successors := by
    refine List.ext_getElem (by simp [h.targets_length]) fun v hv _ => ?_
    rw [List.getElem_map, List.getElem_range, successors, List.getD_eq_getElem _ _ hv]
  rw [edgeCount, htargets, edges, List.length_flatMap, List.sum_eq_foldr, List.map_map]
  simp only [List.length_map, Function.comp_def]

end Consistent

lemma named_eq {s t : Nat} {a b : String} (hs : g.labels[s]? = some a) (ht : g.labels[t]? = some b) :
    g.named (s, t) = (a, b) := by
  simp [named, hs, ht]

namespace Represents

lemma hasEdge_iff (h : g.Represents pairs) {a b : String} :
    g.hasEdge a b = true ↔ (a, b) ∈ pairs := by
  have hedge : g.hasEdge a b = true ↔
      ∃ s t, g.index.get? a = some s ∧ g.index.get? b = some t ∧ g.Edge s t := by
    unfold hasEdge Edge
    cases g.index.get? a <;> cases g.index.get? b <;> simp
  simp only [hedge, h.index_iff, h.edge]
  constructor
  · rintro ⟨s, t, hs, ht, a', b', hab, hs', ht'⟩
    cases hs.symm.trans hs'
    cases ht.symm.trans ht'
    exact hab
  · intro hab
    obtain ⟨ha, hb⟩ := h.covers a b hab
    obtain ⟨s, hs⟩ := List.mem_iff_getElem?.mp ha
    obtain ⟨t, ht⟩ := List.mem_iff_getElem?.mp hb
    exact ⟨s, t, hs, ht, a, b, hab, hs, ht⟩

variable (h : g.Represents pairs) (hc : g.Consistent)
include h hc

/-- The named edges are the represented pairs. -/
lemma mem_map_named (pair : String × String) : pair ∈ g.edges.map g.named ↔ pair ∈ pairs := by
  obtain ⟨a, b⟩ := pair
  rw [List.mem_map]
  constructor
  · rintro ⟨⟨s, t⟩, hedge, hnamed⟩
    obtain ⟨a', b', hab, hs, ht⟩ := (h.edge s t).mp (hc.mem_edges.mp hedge)
    rwa [← hnamed, named_eq hs ht]
  · intro hab
    obtain ⟨ha, hb⟩ := h.covers a b hab
    obtain ⟨s, hs⟩ := List.mem_iff_getElem?.mp ha
    obtain ⟨t, ht⟩ := List.mem_iff_getElem?.mp hb
    exact ⟨(s, t), hc.mem_edges.mpr ((h.edge s t).mpr ⟨a, b, hab, hs, ht⟩), named_eq hs ht⟩

/-- No two edges have the same name. -/
lemma map_named_nodup : (g.edges.map g.named).Nodup := by
  refine List.Nodup.map_on ?_ hc.edges_nodup
  rintro ⟨s, t⟩ hedge ⟨s', t'⟩ hedge' heq
  obtain ⟨a, b, -, hs, ht⟩ := (h.edge s t).mp (hc.mem_edges.mp hedge)
  obtain ⟨a', b', -, hs', ht'⟩ := (h.edge s' t').mp (hc.mem_edges.mp hedge')
  rw [named_eq hs ht, named_eq hs' ht', Prod.mk.injEq] at heq
  obtain ⟨rfl, rfl⟩ := heq
  rw [index_unique h.nodup hs hs', index_unique h.nodup ht ht']

lemma edgeCount_eq_card : g.edgeCount = pairs.toFinset.card := by
  have hsame : (g.edges.map g.named).toFinset = pairs.toFinset := by
    ext pair
    rw [List.mem_toFinset, List.mem_toFinset, h.mem_map_named hc]
  rw [← hsame, List.toFinset_card_of_nodup (h.map_named_nodup hc), List.length_map, hc.length_edges]

end Represents

lemma grown_hasEdge_iff {a b : String} : (grown steps).hasEdge a b = true ↔ Inserted steps a b := by
  rw [(grown_represents steps).hasEdge_iff, mem_edges_iff]

lemma grown_vertexCount (steps : List Insertion) :
    (grown steps).vertexCount = (mentioned steps).card := by
  have hsame : (grown steps).labels.toFinset = mentioned steps := by
    ext a
    rw [mentioned, List.mem_toFinset, List.mem_toFinset, mem_grown_labels]
  rw [← hsame, List.toFinset_card_of_nodup (grown_consistent steps).nodup, vertexCount]

lemma grown_edgeCount (steps : List Insertion) : (grown steps).edgeCount = (joined steps).card :=
  (grown_represents steps).edgeCount_eq_card (grown_consistent steps)

/-- A number that a label has is its number for good. -/
lemma grown_index_append {label : String} {v : Nat} (h : (grown steps).index.get? label = some v)
    (later : List Insertion) : (grown (steps ++ later)).index.get? label = some v := by
  rw [(grown_consistent _).index_iff] at h ⊢
  exact getElem?_of_isPrefix (grown_labels_isPrefix steps later) h

/-- So is the number that an insertion returns. -/
lemma grown_index_returned (label : String) (before after : List Insertion) :
    (grown (before ++ .vertex label :: after)).index.get? label =
      some ((grown before).addVertex label).2 := by
  rw [List.append_cons]
  refine grown_index_append ?_ after
  rw [(grown_consistent _).index_iff, grown_snoc]
  exact ((grown_consistent before).toInStep.addVertex_spec label).2.2

/-- After any insertions, the labels and numbers, edges and successors of a graph agree with one
another. The graph has exactly the edges that were inserted and counts labels and edges once each. All
numbers given on the way are still those of their labels. Order and repetition of insertions change
neither the counts nor the edges. -/
theorem holds_exactly_inserted_edges (steps : List Insertion) :
    (grown steps).Consistent ∧
    (∀ a b, (grown steps).hasEdge a b = true ↔ Inserted steps a b) ∧
    (grown steps).vertexCount = (mentioned steps).card ∧
    (grown steps).edgeCount = (joined steps).card ∧
    (∀ before label after, steps = before ++ .vertex label :: after →
      (grown steps).index.get? label = some ((grown before).addVertex label).2) ∧
    (∀ before after label v, steps = before ++ after → (grown before).index.get? label = some v →
      (grown steps).index.get? label = some v) ∧
    ∀ steps', (∀ step, step ∈ steps' ↔ step ∈ steps) →
      (grown steps').vertexCount = (grown steps).vertexCount ∧
      (grown steps').edgeCount = (grown steps).edgeCount ∧
      ∀ a b, (grown steps').hasEdge a b = (grown steps).hasEdge a b := by
  refine ⟨grown_consistent steps, fun a b => grown_hasEdge_iff, grown_vertexCount steps,
    grown_edgeCount steps, ?_, ?_, fun steps' hsame => ⟨?_, ?_, fun a b => ?_⟩⟩
  · rintro before label after rfl
    exact grown_index_returned label before after
  · rintro before after label v rfl h
    exact grown_index_append h after
  · rw [grown_vertexCount, grown_vertexCount]
    refine congrArg Finset.card (Finset.ext fun a => ?_)
    simp only [mentioned, List.mem_toFinset, List.mem_flatMap, hsame]
  · rw [grown_edgeCount, grown_edgeCount]
    refine congrArg Finset.card (Finset.ext fun pair => ?_)
    simp only [joined, List.mem_toFinset, List.mem_filterMap, hsame]
  · rw [Bool.eq_iff_iff, grown_hasEdge_iff, grown_hasEdge_iff]
    exact hsame _

end Digraph

/-! A label that is joined to itself by the insertion that brings it, twice, and a second label. -/
namespace Rooted

open LoopSafety.Digraph

def before : List Insertion := [.edge "a" "a"]
def after : List Insertion := [.edge "a" "a", .edge "b" "a"]
def steps : List Insertion := before ++ .vertex "b" :: after

/-- The second label keeps the number that it was given. In the opposite order it is the first, and
counts and edges are the same. -/
theorem edges_kept_in_opposite_order :
    ((grown before).addVertex "b").2 = 1 ∧ (grown steps).index.get? "b" = some 1 ∧
    (grown steps.reverse).index.get? "b" = some 0 ∧
    (grown steps).Consistent ∧ (mentioned steps).card = 2 ∧ (joined steps).card = 2 ∧
    (grown steps.reverse).vertexCount = 2 ∧ (grown steps.reverse).edgeCount = 2 ∧
    (grown steps.reverse).hasEdge "a" "a" = true ∧ (grown steps.reverse).hasEdge "a" "b" = false := by
  obtain ⟨hconsistent, hedge, hvertices, hedges, hreturned, -, horder⟩ :=
    holds_exactly_inserted_edges steps
  obtain ⟨hvertices', hedges', hedge'⟩ := horder steps.reverse fun step => List.mem_reverse
  have hnumber : ((grown before).addVertex "b").2 = 1 := by decide +kernel
  have htwo : (grown steps).vertexCount = 2 ∧ (grown steps).edgeCount = 2 := by decide +kernel
  have hself : Inserted steps "a" "a" := by simp [Inserted, steps, before]
  have hback : ¬Inserted steps "a" "b" := by simp [Inserted, steps, before, after]
  refine ⟨hnumber, hnumber ▸ hreturned before "b" after rfl, by decide +kernel, hconsistent,
    hvertices ▸ htwo.1, hedges ▸ htwo.2, hvertices'.trans htwo.1, hedges'.trans htwo.2, ?_, ?_⟩
  · rw [hedge', hedge]
    exact hself
  · rw [hedge', Bool.eq_false_iff]
    exact mt (hedge "a" "b").mp hback

end Rooted

end LoopSafety
