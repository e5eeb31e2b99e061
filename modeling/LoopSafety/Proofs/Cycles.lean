import Mathlib.Data.List.Chain
import Mathlib.Data.List.GetD
import Mathlib.Data.List.Nodup
import Mathlib.Data.List.Perm.Subperm
import Mathlib.Logic.Relation
import LoopSafety.Digraph

/-! The search for a cycle is exact: it ends without one exactly if there is none.

A vertex that the search has left is one from which every walk ends, because this holds of all its
successors first. A vertex that is on the stack has a place on the path, because both change
together, and what stands on the path from there on is a cycle. -/
namespace LoopSafety

/-- Either a result with one property or a failure with another. -/
def Outcome {ε β : Type} (post : β → Prop) (bad : ε → Prop) : Except ε β → Prop
  | .ok b => post b
  | .error e => bad e

namespace Digraph

variable {g : Digraph}

def Edge (g : Digraph) (source target : Nat) : Prop := target ∈ g.successors source

/-- Every edge joins vertices of the graph. -/
def Bounded (g : Digraph) : Prop :=
  ∀ s t, g.Edge s t → s < g.vertexCount ∧ t < g.vertexCount

/-- A closed walk that repeats only the vertex where it starts. -/
structure IsCycle (g : Digraph) (cycle : List Nat) : Prop where
  closed : ∃ v inner, cycle = v :: inner ++ [v] ∧ (v :: inner).Nodup
  walk : cycle.IsChain g.Edge

/-- All walks from a vertex end. -/
def Ends (g : Digraph) (v : Nat) : Prop := Acc (fun t s => g.Edge s t) v

lemma transGen_of_isChain {R : Nat → Nat → Prop} {a b : Nat} {l : List Nat}
    (h : (a :: l ++ [b]).IsChain R) : Relation.TransGen R a b := by
  induction l generalizing a with
  | nil => exact .single (List.isChain_cons_cons.mp h).1
  | cons c l ih =>
    obtain ⟨hac, hrest⟩ := List.isChain_cons_cons.mp h
    exact .head hac (ih hrest)

lemma IsCycle.transGen {cycle : List Nat} (h : g.IsCycle cycle) :
    ∃ v, Relation.TransGen g.Edge v v := by
  obtain ⟨v, inner, rfl, -⟩ := h.closed
  exact ⟨v, transGen_of_isChain h.walk⟩

lemma Ends.not_transGen {v : Nat} (h : g.Ends v) : ¬Relation.TransGen g.Edge v v := by
  induction h with
  | intro v _ ih =>
    intro hcycle
    obtain ⟨w, hvw, hwv⟩ := Relation.TransGen.head'_iff.mp hcycle
    exact ih w hvw (.tail' hwv hvw)

/-- A path that repeats no vertex is no longer than the graph. -/
lemma length_le_vertexCount {path : List Nat} (hnodup : path.Nodup)
    (hlt : ∀ u ∈ path, u < g.vertexCount) : path.length ≤ g.vertexCount := by
  have hsub : path ⊆ List.range g.vertexCount := fun u hu => List.mem_range.mpr (hlt u hu)
  simpa using (List.subperm_of_subset hnodup hsub).length_le

namespace Search

/-- From the given marks, a search ends with marks of one kind or is stopped by a list of another. -/
def Ensures (s : Search Unit) (m : Marks) (post : Marks → Prop) (bad : List Nat → Prop) : Prop :=
  Outcome (fun _ => post (s m).2) bad (s m).1

variable {s : Search Unit} {m : Marks} {post mid : Marks → Prop} {bad : List Nat → Prop}

lemma ensures_of_ok {m' : Marks} (hrun : s m = (.ok (), m')) (h : post m') :
    s.Ensures m post bad := by
  rw [Ensures, hrun]
  exact h

lemma ensures_of_error {cycle : List Nat} {m' : Marks} (hrun : s m = (.error cycle, m'))
    (h : bad cycle) : s.Ensures m post bad := by
  rw [Ensures, hrun]
  exact h

lemma Ensures.mono {post' : Marks → Prop} (h : s.Ensures m post bad)
    (himp : ∀ m', post m' → post' m') : s.Ensures m post' bad := by
  unfold Ensures at *
  cases hrun : (s m).1 with
  | ok u =>
    rw [hrun] at h
    exact himp _ h
  | error cycle =>
    rw [hrun] at h
    exact h

lemma Ensures.bind {k : Unit → Search Unit} (h : s.Ensures m mid bad)
    (hk : ∀ m', mid m' → (k ()).Ensures m' post bad) : Ensures (s >>= k) m post bad := by
  have hrun : (s >>= k) m = ExceptT.bindCont k (s m).1 (s m).2 := rfl
  unfold Ensures at h
  rw [Ensures, hrun]
  cases hfirst : (s m).1 with
  | ok u =>
    rw [hfirst] at h
    exact hk _ h
  | error cycle =>
    rw [hfirst] at h
    exact h

lemma ensures_get {k : Marks → Search Unit} (h : (k m).Ensures m post bad) :
    Ensures (get >>= k) m post bad := h

lemma ensures_modify {f : Marks → Marks} {k : Unit → Search Unit}
    (h : (k ()).Ensures (f m) post bad) : Ensures (modify f >>= k) m post bad := h

/-- Steps over a list, with what holds of the marks after every part of it. -/
lemma forM_ensures {step : Nat → Search Unit} (inv : List Nat → Marks → Prop) (vs : List Nat)
    (hstep : ∀ done m, inv done m → ∀ v ∈ vs, (step v).Ensures m (inv (done ++ [v])) bad) :
    ∀ done m, inv done m → Ensures (vs.forM step) m (inv (done ++ vs)) bad := by
  induction vs with
  | nil =>
    intro done m hm
    rw [List.append_nil]
    exact ensures_of_ok rfl hm
  | cons v vs ih =>
    intro done m hm
    change Ensures (step v >>= fun _ => vs.forM step) m (inv (done ++ v :: vs)) bad
    refine (hstep done m hm v List.mem_cons_self).bind fun m' hm' => ?_
    have hrest := ih (fun done m hm w hw => hstep done m hm w (List.mem_cons_of_mem v hw))
      (done ++ [v]) m' hm'
    rwa [List.append_assoc] at hrest

end Search

namespace Marks

/-- What the marks of a search say: the stack and the path hold the same vertices, the path is a walk
that repeats none, and from the vertices that the search has left all walks end. -/
structure Sound (g : Digraph) (m : Marks) : Prop where
  visited_size : m.visited.size = g.vertexCount
  onStack_size : m.onStack.size = g.vertexCount
  onStack_iff : ∀ v, m.isOnStack v = true ↔ v ∈ m.path
  lt : ∀ v ∈ m.path, v < g.vertexCount
  nodup : m.path.Nodup
  walk : m.path.IsChain g.Edge
  left : ∀ v, m.isVisited v = true → v ∉ m.path → g.Ends v

variable {m : Marks} {v : Nat}

lemma getD_setIfInBounds (flags : Array Bool) (v u : Nat) (b : Bool) (hv : v < flags.size) :
    (flags.setIfInBounds v b).getD u false = if u = v then b else flags.getD u false := by
  by_cases huv : u = v
  · subst huv
    simp [hv]
  · simp [Array.getElem?_setIfInBounds_ne (Ne.symm huv), huv]

lemma clear_sound (g : Digraph) : (clear g.vertexCount).Sound g := by
  have hnone : ∀ v, (Array.replicate g.vertexCount false).getD v false = false := by
    intro v
    rw [Array.getD_eq_getD_getElem?, Array.getElem?_replicate]
    split <;> rfl
  exact ⟨by simp [clear], by simp [clear], by simp [clear, isOnStack, hnone], by simp [clear],
    by simp [clear], by simp [clear], by simp [clear, isVisited, hnone]⟩

namespace Sound

variable (h : m.Sound g)
include h

lemma come_isVisited (hv : v < g.vertexCount) (u : Nat) :
    (m.come v).isVisited u = true ↔ u = v ∨ m.isVisited u = true := by
  rw [isVisited, come, getD_setIfInBounds _ _ _ _ (h.visited_size ▸ hv)]
  split <;> simp_all [isVisited]

/-- Coming to a new vertex from the end of the path. -/
lemma come (hv : v < g.vertexCount) (hnew : v ∉ m.path) (hedge : ∀ u ∈ m.path.getLast?, g.Edge u v) :
    (m.come v).Sound g where
  visited_size := by rw [Marks.come, Array.size_setIfInBounds, h.visited_size]
  onStack_size := by rw [Marks.come, Array.size_setIfInBounds, h.onStack_size]
  onStack_iff u := by
    rw [isOnStack, Marks.come, getD_setIfInBounds _ _ _ _ (h.onStack_size ▸ hv)]
    have hold := h.onStack_iff u
    rw [isOnStack] at hold
    split <;> simp_all
  lt := by
    simp only [Marks.come, List.forall_mem_append, List.forall_mem_singleton]
    exact ⟨h.lt, hv⟩
  nodup := by
    rw [Marks.come, ← List.concat_eq_append, List.nodup_concat]
    exact ⟨hnew, h.nodup⟩
  walk := by
    rw [Marks.come, List.isChain_append]
    exact ⟨h.walk, List.isChain_singleton v, fun u hu w hw => by simp_all⟩
  left u hu hout := by
    simp only [Marks.come, List.mem_append, List.mem_singleton, not_or] at hout
    exact h.left u (((h.come_isVisited hv u).mp hu).resolve_left hout.2) hout.1

/-- Leaving the last vertex of the path when all walks from it end. -/
lemma leave {path : List Nat} (hpath : m.path = path ++ [v]) (hends : g.Ends v) :
    (m.leave v).Sound g := by
  have hv : v < g.vertexCount := h.lt v (by simp [hpath])
  have hdrop : (m.leave v).path = path := by simp [Marks.leave, hpath]
  have hnodup := h.nodup
  rw [hpath, ← List.concat_eq_append, List.nodup_concat] at hnodup
  refine ⟨h.visited_size, ?_, fun u => ?_, fun u hu => ?_, hdrop ▸ hnodup.2, ?_, fun u hu hout => ?_⟩
  · rw [Marks.leave, Array.size_setIfInBounds, h.onStack_size]
  · have hold := h.onStack_iff u
    rw [isOnStack, hpath, List.mem_append, List.mem_singleton] at hold
    rw [isOnStack, hdrop, Marks.leave, getD_setIfInBounds _ _ _ _ (h.onStack_size ▸ hv)]
    split <;> simp_all
  · exact h.lt u (by rw [hdrop] at hu; simp [hpath, hu])
  · rw [hdrop]
    exact (List.isChain_append.mp (hpath ▸ h.walk)).1
  · rw [hdrop] at hout
    by_cases huv : u = v
    · exact huv ▸ hends
    · exact h.left u hu (by simp [hpath, hout, huv])

/-- A vertex on the stack has a place on the path, from where on the path is a cycle: the place is
found and the first vertex never stands in for it. -/
lemma closing_isCycle {path : List Nat} {w : Nat} (hpath : m.path = path ++ [v]) (hedge : g.Edge v w)
    (hw : m.isOnStack w = true) : g.IsCycle (m.closing w) := by
  obtain ⟨before, after, hsplit, hbefore⟩ := List.eq_append_cons_of_mem ((h.onStack_iff w).mp hw)
  have hplace : m.path.findIdx? (· == w) = some before.length := by
    have hnone : before.findIdx? (· == w) = none :=
      List.findIdx?_eq_none_iff.mpr fun u hu =>
        beq_eq_false_iff_ne.mpr fun heq => hbefore (heq ▸ hu)
    rw [hsplit, List.findIdx?_append, hnone, List.findIdx?_cons, beq_self_eq_true]
    simp
  have hclosing : m.closing w = w :: after ++ [w] := by
    rw [closing, hplace, Option.getD_some, hsplit, List.drop_left]
  have hwalk : (w :: after).IsChain g.Edge := (List.isChain_append.mp (hsplit ▸ h.walk)).2.1
  have hlast : (w :: after).getLast? = some v := by
    rw [← List.getLast?_append_cons before, ← hsplit, hpath, List.getLast?_concat]
  have hnodup := h.nodup
  rw [hsplit, List.nodup_append] at hnodup
  refine ⟨⟨w, after, hclosing, hnodup.2.1⟩, ?_⟩
  rw [hclosing, List.isChain_append]
  refine ⟨hwalk, List.isChain_singleton w, ?_⟩
  simpa [hlast] using hedge

end Sound

end Marks

/-- From sound marks, a visit leaves the vertex again, and all walks from it end, or finds a cycle. -/
theorem visit_ensures (hbound : g.Bounded) {depth v : Nat} {m : Marks} (hm : m.Sound g)
    (hdepth : g.vertexCount ≤ depth + m.path.length) (hv : v < g.vertexCount) (hnew : v ∉ m.path)
    (hedge : ∀ u ∈ m.path.getLast?, g.Edge u v) :
    (g.visit depth v).Ensures m
      (fun m' => m'.Sound g ∧ m'.path = m.path ∧ m'.isVisited v = true ∧
        ∀ u, m.isVisited u = true → m'.isVisited u = true) g.IsCycle := by
  induction depth generalizing m v with
  | zero =>
    have hlong := length_le_vertexCount (hm.come hv hnew hedge).nodup (hm.come hv hnew hedge).lt
    rw [Marks.come, List.length_append, List.length_singleton] at hlong
    omega
  | succ depth ih =>
    have hcome := hm.come hv hnew hedge
    have hmarked := hm.come_isVisited hv
    rw [visit]
    refine Search.ensures_modify (Search.Ensures.bind (Search.forM_ensures
      (fun done m' => m'.Sound g ∧ m'.path = m.path ++ [v] ∧
        (∀ u, (m.come v).isVisited u = true → m'.isVisited u = true) ∧ ∀ w ∈ done, g.Ends w)
      (g.successors v) ?_ [] (m.come v) ⟨hcome, rfl, fun _ => id, by simp⟩) ?_)
    · rintro done m' ⟨hm', hpath, hkept, hdone⟩ w hw
      have hsnoc : g.Ends w → ∀ u ∈ done ++ [w], g.Ends u := fun hends =>
        List.forall_mem_append.mpr ⟨hdone, List.forall_mem_singleton.mpr hends⟩
      have hedge' : g.Edge v w := hw
      refine Search.ensures_get ?_
      by_cases hstack : m'.isOnStack w = true
      · rw [if_pos hstack]
        exact Search.ensures_of_error rfl (hm'.closing_isCycle hpath hedge' hstack)
      · rw [if_neg hstack]
        have hout : w ∉ m'.path := mt (hm'.onStack_iff w).mpr hstack
        by_cases hseen : m'.isVisited w = true
        · rw [if_pos hseen]
          exact Search.ensures_of_ok rfl ⟨hm', hpath, hkept, hsnoc (hm'.left w hseen hout)⟩
        · rw [if_neg hseen]
          refine Search.Ensures.mono (ih hm' ?_ (hbound v w hedge').2 hout ?_) ?_
          · rw [hpath, List.length_append, List.length_singleton]
            omega
          · simpa [hpath] using hedge'
          · rintro m'' ⟨hm'', hpath', hw', hkept'⟩
            exact ⟨hm'', hpath'.trans hpath, fun u hu => hkept' u (hkept u hu),
              hsnoc (hm''.left w hw' (hpath' ▸ hout))⟩
    · rintro m' ⟨hm', hpath, hkept, hdone⟩
      -- all successors have been left, so walks from the vertex end with theirs
      have hends : g.Ends v := ⟨v, fun w hw => hdone w hw⟩
      refine Search.ensures_of_ok rfl ⟨hm'.leave hpath hends, by simp [Marks.leave, hpath], ?_, ?_⟩
      · exact hkept v ((hmarked v).mpr (.inl rfl))
      · exact fun u hu => hkept u ((hmarked u).mpr (.inr hu))

theorem search_ensures (hbound : g.Bounded) :
    g.search.Ensures (Marks.clear g.vertexCount) (fun _ => ∀ v < g.vertexCount, g.Ends v)
      g.IsCycle := by
  unfold search
  refine Search.Ensures.mono (Search.forM_ensures
    (fun done m => m.Sound g ∧ m.path = [] ∧ ∀ v ∈ done, g.Ends v)
    (List.range g.vertexCount) ?_ [] _ ⟨Marks.clear_sound g, rfl, by simp⟩) ?_
  · rintro done m ⟨hm, hpath, hdone⟩ v hv
    have hsnoc : g.Ends v → ∀ u ∈ done ++ [v], g.Ends u := fun hends =>
      List.forall_mem_append.mpr ⟨hdone, List.forall_mem_singleton.mpr hends⟩
    have hout : v ∉ m.path := by simp [hpath]
    refine Search.ensures_get ?_
    by_cases hseen : m.isVisited v = true
    · rw [if_pos hseen]
      exact Search.ensures_of_ok rfl ⟨hm, hpath, hsnoc (hm.left v hseen hout)⟩
    · rw [if_neg hseen]
      refine Search.Ensures.mono (visit_ensures hbound hm (Nat.le_add_right _ _)
        (List.mem_range.mp hv) hout (by simp [hpath])) ?_
      rintro m' ⟨hm', hpath', hv', -⟩
      exact ⟨hm', hpath'.trans hpath, hsnoc (hm'.left v hv' (hpath' ▸ hout))⟩
  · rintro _ ⟨-, -, hdone⟩ v hv
    exact hdone v (List.mem_range.mpr hv)

/-- No cycle is found exactly if there is none. -/
theorem findCycle_eq_none_iff (hbound : g.Bounded) :
    g.findCycle = none ↔ ∀ v, ¬Relation.TransGen g.Edge v v := by
  have hsearch := search_ensures hbound
  unfold Search.Ensures at hsearch
  unfold findCycle
  cases hrun : (g.search (Marks.clear g.vertexCount)).1 with
  | error cycle =>
    rw [hrun] at hsearch
    obtain ⟨v, hv⟩ := IsCycle.transGen hsearch
    exact ⟨by simp, fun h => absurd hv (h v)⟩
  | ok u =>
    rw [hrun] at hsearch
    refine ⟨fun _ v hv => ?_, fun _ => rfl⟩
    obtain ⟨w, hvw, -⟩ := Relation.TransGen.head'_iff.mp hv
    exact (hsearch v (hbound v w hvw).1).not_transGen hv

/-- The tables of a graph agree: a label has the number of its place and no other label has one, and
there is one list of targets for each number. -/
structure InStep (g : Digraph) : Prop where
  nodup : g.labels.Nodup
  index_iff : ∀ label v, g.index.get? label = some v ↔ g.labels[v]? = some label
  targets_length : g.targets.length = g.vertexCount

/-- The graph with exactly the given edges between labels. -/
structure Represents (g : Digraph) (pairs : List (String × String)) : Prop extends InStep g where
  edge : ∀ s t, g.Edge s t ↔
    ∃ a b, (a, b) ∈ pairs ∧ g.labels[s]? = some a ∧ g.labels[t]? = some b
  covers : ∀ a b, (a, b) ∈ pairs → a ∈ g.labels ∧ b ∈ g.labels

lemma getElem?_of_isPrefix {labels labels' : List String} (h : labels <+: labels') {i : Nat}
    {a : String} (hi : labels[i]? = some a) : labels'[i]? = some a := by
  obtain ⟨rest, rfl⟩ := h
  rw [List.getElem?_append_left (List.getElem?_eq_some_iff.mp hi).1, hi]

lemma index_unique {labels : List String} (h : labels.Nodup) {i j : Nat} {a : String}
    (hi : labels[i]? = some a) (hj : labels[j]? = some a) : i = j :=
  (List.getElem?_inj (List.getElem?_eq_some_iff.mp hi).1 h).mp (hi.trans hj.symm)

lemma getElem?_snoc {labels : List String} {label a : String} {v : Nat} :
    (labels ++ [label])[v]? = some a ↔ labels[v]? = some a ∨ v = labels.length ∧ label = a := by
  rcases Nat.lt_trichotomy v labels.length with hlt | rfl | hgt
  · rw [List.getElem?_append_left hlt]
    simp [Nat.ne_of_lt hlt]
  · simp
  · rw [List.getElem?_eq_none (Nat.le_of_lt hgt), List.getElem?_eq_none (by rw [List.length_append]; exact hgt)]
    simp [Nat.ne_of_gt hgt]

/-- A new vertex has no edges, like a number that is not one of a vertex. -/
lemma addVertex_successors (g : Digraph) (label : String) (v : Nat) :
    (g.addVertex label).1.successors v = g.successors v := by
  unfold addVertex successors
  cases g.index.get? label with
  | some v => rfl
  | none =>
    rcases Nat.lt_or_ge v g.targets.length with hlt | hge
    · rw [List.getD_append _ _ _ _ hlt]
    · rw [List.getD_append_right _ _ _ _ hge, List.getD_eq_default _ _ hge]
      cases v - g.targets.length <;> rfl

namespace InStep

variable (h : g.InStep)
include h

lemma index_isSome_iff {label : String} : (g.index.get? label).isSome ↔ label ∈ g.labels := by
  rw [Option.isSome_iff_exists, List.mem_iff_getElem?]
  exact exists_congr fun v => h.index_iff label v

/-- A label gets a number, and those given before stay. -/
lemma addVertex_spec (label : String) :
    (g.addVertex label).1.InStep ∧ g.labels <+: (g.addVertex label).1.labels ∧
      (g.addVertex label).1.labels[(g.addVertex label).2]? = some label := by
  unfold addVertex
  cases hidx : g.index.get? label with
  | some v => exact ⟨h, List.prefix_rfl, (h.index_iff label v).mp hidx⟩
  | none =>
    have hnew : label ∉ g.labels := by
      rw [← h.index_isSome_iff, hidx]
      simp
    refine ⟨⟨?_, fun a v => ?_, ?_⟩, List.prefix_append _ _, by simp⟩
    · rw [← List.concat_eq_append, List.nodup_concat]
      exact ⟨hnew, h.nodup⟩
    · rw [Table.get?_insert, getElem?_snoc]
      by_cases ha : label = a
      · subst ha
        have hnone : g.labels[v]? ≠ some label := fun hv => hnew (List.mem_of_getElem? hv)
        simp [hnone, eq_comm]
      · simp [ha, h.index_iff]
    · simp [vertexCount, h.targets_length]

/-- Labels, numbers and the number of lists do not depend on what the lists hold. -/
lemma modify (s : Nat) (f : List Nat → List Nat) :
    InStep { g with targets := g.targets.modify s f } :=
  ⟨h.nodup, h.index_iff, (List.length_modify f g.targets s).trans h.targets_length⟩

end InStep

lemma mem_enter {n x : Nat} {ns : List Nat} : x ∈ enter n ns ↔ x = n ∨ x ∈ ns := by
  induction ns with
  | nil => simp [enter]
  | cons m ms ih =>
    unfold enter
    split
    · simp
    · split
      · next heq => simp [heq]
      · simp only [List.mem_cons, ih]
        tauto

/-- Entering a target changes the list of one vertex. -/
lemma successors_modify {targets : List (List Nat)} {s : Nat} (hs : s < targets.length)
    (f : List Nat → List Nat) (x : Nat) :
    (targets.modify s f).getD x [] = if x = s then f (targets.getD s []) else targets.getD x [] := by
  by_cases hx : x = s
  · subst hx
    simp [List.getD_eq_getElem?_getD, hs]
  · simp [List.getD_eq_getElem?_getD, hx, Ne.symm hx]

/-- A label more changes no edge: those that are mentioned had their labels before. -/
lemma Represents.addVertex {pairs : List (String × String)} (h : g.Represents pairs)
    (label : String) : (g.addVertex label).1.Represents pairs := by
  obtain ⟨hstep, hlonger, -⟩ := h.toInStep.addVertex_spec label
  refine ⟨hstep, fun s t => ?_, fun a b hab => ?_⟩
  · rw [Edge, addVertex_successors, ← Edge, h.edge]
    constructor
    · rintro ⟨a, b, hab, hs, ht⟩
      exact ⟨a, b, hab, getElem?_of_isPrefix hlonger hs, getElem?_of_isPrefix hlonger ht⟩
    · rintro ⟨a, b, hab, hs, ht⟩
      obtain ⟨ha, hb⟩ := h.covers a b hab
      obtain ⟨i, hi⟩ := List.mem_iff_getElem?.mp ha
      obtain ⟨j, hj⟩ := List.mem_iff_getElem?.mp hb
      obtain rfl := index_unique hstep.nodup hs (getElem?_of_isPrefix hlonger hi)
      obtain rfl := index_unique hstep.nodup ht (getElem?_of_isPrefix hlonger hj)
      exact ⟨a, b, hab, hi, hj⟩
  · exact (h.covers a b hab).imp (hlonger.subset ·) (hlonger.subset ·)

/-- One more edge between vertices of the graph. -/
lemma Represents.enter {pairs : List (String × String)} (h : g.Represents pairs) {s t : Nat}
    {a b : String} (hs : g.labels[s]? = some a) (ht : g.labels[t]? = some b) :
    Represents { g with targets := g.targets.modify s (enter t) } (pairs ++ [(a, b)]) := by
  have hlt : s < g.targets.length := by
    rw [h.targets_length]
    exact (List.getElem?_eq_some_iff.mp hs).1
  refine ⟨h.toInStep.modify s _, fun x y => ?_, fun a' b' hab => ?_⟩
  · have hedge : y ∈ (g.targets.modify s (Digraph.enter t)).getD x [] ↔
        g.Edge x y ∨ (x, y) = (s, t) := by
      rw [successors_modify hlt]
      split
      · next hx => simp [mem_enter, hx, Edge, successors, or_comm]
      · next hx => simp [hx, Edge, successors]
    refine hedge.trans ?_
    rw [h.edge]
    constructor
    · rintro (⟨a', b', hmem, hx, hy⟩ | heq)
      · exact ⟨a', b', List.mem_append_left _ hmem, hx, hy⟩
      · cases heq
        exact ⟨a, b, by simp, hs, ht⟩
    · rintro ⟨a', b', hmem, hx, hy⟩
      rcases List.mem_append.mp hmem with hmem | hmem
      · exact .inl ⟨a', b', hmem, hx, hy⟩
      · cases List.mem_singleton.mp hmem
        rw [index_unique h.nodup hx hs, index_unique h.nodup hy ht]
        exact .inr rfl
  · rcases List.mem_append.mp hab with hab | hab
    · exact h.covers a' b' hab
    · cases List.mem_singleton.mp hab
      exact ⟨List.mem_of_getElem? hs, List.mem_of_getElem? ht⟩

lemma Represents.addEdge {pairs : List (String × String)} (h : g.Represents pairs) (a b : String) :
    (g.addEdge a b).Represents (pairs ++ [(a, b)]) := by
  have ha := h.addVertex a
  obtain ⟨-, -, hs⟩ := h.toInStep.addVertex_spec a
  obtain ⟨-, hlonger, ht⟩ := ha.toInStep.addVertex_spec b
  exact (ha.addVertex b).enter (getElem?_of_isPrefix hlonger hs) ht

lemma represents_empty : Represents {} [] :=
  ⟨⟨List.nodup_nil, by simp [Table.get?, Table.lookup], rfl⟩, by simp [Edge, successors], by simp⟩

lemma ofEdges_represents (pairs : List (String × String)) : (ofEdges pairs).Represents pairs := by
  have hfold : ∀ (rest done : List (String × String)) (g : Digraph), g.Represents done →
      (rest.foldl (fun g e => g.addEdge e.1 e.2) g).Represents (done ++ rest) := by
    intro rest
    induction rest with
    | nil =>
      intro done g hg
      rwa [List.append_nil]
    | cons e rest ih =>
      intro done g hg
      have hnext := ih (done ++ [e]) (g.addEdge e.1 e.2) (hg.addEdge e.1 e.2)
      rwa [List.append_assoc] at hnext
  exact hfold pairs [] {} represents_empty

lemma Represents.bounded {pairs : List (String × String)} (h : g.Represents pairs) : g.Bounded := by
  intro s t hst
  obtain ⟨a, b, -, hs, ht⟩ := (h.edge s t).mp hst
  exact ⟨(List.getElem?_eq_some_iff.mp hs).1, (List.getElem?_eq_some_iff.mp ht).1⟩

/-- Labels lie on a cycle exactly if their numbers do. -/
lemma Represents.acyclic_iff {pairs : List (String × String)} (h : g.Represents pairs) :
    (∀ v, ¬Relation.TransGen g.Edge v v) ↔
      ∀ x, ¬Relation.TransGen (fun a b => (a, b) ∈ pairs) x x := by
  constructor
  · intro hnone x hx
    refine hnone (g.labels.idxOf x) (Relation.TransGen.lift (g.labels.idxOf ·) ?_ x x hx)
    intro a b hab
    obtain ⟨ha, hb⟩ := h.covers a b hab
    exact (h.edge _ _).mpr ⟨a, b, hab, List.getElem?_idxOf ha, List.getElem?_idxOf hb⟩
  · intro hnone v hv
    refine hnone (g.labels.getD v "") (Relation.TransGen.lift (g.labels.getD · "") ?_ v v hv)
    intro s t hst
    obtain ⟨a, b, hab, hs, ht⟩ := (h.edge s t).mp hst
    simpa [Function.onFun, List.getD_eq_getElem?_getD, hs, ht] using hab

lemma Represents.findCycle_eq_none_iff {pairs : List (String × String)} (h : g.Represents pairs) :
    g.findCycle = none ↔ ∀ x, ¬Relation.TransGen (fun a b => (a, b) ∈ pairs) x x := by
  rw [Digraph.findCycle_eq_none_iff h.bounded, h.acyclic_iff]

/-- The search finds no cycle exactly if the pairs of labels form none. -/
theorem ofEdges_findCycle_eq_none_iff (pairs : List (String × String)) :
    (ofEdges pairs).findCycle = none ↔
      ∀ x, ¬Relation.TransGen (fun a b => (a, b) ∈ pairs) x x :=
  (ofEdges_represents pairs).findCycle_eq_none_iff

end Digraph

end LoopSafety
