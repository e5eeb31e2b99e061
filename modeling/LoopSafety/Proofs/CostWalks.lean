import Mathlib.Data.List.Nodup
import Mathlib.Logic.Relation
import LoopSafety.Cost.Profile
import LoopSafety.Proofs.KernelFiles

/-! What the cost walk counts.

A visit counts a construct and visits its parts, some of them at another weight, and ends with the
weight that it found. So the parts of a construct are met in the order in which registration lists
them, each at a weight that what stands before it has no influence on, and an operator or a function
has a count exactly if a construct that is met applies it. -/
namespace LoopSafety

namespace Table

variable {κ α : Type} [DecidableEq κ]

lemma mem_keys_insert {t : Table κ α} {key k : κ} {value : α} :
    k ∈ (t.insert key value).keys ↔ k ∈ t.keys ∨ key = k := by
  rw [keys_insert]
  split
  · next hmem => exact ⟨.inl, fun h => h.elim id fun h => h ▸ hmem⟩
  · rw [List.mem_append, List.mem_singleton, eq_comm]

lemma keys_insert_nodup {t : Table κ α} (h : t.keys.Nodup) (key : κ) (value : α) :
    (t.insert key value).keys.Nodup := by
  rw [keys_insert]
  split
  · exact h
  · next hnew =>
    rw [← List.concat_eq_append, List.nodup_concat]
    exact ⟨hnew, h⟩

end Table

namespace Node

variable {ρ σ : Type}

def operator? : Node ρ → Option BinaryOp
  | binary op _ _ _ => some op
  | _ => none

def function? : Node ρ → Option MathFn
  | math fn _ _ => some fn
  | _ => none

lemma operator?_eq_some {node : Node ρ} {op : BinaryOp} :
    node.operator? = some op ↔ ∃ left right ty, node = .binary op left right ty := by
  cases node <;> simp [operator?]

lemma function?_eq_some {node : Node ρ} {fn : MathFn} :
    node.function? = some fn ↔ ∃ args ty, node = .math fn args ty := by
  cases node <;> simp [function?]

/-- What a construct is counted as, apart from its parts. -/
def tally : Node ρ → Float → Profile → Profile
  | binary op _ _ _ => Profile.binary op
  | access _ _ => Profile.access
  | builtin .. | cond .. => Profile.conditional
  | math fn _ _ => Profile.math fn
  | forLoop .. => Profile.forLoop
  | assign .. => Profile.assign
  | brk => Profile.brk
  | _ => fun _ counts => counts

lemma children_map (f : ρ → σ) (node : Node ρ) : (node.map f).children = node.children.map f := by
  cases node with
  | cond condition thenPart elsePart ty => cases elsePart <;> rfl
  | _ => rfl

end Node

/-- Counts by keys, and the key that a construct is counted under. -/
structure Census (κ : Type) where
  keys : Profile → List κ
  key? : {ρ : Type} → Node ρ → Option κ
  key?_map : ∀ {ρ σ : Type} (f : ρ → σ) (node : Node ρ), key? (node.map f) = key? node
  keys_empty : keys {} = []
  mem_tally : ∀ {ρ : Type} (node : Node ρ) weight counts k,
    k ∈ keys (node.tally weight counts) ↔ k ∈ keys counts ∨ key? node = some k
  tally_nodup : ∀ {ρ : Type} (node : Node ρ) weight counts,
    (keys counts).Nodup → (keys (node.tally weight counts)).Nodup

namespace Census

def operators : Census BinaryOp where
  keys counts := counts.binaryCounts.keys
  key? := Node.operator?
  key?_map _ node := by cases node <;> rfl
  keys_empty := rfl
  mem_tally node weight counts k := by
    cases node with
    | binary op =>
      rw [Node.operator?, Option.some_inj]
      exact Table.mem_keys_insert
    | _ => simp [Node.operator?, Node.tally, Profile.access, Profile.conditional, Profile.math,
        Profile.forLoop, Profile.assign, Profile.brk]
  tally_nodup node weight counts h := by
    cases node with
    | binary op => exact Table.keys_insert_nodup h _ _
    | _ => exact h

def functions : Census MathFn where
  keys counts := counts.mathCounts.keys
  key? := Node.function?
  key?_map _ node := by cases node <;> rfl
  keys_empty := rfl
  mem_tally node weight counts k := by
    cases node with
    | math fn =>
      rw [Node.function?, Option.some_inj]
      exact Table.mem_keys_insert
    | _ => simp [Node.function?, Node.tally, Profile.access, Profile.conditional, Profile.binary,
        Profile.forLoop, Profile.assign, Profile.brk]
  tally_nodup node weight counts h := by
    cases node with
    | math fn => exact Table.keys_insert_nodup h _ _
    | _ => exact h

end Census

namespace Walk

variable {κ : Type} {census : Census κ}

/-- A part of a walk that meets some constructs: it counts them and no others, and it leaves the
weight as it was. -/
structure Meets (census : Census κ) (met : List Occurrence) (w w' : Walk) : Prop where
  weight : w'.weight = w.weight
  keys : ∀ k, k ∈ census.keys w'.profile ↔
    k ∈ census.keys w.profile ∨ ∃ o ∈ met, census.key? o.term.node = some k
  nodup : (census.keys w.profile).Nodup → (census.keys w'.profile).Nodup

namespace Meets

variable {met met' : List Occurrence} {w w' w'' : Walk}

lemma refl (w : Walk) : Meets census [] w w := ⟨rfl, by simp, id⟩

lemma append (h : Meets census met w w') (h' : Meets census met' w' w'') :
    Meets census (met ++ met') w w'' := by
  refine ⟨h'.weight.trans h.weight, fun k => ?_, h'.nodup ∘ h.nodup⟩
  rw [h'.keys, h.keys, or_assoc]
  simp only [List.mem_append, or_and_right, exists_or]

/-- A construct by itself. -/
lemma own (o : Occurrence) (w : Walk) : Meets census [o] w (w.count o.term.node.tally) := by
  refine ⟨rfl, fun k => (census.mem_tally _ _ _ k).trans ?_, census.tally_nodup _ _ _⟩
  simp

/-- A part at another weight, after which the weight is set back. -/
lemma reweighed {weight old : Float} (h : Meets census met (w.withWeight weight) w')
    (hold : old = w.weight) : Meets census met w (w'.withWeight old) :=
  ⟨hold, h.keys, h.nodup⟩

end Meets

section

variable (census) (p : Program) (ctx : Context)

mutual

theorem visit_meets : ∀ (t : Term) (loops : List LoopId) (w : Walk),
    Meets census (t.occurrences loops) w (visit p ctx t w)
  | .mk _ (.literal _), _, w | .mk _ (.var ..), _, w | .mk _ .brk, _, w => .own _ w
  | .mk _ (.binary _ left right _), loops, w | .mk _ (.assign left right), loops, w
  | .mk _ (.whileLoop left right), loops, w =>
    (Meets.own _ w).append ((visit_meets left loops _).append (visit_meets right loops _))
  | .mk _ (.unary _ operand _), loops, w | .mk _ (.ret operand), loops, w =>
    (Meets.own _ w).append (visit_meets operand loops w)
  | .mk _ (.access _ parts), loops, w | .mk _ (.builtin _ parts _), loops, w
  | .mk _ (.math _ parts _), loops, w | .mk _ (.block parts), loops, w
  | .mk _ (.call _ parts), loops, w =>
    (Meets.own _ w).append (visitAll_meets parts loops _)
  | .mk _ (.cond condition thenPart none _), loops, w =>
    have htested := visit_meets condition loops (w.count Profile.conditional)
    (Meets.own _ w).append
      (htested.append ((visit_meets thenPart loops _).reweighed htested.weight.symm))
  | .mk _ (.cond condition thenPart (some elsePart) _), loops, w => by
    have htested := visit_meets condition loops (w.count Profile.conditional)
    rw [Term.occurrences, Term.nodeOccurrences, List.append_assoc]
    exact (Meets.own _ w).append (htested.append
      (((visit_meets thenPart loops _).append (visit_meets elsePart loops _)).reweighed
        htested.weight.symm))
  | .mk _ (.forLoop loop body), loops, w =>
    (Meets.own _ w).append ((visit_meets body (loops ++ [loop]) _).reweighed rfl)

theorem visitAll_meets : ∀ (ts : List Term) (loops : List LoopId) (w : Walk),
    Meets census (Term.listOccurrences loops ts) w (visitAll p ctx ts w)
  | [], _, w => .refl w
  | t :: ts, loops, w => by
    rw [Term.listOccurrences, visitAll]
    exact (visit_meets t loops w).append (visitAll_meets ts loops _)

end

end

end Walk

namespace Term

/-- The second construct is the first one or part of it. -/
def Contains : Term → Term → Prop := Relation.ReflTransGen fun t part => part ∈ t.children

lemma Contains.exists_occurrence {t u : Term} (h : t.Contains u) (loops : List LoopId) :
    ∃ o ∈ t.occurrences loops, o.term = u := by
  induction h using Relation.ReflTransGen.head_induction_on generalizing loops with
  | refl =>
    obtain ⟨id, node⟩ := u
    exact ⟨⟨.mk id node, loops⟩, List.mem_cons_self, rfl⟩
  | @head t part hpart _ ih =>
    obtain ⟨id, node⟩ := t
    obtain ⟨o, ho, hterm⟩ := ih (loops ++ node.opened)
    refine ⟨o, List.mem_cons_of_mem _ ?_, hterm⟩
    rw [nodeOccurrences_eq, mem_listOccurrences]
    exact ⟨part, hpart, ho⟩

lemma Within.contains_of_mem {p : Program} {t : Term} (h : t.Within p) {loops : List LoopId}
    {o : Occurrence} (ho : o ∈ t.occurrences loops) : t.Contains o.term := by
  induction h generalizing loops with
  | mk _ _ _ ih =>
    rw [Term.occurrences, List.mem_cons, nodeOccurrences_eq, mem_listOccurrences] at ho
    obtain rfl | ⟨part, hpart, ho⟩ := ho
    · exact .refl
    · exact .head hpart (ih part (Node.mem_references_of_mem_children hpart) ho)

lemma Within.of_contains {p : Program} {t u : Term} (h : t.Within p) (hu : t.Contains u) :
    u.Within p := by
  induction hu with
  | refl => exact h
  | tail _ hpart ih => exact ih.child hpart

lemma Within.linked {p : Program} {t part : Term} (h : t.Within p) (hpart : part ∈ t.children) :
    p.term? part.id = some part := by
  cases h with
  | mk _ linked _ => exact linked part (Node.mem_references_of_mem_children hpart)

end Term

/-- Nodes of a table lead to their parts, and on to the parts of these. -/
def Node.Leads (nodes : List (Node NodeId)) : NodeId → NodeId → Prop :=
  Relation.ReflTransGen fun id part => ∃ node, nodes[id.toNat]? = some node ∧ part ∈ node.children

namespace Program.Holds

variable {nodes : List (Node NodeId)} {tables p : Program} (h : Holds tables nodes p)
include h

lemma within {id : NodeId} {t : Term} (ht : p.term? id = some t) : t.Within p :=
  h.resolved.within t (Array.mem_of_getElem? ht)

lemma term?_of_contains {root : NodeId} {t u : Term} (ht : p.term? root = some t)
    (hu : t.Contains u) : p.term? u.id = some u := by
  cases hu.cases_tail with
  | inl heq => rw [heq, h.resolved.id_eq ht, ht]
  | inr hparent =>
    obtain ⟨v, hv, hpart⟩ := hparent
    exact ((h.within ht).of_contains hv).linked hpart

/-- The table leads to the numbers of the constructs that a tree contains. -/
lemma leads_iff {root id : NodeId} {t : Term} (ht : p.term? root = some t) :
    Node.Leads nodes root id ↔ ∃ u, t.Contains u ∧ p.term? id = some u := by
  constructor
  · intro hleads
    induction hleads with
    | refl => exact ⟨t, .refl, ht⟩
    | tail _ hpart ih =>
      obtain ⟨u, hu, hid⟩ := ih
      obtain ⟨node, hnode, hpart⟩ := hpart
      rw [h.getElem?_nodes, hid, Option.map_some, Option.some_inj] at hnode
      rw [← hnode, Term.flat, Node.children_map] at hpart
      obtain ⟨part, hmem, rfl⟩ := List.mem_map.mp hpart
      exact ⟨part, hu.tail hmem, (h.within hid).linked hmem⟩
  · rintro ⟨u, hu, hid⟩
    rw [← h.resolved.id_eq hid]
    clear hid
    induction hu with
    | refl =>
      rw [h.resolved.id_eq ht]
      exact .refl
    | @tail v part hv hpart ih =>
      refine ih.tail ⟨v.flat, by rw [h.getElem?_nodes, h.term?_of_contains ht hv]; rfl, ?_⟩
      rw [Term.flat, Node.children_map]
      exact List.mem_map_of_mem hpart

end Program.Holds

namespace Context

variable {nodes : List (Node NodeId)} {tables p : Program} {root : NodeId} {t : Term}

/-- A walk has counts for the nodes that the table leads to from the root. -/
lemma mem_keys_visit_iff {κ : Type} (census : Census κ) (h : Program.Holds tables nodes p)
    (ctx : Context) (ht : p.term? root = some t) {k : κ} :
    k ∈ census.keys (Walk.visit p ctx t {}).profile ↔
      ∃ id node, Node.Leads nodes root id ∧ nodes[id.toNat]? = some node ∧ census.key? node = some k := by
  have hmet := Walk.visit_meets census p ctx t [] {}
  have hempty : k ∉ census.keys ({} : Walk).profile := by
    rw [show ({} : Walk).profile = {} from rfl, census.keys_empty]
    exact List.not_mem_nil
  rw [hmet.keys, or_iff_right hempty]
  constructor
  · rintro ⟨o, ho, hkey⟩
    have hcontains := (h.within ht).contains_of_mem ho
    have hterm := h.term?_of_contains ht hcontains
    refine ⟨o.term.id, o.term.flat, (h.leads_iff ht).mpr ⟨o.term, hcontains, hterm⟩, ?_, ?_⟩
    · rw [h.getElem?_nodes, hterm, Option.map_some]
    · rw [Term.flat, census.key?_map, hkey]
  · rintro ⟨id, node, hleads, hnode, hkey⟩
    obtain ⟨u, hcontains, hid⟩ := (h.leads_iff ht).mp hleads
    rw [h.getElem?_nodes, hid, Option.map_some, Option.some_inj] at hnode
    rw [← hnode, Term.flat, census.key?_map] at hkey
    obtain ⟨o, ho, rfl⟩ := hcontains.exists_occurrence []
    exact ⟨o, ho, hkey⟩

/-- The cost walk leaves every construct with the weight that it came with. In a profile of a node of
a table, the operators and functions with a count are those of the nodes that the table leads to. -/
theorem counts_of_reachable_operations {loops : List LoopInfo} {arrays : List Binding}
    {functions : List FunctionDef} (h : Program.ofTables nodes loops arrays functions = .ok p)
    (ctx : Context) (hroot : root.toNat < nodes.length) :
    (∀ u w, (Walk.visit p ctx u w).weight = w.weight) ∧
    (∀ us w, (Walk.visitAll p ctx us w).weight = w.weight) ∧
    ∃ t, p.term? root = some t ∧
      (ctx.profile p t).binaryCounts.keys.Nodup ∧ (ctx.profile p t).mathCounts.keys.Nodup ∧
      (∀ op, op ∈ (ctx.profile p t).binaryCounts.keys ↔ ∃ id left right ty,
        Node.Leads nodes root id ∧ nodes[id.toNat]? = some (.binary op left right ty)) ∧
      ∀ fn, fn ∈ (ctx.profile p t).mathCounts.keys ↔ ∃ id args ty,
        Node.Leads nodes root id ∧ nodes[id.toNat]? = some (.math fn args ty) := by
  have hholds := Program.ofTables_holds h
  obtain ⟨t, ht⟩ := Option.isSome_iff_exists.mp (hholds.term?_isSome_iff.mpr hroot)
  refine ⟨fun u w => (Walk.visit_meets .operators p ctx u [] w).weight,
    fun us w => (Walk.visitAll_meets .operators p ctx us [] w).weight, t, ht,
    (Walk.visit_meets .operators p ctx t [] {}).nodup List.nodup_nil,
    (Walk.visit_meets .functions p ctx t [] {}).nodup List.nodup_nil, fun op => ?_, fun fn => ?_⟩
  · refine (mem_keys_visit_iff .operators hholds ctx ht).trans (exists_congr fun id => ⟨?_, ?_⟩)
    · rintro ⟨node, hleads, hnode, hop⟩
      obtain ⟨left, right, ty, rfl⟩ := Node.operator?_eq_some.mp hop
      exact ⟨left, right, ty, hleads, hnode⟩
    · rintro ⟨left, right, ty, hleads, hnode⟩
      exact ⟨_, hleads, hnode, rfl⟩
  · refine (mem_keys_visit_iff .functions hholds ctx ht).trans (exists_congr fun id => ⟨?_, ?_⟩)
    · rintro ⟨node, hleads, hnode, hfn⟩
      obtain ⟨args, ty, rfl⟩ := Node.function?_eq_some.mp hfn
      exact ⟨args, ty, hleads, hnode⟩
    · rintro ⟨args, ty, hleads, hnode⟩
      exact ⟨_, hleads, hnode, rfl⟩

end Context

/-! A block of a loop and `i / 1` after it. The loop has in it `if i < 1` the root of `k + 1`, and `k`
is defined as `i * 1`. -/
namespace Rooting

def nodes : List (Node NodeId) :=
  [.var "i" .int none, .literal (.int 1), .binary .mul ⟨0⟩ ⟨1⟩ .int, .var "k" .int (some ⟨2⟩),
   .binary .add ⟨3⟩ ⟨1⟩ .int, .math .sqrt [⟨4⟩] .double, .binary .lessThan ⟨0⟩ ⟨1⟩ .bool,
   .cond ⟨6⟩ ⟨5⟩ none .none, .forLoop ⟨0⟩ ⟨7⟩, .binary .div ⟨0⟩ ⟨1⟩ .int, .block [⟨8⟩, ⟨9⟩]]

def loops : List LoopInfo := [⟨"i", .int, .simple ⟨0, 8, 1⟩⟩]

lemma program_isSome : (Program.ofTables nodes loops [] []).toOption.isSome := by decide +kernel

def program : Program := (Program.ofTables nodes loops [] []).toOption.get program_isSome

def root : Term := (program.term? ⟨10⟩).get (by decide +kernel)

/-- The operations under the condition and after the loop are counted. The definition of `k` is not
part of it and not counted. -/
theorem definition_not_counted :
    Program.ofTables nodes loops [] [] = .ok program ∧ program.term? ⟨10⟩ = some root ∧
    ((({} : Context).profile program root).binaryCounts.keys = [.lessThan, .add, .div]) ∧
    (∃ id left right ty, Node.Leads nodes ⟨10⟩ id ∧
      nodes[id.toNat]? = some (.binary .add left right ty)) ∧
    (∃ id args ty, Node.Leads nodes ⟨10⟩ id ∧ nodes[id.toNat]? = some (.math .sqrt args ty)) ∧
    (¬∃ id left right ty, Node.Leads nodes ⟨10⟩ id ∧
      nodes[id.toNat]? = some (.binary .mul left right ty)) ∧
    ∀ w, (Walk.visit program {} root w).weight = w.weight := by
  have hprogram : Program.ofTables nodes loops [] [] = .ok program := eq_ok_get program_isSome
  have hroot : program.term? ⟨10⟩ = some root := (Option.some_get _).symm
  have hkeys : (({} : Context).profile program root).binaryCounts.keys = [.lessThan, .add, .div] := by
    decide +kernel
  have hfunctions : (({} : Context).profile program root).mathCounts.keys = [.sqrt] := by
    decide +kernel
  have hlength : (⟨10⟩ : NodeId).toNat < nodes.length := by decide
  obtain ⟨hweight, -, t, ht, -, -, hops, hfns⟩ :=
    Context.counts_of_reachable_operations hprogram {} hlength
  cases hroot.symm.trans ht
  rw [hkeys] at hops
  rw [hfunctions] at hfns
  exact ⟨hprogram, hroot, hkeys, (hops .add).mp (by decide), (hfns .sqrt).mp (by decide),
    mt (hops .mul).mpr (by decide), hweight root⟩

end Rooting

end LoopSafety
