import LoopSafety.Proofs.Scanning

/-! Handles that lead into the tables of a program.

A tree lies within a program if every handle in it does, down to the definitions of its variables.
In a program that is read from tables all trees do, and so do the parts of its loops and the results
of its functions. What such trees say does not change if more entries follow in the tables. -/
namespace LoopSafety

/-- If all steps over a list succeed, each does. -/
lemma forM_eq_ok {ε α : Type} {f : α → Except ε PUnit} {xs : List α} (h : xs.forM f = .ok ()) :
    ∀ x ∈ xs, f x = .ok () := by
  induction xs with
  | nil => simp
  | cons x xs ih =>
    obtain ⟨_, hx, hxs⟩ := bind_eq_ok h
    exact List.forall_mem_cons.mpr ⟨hx, ih hxs⟩

lemma exists_of_mapM_eq_ok {ε α β : Type} {f : α → Except ε β} {xs : List α} {ys : List β}
    (h : xs.mapM f = .ok ys) : ∀ y ∈ ys, ∃ x, f x = .ok y := by
  induction xs generalizing ys with
  | nil =>
    cases h
    simp
  | cons x xs ih =>
    rw [List.mapM_cons] at h
    obtain ⟨y, hy, h⟩ := bind_eq_ok h
    obtain ⟨ys, hys, h⟩ := bind_eq_ok h
    cases h
    exact List.forall_mem_cons.mpr ⟨⟨x, hy⟩, ih hys⟩

lemma exists_of_optionMapM_eq_ok {ε α β : Type} {f : α → Except ε β} {x : Option α} {y : Option β}
    (h : x.mapM f = .ok y) : ∀ b ∈ y.toList, ∃ a, f a = .ok b := by
  cases x with
  | none =>
    cases h
    simp
  | some a =>
    obtain ⟨b, hb, h⟩ := bind_eq_ok h
    cases h
    simpa using ⟨a, hb⟩

namespace Node

variable {ρ σ : Type}

/-- All constructs that a construct refers to, the definition of a variable included. -/
def references : Node ρ → List ρ
  | var _ _ definition => definition.toList
  | node => node.children

/-- The loop that a construct opens around its parts. -/
def opened : Node ρ → List LoopId
  | forLoop loop _ => [loop]
  | _ => []

lemma mem_references_of_mem_children {node : Node ρ} {r : ρ} (h : r ∈ node.children) :
    r ∈ node.references := by
  cases node with
  | var => cases h
  | _ => exact h

/-- Replacing references keeps the table entry that a construct names. -/
lemma mapM_eq_ok {ε : Type} {f : ρ → Except ε σ} {node : Node ρ} {node' : Node σ}
    (h : node.mapM f = .ok node') :
    node'.handle? = node.handle? ∧ ∀ t ∈ node'.references, ∃ r, f r = .ok t := by
  cases node with
  | literal | brk =>
    cases h
    simp [references, children, handle?]
  | var name ty definition =>
    obtain ⟨d, hd, h⟩ := bind_eq_ok h
    cases h
    exact ⟨rfl, exists_of_optionMapM_eq_ok hd⟩
  | binary | whileLoop | assign =>
    obtain ⟨l, hl, h⟩ := bind_eq_ok h
    obtain ⟨r, hr, h⟩ := bind_eq_ok h
    cases h
    exact ⟨rfl, by simpa [references, children] using ⟨⟨_, hl⟩, _, hr⟩⟩
  | unary | forLoop | ret =>
    obtain ⟨x, hx, h⟩ := bind_eq_ok h
    cases h
    exact ⟨rfl, by simpa [references, children] using ⟨_, hx⟩⟩
  | access | builtin | math | block | call =>
    obtain ⟨xs, hxs, h⟩ := bind_eq_ok h
    cases h
    exact ⟨rfl, exists_of_mapM_eq_ok hxs⟩
  | cond =>
    obtain ⟨c, hc, h⟩ := bind_eq_ok h
    obtain ⟨t, ht, h⟩ := bind_eq_ok h
    obtain ⟨e, he, h⟩ := bind_eq_ok h
    cases h
    refine ⟨rfl, List.forall_mem_cons.mpr ⟨⟨_, hc⟩, List.forall_mem_cons.mpr ⟨⟨_, ht⟩, ?_⟩⟩⟩
    exact exists_of_optionMapM_eq_ok he

end Node

namespace Program

variable {p : Program}

@[simp] lemma inTable_node {id : NodeId} : p.inTable (.node id) = true ↔ (p.term? id).isSome := by
  simp [inTable, term?]

@[simp] lemma inTable_loop {id : LoopId} : p.inTable (.loop id) = true ↔ (p.loop? id).isSome := by
  simp [inTable, loop?]

@[simp] lemma inTable_array {id : ArrayId} : p.inTable (.array id) = true ↔ (p.array? id).isSome := by
  simp [inTable, array?]

@[simp] lemma inTable_function {id : FunctionId} :
    p.inTable (.function id) = true ↔ (p.function? id).isSome := by
  simp [inTable, function?]

end Program

/-- Every handle in a tree leads into the tables of a program, and the number of every construct that
it refers to leads back to this construct. -/
inductive Term.Within (p : Program) : Term → Prop
  | mk {id : NodeId} {node : Node Term} (entry : ∀ h ∈ node.handle?, p.inTable h = true)
      (linked : ∀ t ∈ node.references, p.term? t.id = some t)
      (parts : ∀ t ∈ node.references, Term.Within p t) : Term.Within p (.mk id node)

namespace Term.Within

variable {p q : Program} {id : NodeId}

lemma mono (hterm : ∀ id t, p.term? id = some t → q.term? id = some t)
    (htable : ∀ h, p.inTable h = true → q.inTable h = true) {t : Term} (h : t.Within p) :
    t.Within q := by
  induction h with
  | mk entry linked _ ih =>
    exact ⟨fun h hh => htable h (entry h hh), fun t ht => hterm t.id t (linked t ht), ih⟩

lemma array {array : ArrayId} {indices : List Term} (h : (Term.mk id (.access array indices)).Within p) :
    (p.array? array).isSome := by
  cases h with
  | mk entry _ _ => simpa using entry (.array array) rfl

lemma loop {loop : LoopId} {body : Term} (h : (Term.mk id (.forLoop loop body)).Within p) :
    (p.loop? loop).isSome := by
  cases h with
  | mk entry _ _ => simpa using entry (.loop loop) rfl

lemma function {function : FunctionId} {args : List Term}
    (h : (Term.mk id (.call function args)).Within p) : (p.function? function).isSome := by
  cases h with
  | mk entry _ _ => simpa using entry (.function function) rfl

lemma reference {t part : Term} (h : t.Within p) (hpart : part ∈ t.node.references) :
    part.Within p := by
  cases h with
  | mk _ _ parts => exact parts part hpart

lemma child {t part : Term} (h : t.Within p) (hpart : part ∈ t.children) : part.Within p :=
  h.reference (Node.mem_references_of_mem_children hpart)

end Term.Within

namespace Program

/-- Every handle in the tables of a program leads into them. -/
structure Closed (p : Program) : Prop where
  terms : ∀ t ∈ p.terms, t.Within p
  ranges : ∀ info ∈ p.loops, ∀ id ∈ rangeParts info.range, (p.term? id).isSome
  results : ∀ f ∈ p.functions, (p.term? f.ret).isSome

lemma Closed.term {p : Program} (h : p.Closed) {id : NodeId} {t : Term} (ht : p.term? id = some t) :
    t.Within p :=
  h.terms t (Array.mem_of_getElem? ht)

/-- The trees of a program have the numbers of their positions, and all handles in them lead into its
tables. -/
structure Resolved (p : Program) : Prop where
  numbered : ∀ (i : Nat) (t : Term), p.terms[i]? = some t → t.id = .ofNat i
  within : ∀ t ∈ p.terms, t.Within p

lemma Resolved.term?_id {p : Program} (h : p.Resolved) {id : NodeId} {t : Term}
    (ht : p.term? id = some t) : p.term? t.id = some t := by
  have hid : t.id = id := by
    rw [h.numbered id.toNat t ht]
    exact congrArg NodeId.mk UInt32.ofNat_toNat
  rw [hid, ht]

variable {p p' : Program} {total : Nat} {node : Node NodeId}

lemma checkHandle_eq_ok {owner : String} {handle : Option Handle}
    (h : p.checkHandle owner handle = .ok ()) : ∀ h ∈ handle, p.inTable h = true := by
  intro x hx
  cases hx
  simp only [checkHandle] at h
  split at h
  · next hin => exact hin
  · cases h

lemma checkNode_eq_ok {owner : String} {id : NodeId} (h : p.checkNode owner id = .ok ()) :
    (p.term? id).isSome := by
  simpa using checkHandle_eq_ok h (.node id) rfl

/-- A construct is appended only if everything that it refers to is there. -/
lemma resolveNode_eq_ok (h : p.resolveNode total node = .ok p') :
    ∃ resolved : Node Term, p' = { p with terms := p.terms.push ⟨.ofNat p.terms.size, resolved⟩ } ∧
      (∀ h ∈ resolved.handle?, p.inTable h = true) ∧
      ∀ t ∈ resolved.references, ∃ id, p.term? id = some t := by
  unfold resolveNode at h
  obtain ⟨resolved, hresolved, h⟩ := bind_eq_ok h
  obtain ⟨_, hcheck, h⟩ := bind_eq_ok h
  cases h
  obtain ⟨hhandle, hreferences⟩ := Node.mapM_eq_ok hresolved
  refine ⟨resolved, rfl, ?_, fun t ht => ?_⟩
  · rw [hhandle]
    exact checkHandle_eq_ok hcheck
  · obtain ⟨id, hid⟩ := hreferences t ht
    refine ⟨id, ?_⟩
    unfold resolveId at hid
    split at hid
    · next hfound =>
      cases hid
      exact hfound
    · split at hid <;> cases hid

lemma resolveNode_resolved (h : p.resolveNode total node = .ok p') (hp : p.Resolved) :
    p'.Resolved := by
  obtain ⟨resolved, rfl, hhandle, hreferences⟩ := resolveNode_eq_ok h
  set p' : Program := { p with terms := p.terms.push ⟨.ofNat p.terms.size, resolved⟩ }
  have hterm : ∀ id t, p.term? id = some t → p'.term? id = some t := by
    intro id t ht
    have hlt := (Array.getElem?_eq_some_iff.mp ht).1
    simpa [p', term?, Array.getElem?_push_lt, hlt] using ht
  have htable : ∀ h, p.inTable h = true → p'.inTable h = true := by
    rintro (id | id | id | id) hin
    · rw [inTable_node, Option.isSome_iff_exists] at hin ⊢
      exact hin.imp fun t ht => hterm id t ht
    all_goals exact hin
  -- old trees keep their handles; the new one refers to trees that had their numbers already
  constructor
  · intro i t ht
    rw [Array.getElem?_push] at ht
    split at ht
    · next hi =>
      cases ht
      rw [hi]
      rfl
    · exact hp.numbered i t ht
  · intro t ht
    rw [Array.mem_push] at ht
    rcases ht with ht | rfl
    · exact (hp.within t ht).mono hterm htable
    · refine ⟨fun h hh => htable h (hhandle h hh), fun t ht => ?_, fun t ht => ?_⟩
      · obtain ⟨id, hid⟩ := hreferences t ht
        exact hterm t.id t (hp.term?_id hid)
      · obtain ⟨id, hid⟩ := hreferences t ht
        exact (hp.within t (Array.mem_of_getElem? hid)).mono hterm htable

/-- A program that is read from tables is closed. -/
theorem ofTables_closed {nodes : List (Node NodeId)} {loops : List LoopInfo} {arrays : List Binding}
    {functions : List FunctionDef} (h : ofTables nodes loops arrays functions = .ok p) : p.Closed := by
  unfold ofTables at h
  obtain ⟨q, hnodes, h⟩ := bind_eq_ok h
  obtain ⟨_, hranges, h⟩ := bind_eq_ok h
  obtain ⟨_, hresults, h⟩ := bind_eq_ok h
  cases h
  have hkept : p.Resolved ∧ p.loops = loops.toArray ∧ p.functions = functions.toArray := by
    refine foldlM_keeps
      (fun q => q.Resolved ∧ q.loops = loops.toArray ∧ q.functions = functions.toArray)
      (fun q node q' hstep hq => ?_) nodes _ p hnodes ⟨⟨by simp, by simp⟩, rfl, rfl⟩
    refine ⟨resolveNode_resolved hstep hq.1, ?_⟩
    obtain ⟨_, rfl, -, -⟩ := resolveNode_eq_ok hstep
    exact hq.2
  obtain ⟨hresolved, hloops, hfunctions⟩ := hkept
  refine ⟨hresolved.within, fun info hinfo id hid => ?_, fun f hf => ?_⟩
  · have hlength : p.loopIds.length = loops.length := by simp [loopIds, hloops]
    rw [hloops, List.mem_toArray, ← List.map_snd_zip (Nat.le_of_eq hlength.symm)] at hinfo
    obtain ⟨⟨loop, _⟩, hmem, rfl⟩ := List.mem_map.mp hinfo
    exact checkNode_eq_ok (forM_eq_ok (forM_eq_ok hranges _ hmem) id hid)
  · rw [hfunctions, List.mem_toArray] at hf
    exact checkNode_eq_ok (forM_eq_ok hresults f hf)

end Program

namespace KernelFile

variable {file : KernelFile} {k : Kernel}

/-- In an accepted file all handles lead into their tables, the regions included. -/
theorem toKernel_closed (h : file.toKernel = .ok k) :
    k.program.Closed ∧ ∀ root ∈ k.regions, ∃ t, k.program.term? root = some t := by
  unfold toKernel at h
  obtain ⟨arrays, -, h⟩ := bind_eq_ok h
  obtain ⟨constants, -, h⟩ := bind_eq_ok h
  obtain ⟨p, hp, h⟩ := bind_eq_ok h
  obtain ⟨_, hregions, h⟩ := bind_eq_ok h
  cases h
  refine ⟨Program.ofTables_closed hp, fun root hroot => ?_⟩
  have hcheck := forM_eq_ok hregions root hroot
  unfold checkRegion at hcheck
  split at hcheck
  · next hany =>
    cases ht : p.term? root with
    | none => simp [ht] at hany
    | some t => exact ⟨t, rfl⟩
  · cases hcheck

end KernelFile

namespace Term

variable {loops : List LoopId} {o : Occurrence}

lemma mem_listOccurrences {ts : List Term} :
    o ∈ listOccurrences loops ts ↔ ∃ t ∈ ts, o ∈ t.occurrences loops := by
  induction ts with
  | nil => simp [listOccurrences]
  | cons t ts ih => simp [listOccurrences, ih]

/-- Constructs below another one are those of its children, inside the loop that it opens. -/
lemma nodeOccurrences_eq (loops : List LoopId) (node : Node Term) :
    nodeOccurrences loops node = listOccurrences (loops ++ node.opened) node.children := by
  cases node with
  | cond condition thenPart elsePart ty =>
    cases elsePart <;> simp [nodeOccurrences, Node.opened, Node.children, listOccurrences]
  | _ => simp [nodeOccurrences, Node.opened, Node.children, listOccurrences]

end Term

/-- All handles of a construct and all loops around it lead into the tables of a program. -/
def Occurrence.Within (p : Program) (o : Occurrence) : Prop :=
  o.term.Within p ∧ ∀ loop ∈ o.loops, (p.loop? loop).isSome

/-- Everything inside a tree lies within the program that the tree does. -/
theorem Term.Within.occurrences {p : Program} {t : Term} (h : t.Within p) {loops : List LoopId}
    (hloops : ∀ loop ∈ loops, (p.loop? loop).isSome) : ∀ o ∈ t.occurrences loops, o.Within p := by
  induction h generalizing loops with
  | @mk id node entry linked parts ih =>
    have hself : (Term.mk id node).Within p := .mk entry linked parts
    have hopened : ∀ loop ∈ loops ++ node.opened, (p.loop? loop).isSome := by
      refine List.forall_mem_append.mpr ⟨hloops, fun loop hloop => ?_⟩
      cases node with
      | forLoop loop' body =>
        cases List.mem_singleton.mp hloop
        exact hself.loop
      | _ => cases hloop
    intro o ho
    rw [Term.occurrences, List.mem_cons, nodeOccurrences_eq, mem_listOccurrences] at ho
    obtain rfl | ⟨t, ht, ho⟩ := ho
    · exact ⟨hself, hloops⟩
    · exact ih t (Node.mem_references_of_mem_children ht) hopened o ho

namespace Program

/-- The second program has the same constructs, and its tables begin with those of the first. The
arrays that follow have no storage in common with those before. -/
structure Continues (p q : Program) : Prop where
  terms : q.terms = p.terms
  loops : p.loops.toList <+: q.loops.toList
  functions : p.functions.toList <+: q.functions.toList
  arrays : ∃ added, q.arrays.toList = p.arrays.toList ++ added ∧
    ∀ b ∈ p.arrays, ∀ b' ∈ added, ∀ i, b.identity? = some i → b'.identity? ≠ some i

/-- What a table holds is held by every table that begins with it. -/
lemma getElem?_of_toList_prefix {α : Type} {xs ys : Array α} (h : xs.toList <+: ys.toList) {i : Nat}
    (hi : xs[i]?.isSome) : ys[i]? = xs[i]? := by
  obtain ⟨rest, hrest⟩ := h
  have hlt : i < xs.toList.length := by simpa using hi
  rw [← Array.getElem?_toList, ← Array.getElem?_toList, ← hrest, List.getElem?_append_left hlt]

lemma Continues.refl (p : Program) : p.Continues p :=
  ⟨rfl, List.prefix_refl _, List.prefix_refl _, [], by simp, by simp⟩

namespace Continues

variable {p q : Program} (h : p.Continues q)
include h

lemma term?_eq (id : NodeId) : q.term? id = p.term? id := by rw [term?, term?, h.terms]

lemma callSites_eq (id : FunctionId) : q.callSites id = p.callSites id := by
  rw [callSites, callSites, h.terms]

lemma loop?_eq {id : LoopId} (hid : (p.loop? id).isSome) : q.loop? id = p.loop? id :=
  getElem?_of_toList_prefix h.loops hid

lemma array?_eq {id : ArrayId} (hid : (p.array? id).isSome) : q.array? id = p.array? id := by
  obtain ⟨added, hadded, -⟩ := h.arrays
  exact getElem?_of_toList_prefix ⟨added, hadded.symm⟩ hid

lemma function?_eq {id : FunctionId} (hid : (p.function? id).isSome) :
    q.function? id = p.function? id :=
  getElem?_of_toList_prefix h.functions hid

lemma typeOf_eq {t : Term} (ht : t.Within p) : q.typeOf t = p.typeOf t := by
  obtain ⟨id, node⟩ := t
  cases node with
  | access array indices => simp only [typeOf, Term.node, h.array?_eq ht.array]
  | call function args => simp only [typeOf, Term.node, h.function?_eq ht.function]
  | _ => rfl

lemma loopHead_eq {id : LoopId} (hid : (p.loop? id).isSome) : q.loopHead id = p.loopHead id := by
  rw [loopHead, loopHead, h.loop?_eq hid]

omit h in
lemma describeIndices_congr (ts : List Term) (hts : ∀ t ∈ ts, q.describe t = p.describe t) :
    q.describeIndices ts = p.describeIndices ts := by
  induction ts with
  | nil => rw [describeIndices, describeIndices]
  | cons t ts ih =>
    obtain ⟨ht, hts⟩ := List.forall_mem_cons.mp hts
    rw [describeIndices, describeIndices, ht, ih hts]

omit h in
lemma describeList_congr (separator : String) (ts : List Term)
    (hts : ∀ t ∈ ts, q.describe t = p.describe t) :
    q.describeList separator ts = p.describeList separator ts := by
  induction ts with
  | nil => rw [describeList, describeList]
  | cons t ts ih =>
    obtain ⟨ht, hts⟩ := List.forall_mem_cons.mp hts
    cases ts with
    | nil => rw [describeList, describeList, ht]
    | cons t' ts => simp only [describeList, ht, ih hts]

/-- The text of a tree names entries that it refers to, and no others. -/
theorem describe_eq {t : Term} (ht : t.Within p) : q.describe t = p.describe t := by
  induction ht with
  | @mk id node entry linked parts ih =>
    have hself : (Term.mk id node).Within p := .mk entry linked parts
    cases node with
    | literal | var | brk => rw [describe, describe]
    | binary op left right ty =>
      rw [describe, describe, ih left (by simp [Node.references, Node.children]),
        ih right (by simp [Node.references, Node.children])]
    | unary op operand ty =>
      have hoperand := ih operand (by simp [Node.references, Node.children])
      cases op <;> rw [describe, describe, hoperand]
    | access array indices =>
      rw [describe, describe, describeIndices_congr indices ih, arrayName, arrayName, h.array?_eq hself.array]
    | builtin _ args _ | math _ args _ | block args =>
      rw [describe, describe, describeList_congr _ args ih]
    | cond condition thenPart elsePart ty =>
      have hcondition := ih condition (by simp [Node.references, Node.children])
      have hthen := ih thenPart (by simp [Node.references, Node.children])
      cases elsePart with
      | none => rw [describe, describe, hcondition, hthen]
      | some elsePart =>
        rw [describe, describe, hcondition, hthen,
          ih elsePart (by simp [Node.references, Node.children])]
    | forLoop loop body =>
      rw [describe, describe, h.loopHead_eq hself.loop,
        ih body (by simp [Node.references, Node.children])]
    | whileLoop first second | assign first second =>
      rw [describe, describe, ih first (by simp [Node.references, Node.children]),
        ih second (by simp [Node.references, Node.children])]
    | call function args =>
      rw [describe, describe, describeList_congr _ args ih, functionName, functionName,
        h.function?_eq hself.function]
    | ret value =>
      rw [describe, describe, ih value (by simp [Node.references, Node.children])]

end Continues

end Program

end LoopSafety
