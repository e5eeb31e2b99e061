import LoopSafety.Proofs.Tables

/-! Which kernel files are accepted.

A file is read in passes over its arrays, constants, nodes, loops, functions and regions, and the
first fault ends it. Each pass goes over a list, and whether the next element is accepted depends on
those before it alone. So a file is accepted if and only if each of its elements is in order after
those before it, and then the kernel has everything that the file declares, in the same places. -/
namespace LoopSafety

section

variable {ε α β : Type}

lemma bind_eq_ok_iff {x : Except ε α} {f : α → Except ε β} {b : β} :
    x >>= f = .ok b ↔ ∃ a, x = .ok a ∧ f a = .ok b := by
  refine ⟨bind_eq_ok, ?_⟩
  rintro ⟨a, rfl, h⟩
  exact h

lemma forM_eq_ok_iff {f : α → Except ε PUnit} {xs : List α} :
    xs.forM f = .ok () ↔ ∀ x ∈ xs, f x = .ok () := by
  refine ⟨forM_eq_ok, fun h => ?_⟩
  induction xs with
  | nil => rfl
  | cons x xs ih =>
    obtain ⟨hx, hxs⟩ := List.forall_mem_cons.mp h
    exact bind_eq_ok_iff.mpr ⟨(), hx, ih hxs⟩

/-- The steps of a pass over a list: what has been read describes the outcome so far, and it decides
which element may follow. -/
structure Reads (step : β → α → Except ε β) (state : List α → β → Prop) (good : List α → α → Prop) :
    Prop where
  ok_iff : ∀ {before b} a, state before b → ((∃ b', step b a = .ok b') ↔ good before a)
  next : ∀ {before b a b'}, state before b → step b a = .ok b' → state (before ++ [a]) b'

namespace Reads

variable {step : β → α → Except ε β} {state : List α → β → Prop} {good : List α → α → Prop}
  (h : Reads step state good)
include h

/-- A pass that ends has read everything. -/
theorem state_of_ok {before as : List α} {b b' : β} (hb : state before b)
    (hrun : as.foldlM step b = .ok b') : state (before ++ as) b' := by
  induction as generalizing before b with
  | nil =>
    cases hrun
    simpa using hb
  | cons a as ih =>
    obtain ⟨b₁, hfirst, hrest⟩ := bind_eq_ok hrun
    simpa using ih (h.next hb hfirst) hrest

/-- A pass ends if and only if every element may follow those before it. -/
theorem foldlM_ok_iff (before : List α) (b : β) (hb : state before b) (as : List α) :
    (∃ b', as.foldlM step b = .ok b') ↔ ∀ i a, as[i]? = some a → good (before ++ as.take i) a := by
  induction as generalizing before b with
  | nil => simp [pure, Except.pure]
  | cons a as ih =>
    constructor
    · rintro ⟨b', hrun⟩ i a' ha'
      obtain ⟨b₁, hfirst, hrest⟩ := bind_eq_ok hrun
      cases i with
      | zero =>
        cases ha'
        simpa using (h.ok_iff a hb).mp ⟨b₁, hfirst⟩
      | succ i => simpa using (ih _ _ (h.next hb hfirst)).mp ⟨b', hrest⟩ i a' ha'
    · intro hgood
      obtain ⟨b₁, hfirst⟩ := (h.ok_iff a hb).mpr (by simpa using hgood 0 a rfl)
      obtain ⟨b', hrest⟩ := (ih _ _ (h.next hb hfirst)).mpr fun i a' ha' => by
        simpa using hgood (i + 1) a' ha'
      exact ⟨b', bind_eq_ok_iff.mpr ⟨b₁, hfirst, hrest⟩⟩

end Reads

variable {f : α → Except ε β} {g : β → α}

lemma mapM_inverse (hg : ∀ x y, f x = .ok y → g y = x) {xs : List α} {ys : List β}
    (h : xs.mapM f = .ok ys) : (∀ x ∈ xs, ∃ y, f x = .ok y) ∧ ys.map g = xs := by
  induction xs generalizing ys with
  | nil =>
    cases h
    simp
  | cons x xs ih =>
    rw [List.mapM_cons] at h
    obtain ⟨y, hy, h⟩ := bind_eq_ok h
    obtain ⟨ys, hys, h⟩ := bind_eq_ok h
    cases h
    obtain ⟨hall, hmap⟩ := ih hys
    exact ⟨List.forall_mem_cons.mpr ⟨⟨y, hy⟩, hall⟩, by simp [hg x y hy, hmap]⟩

lemma optionMapM_inverse (hg : ∀ x y, f x = .ok y → g y = x) {x : Option α} {y : Option β}
    (h : x.mapM f = .ok y) : (∀ a ∈ x.toList, ∃ b, f a = .ok b) ∧ y.map g = x := by
  cases x with
  | none =>
    cases h
    simp
  | some a =>
    obtain ⟨b, hb, h⟩ := bind_eq_ok h
    cases h
    exact ⟨by simpa using ⟨b, hb⟩, by simp [hg a b hb]⟩

lemma exists_mapM_ok {xs : List α} (h : ∀ x ∈ xs, ∃ y, f x = .ok y) : ∃ ys, xs.mapM f = .ok ys := by
  induction xs with
  | nil => exact ⟨[], rfl⟩
  | cons x xs ih =>
    obtain ⟨⟨y, hy⟩, hxs⟩ := List.forall_mem_cons.mp h
    obtain ⟨ys, hys⟩ := ih hxs
    refine ⟨y :: ys, ?_⟩
    rw [List.mapM_cons]
    exact bind_eq_ok_iff.mpr ⟨y, hy, bind_eq_ok_iff.mpr ⟨ys, hys, rfl⟩⟩

lemma exists_optionMapM_ok {x : Option α} (h : ∀ a ∈ x.toList, ∃ b, f a = .ok b) :
    ∃ y, x.mapM f = .ok y := by
  cases x with
  | none => exact ⟨none, rfl⟩
  | some a =>
    obtain ⟨b, hb⟩ := h a (by simp)
    exact ⟨some b, bind_eq_ok_iff.mpr ⟨b, hb, rfl⟩⟩

end

namespace Node

variable {ρ σ ε : Type} {f : ρ → Except ε σ} {g : σ → ρ}

/-- If references are replaced by what leads back to them, each was replaced and the construct is the
same up to them. -/
lemma mapM_inverse (hg : ∀ r t, f r = .ok t → g t = r) {node : Node ρ} {node' : Node σ}
    (h : node.mapM f = .ok node') :
    (∀ r ∈ node.references, ∃ t, f r = .ok t) ∧ node'.map g = node := by
  cases node with
  | literal | brk =>
    cases h
    simp [references, children, map]
  | var name ty definition =>
    obtain ⟨d, hd, h⟩ := bind_eq_ok h
    cases h
    obtain ⟨hall, hmap⟩ := optionMapM_inverse hg hd
    exact ⟨hall, by rw [map, hmap]⟩
  | binary | whileLoop | assign =>
    obtain ⟨l, hl, h⟩ := bind_eq_ok h
    obtain ⟨r, hr, h⟩ := bind_eq_ok h
    cases h
    refine ⟨by simpa [references, children] using ⟨⟨l, hl⟩, r, hr⟩, ?_⟩
    rw [map, hg _ l hl, hg _ r hr]
  | unary | forLoop | ret =>
    obtain ⟨x, hx, h⟩ := bind_eq_ok h
    cases h
    exact ⟨by simpa [references, children] using ⟨x, hx⟩, by rw [map, hg _ x hx]⟩
  | access | builtin | math | block | call =>
    obtain ⟨xs, hxs, h⟩ := bind_eq_ok h
    cases h
    obtain ⟨hall, hmap⟩ := LoopSafety.mapM_inverse hg hxs
    exact ⟨hall, by rw [map, hmap]⟩
  | cond =>
    obtain ⟨c, hc, h⟩ := bind_eq_ok h
    obtain ⟨t, ht, h⟩ := bind_eq_ok h
    obtain ⟨e, he, h⟩ := bind_eq_ok h
    cases h
    obtain ⟨hall, hmap⟩ := optionMapM_inverse hg he
    refine ⟨?_, by rw [map, hg _ c hc, hg _ t ht, hmap]⟩
    exact List.forall_mem_cons.mpr ⟨⟨c, hc⟩, List.forall_mem_cons.mpr ⟨⟨t, ht⟩, hall⟩⟩

/-- If every reference can be replaced, all are. -/
lemma exists_mapM_ok {node : Node ρ} (h : ∀ r ∈ node.references, ∃ t, f r = .ok t) :
    ∃ node', node.mapM f = .ok node' := by
  cases node with
  | literal | brk => exact ⟨_, rfl⟩
  | var name ty definition =>
    obtain ⟨d, hd⟩ := exists_optionMapM_ok h
    exact ⟨_, bind_eq_ok_iff.mpr ⟨d, hd, rfl⟩⟩
  | binary _ left right | whileLoop left right | assign left right =>
    obtain ⟨l, hl⟩ := h left (by simp [references, children])
    obtain ⟨r, hr⟩ := h right (by simp [references, children])
    exact ⟨_, bind_eq_ok_iff.mpr ⟨l, hl, bind_eq_ok_iff.mpr ⟨r, hr, rfl⟩⟩⟩
  | unary _ part | forLoop _ part | ret part =>
    obtain ⟨t, ht⟩ := h part (by simp [references, children])
    exact ⟨_, bind_eq_ok_iff.mpr ⟨t, ht, rfl⟩⟩
  | access | builtin | math | block | call =>
    obtain ⟨ts, hts⟩ := LoopSafety.exists_mapM_ok h
    exact ⟨_, bind_eq_ok_iff.mpr ⟨ts, hts, rfl⟩⟩
  | cond condition thenPart elsePart ty =>
    obtain ⟨c, hc⟩ := h condition (by simp [references, children])
    obtain ⟨t, ht⟩ := h thenPart (by simp [references, children])
    obtain ⟨e, he⟩ := exists_optionMapM_ok (x := elsePart) fun a ha => h a (by
      simpa [references, children] using .inr (.inr (by simpa using ha)))
    exact ⟨_, bind_eq_ok_iff.mpr ⟨c, hc, bind_eq_ok_iff.mpr ⟨t, ht, bind_eq_ok_iff.mpr ⟨e, he, rfl⟩⟩⟩⟩

end Node

/-- An array type with one to ten extents, none of them negative. -/
def ArrayDecl.Proper (decl : ArrayDecl) : Prop :=
  decl.ty.isArray = true ∧ 1 ≤ decl.dims.length ∧ decl.dims.length ≤ 10 ∧ ∀ d ∈ decl.dims, 0 ≤ d

/-- An alias of an array that is declared before. -/
def ArrayDecl.Aliases (before : List ArrayDecl) (decl : ArrayDecl) : Prop :=
  ∃ target, decl.aliasOf = some target ∧ ∃ d ∈ before, d.name = target

/-- The value of a constant has the declared type, or it is an integer that is widened. -/
def ConstantDecl.Typed (decl : ConstantDecl) : Prop :=
  decl.value.dataType = decl.ty ∨ decl.value.dataType = .int ∧ decl.ty = .long

namespace KernelFile

/-- Whether a handle leads into its table. -/
def holds (file : KernelFile) : Handle → Prop
  | .node id => id.toNat < file.nodes.length
  | .loop id => id.toNat < file.loops.length
  | .array id => id.toNat < file.arrays.length
  | .function id => id.toNat < file.functions.length

/-- All declarations of a file are in order. -/
structure WellFormed (file : KernelFile) : Prop where
  arrays : ∀ (i : Nat) (decl : ArrayDecl), file.arrays[i]? = some decl →
    decl.Aliases (file.arrays.take i) ∨ decl.aliasOf = none ∧ decl.Proper
  constants : ∀ decl ∈ file.constants, decl.Typed
  references : ∀ (i : Nat) (node : Node NodeId), file.nodes[i]? = some node →
    ∀ id ∈ node.references, id.toNat < i
  handles : ∀ node ∈ file.nodes, ∀ h ∈ node.handle?, file.holds h
  ranges : ∀ info ∈ file.loops, ∀ id ∈ Program.rangeParts info.range, file.holds (.node id)
  results : ∀ f ∈ file.functions, file.holds (.node f.ret)
  regions : ∀ root ∈ file.regions, ∃ loop body, file.nodes[root.toNat]? = some (.forLoop loop body)

end KernelFile

lemma ArrayShape.make_ok_iff (decl : ArrayDecl) :
    (∃ shape, make decl.ty decl.dims = .ok shape) ↔ decl.Proper := by
  have hmax : maxDimensions = 10 := rfl
  unfold make ArrayDecl.Proper
  split
  · next harray => simp_all
  · next harray =>
    rw [Bool.not_eq_true', Bool.not_eq_false] at harray
    split
    · next hrank =>
      rw [Bool.or_eq_true, List.isEmpty_iff_length_eq_zero, decide_eq_true_eq] at hrank
      exact ⟨by simp, fun h => by omega⟩
    · next hrank =>
      rw [Bool.or_eq_true, List.isEmpty_iff_length_eq_zero, decide_eq_true_eq] at hrank
      split
      · next extent hfind =>
        refine ⟨by simp, fun h => ?_⟩
        have hneg : extent < 0 := by simpa using List.find?_some hfind
        exact absurd (h.2.2.2 extent (List.mem_of_find?_eq_some hfind)) (Int64.not_le.mpr hneg)
      · next hfind =>
        refine ⟨fun _ => ⟨harray, by omega, by omega, fun d hd => ?_⟩, fun _ => ⟨_, rfl⟩⟩
        simpa using List.find?_eq_none.mp hfind d hd

lemma Value.specialize_ok_iff (decl : ConstantDecl) :
    (∃ v, decl.value.specialize decl.ty = .ok v) ↔ decl.Typed := by
  unfold specialize ConstantDecl.Typed
  split
  · next hty => exact ⟨fun _ => .inl hty, fun _ => ⟨_, rfl⟩⟩
  · next hty =>
    split
    · next hvalue hlong => exact ⟨fun _ => .inr ⟨by rw [hvalue]; rfl, hlong⟩, fun _ => ⟨_, rfl⟩⟩
    · next hother =>
      refine ⟨by simp, fun h => ?_⟩
      obtain ⟨hint, hlong⟩ := h.resolve_left hty
      cases hvalue : decl.value with
      | int n => exact absurd hlong (hother n hvalue)
      | _ => simp [hvalue, dataType] at hint

/-- A value as one of the declared type is the same number. -/
lemma Value.toInt64_specialize {v v' : Value} {ty : DataType} (h : v.specialize ty = .ok v') :
    v'.toInt64 = v.toInt64 := by
  unfold specialize at h
  split at h
  · cases h
    rfl
  · split at h
    · cases h
      rfl
    · cases h

namespace KernelFile

/-- An array is bound if and only if it is in order after those that are bound already. -/
lemma bindArray_reads : Reads bindArray
    (fun before bindings => bindings.map (·.name) = before.map (·.name))
    fun before decl => decl.Aliases before ∨ decl.aliasOf = none ∧ decl.Proper := by
  constructor
  · intro before bindings decl hnames
    unfold bindArray ArrayDecl.Aliases
    cases decl.aliasOf with
    | some target =>
      have hbound : (bindings.find? (·.name == target)).isSome ↔ ∃ d ∈ before, d.name = target := by
        have hmem : target ∈ bindings.map (·.name) ↔ target ∈ before.map (·.name) := by rw [hnames]
        simpa [List.find?_isSome] using hmem
      dsimp only
      cases hfind : bindings.find? (·.name == target) with
      | some aliased =>
        rw [hfind] at hbound
        exact ⟨fun _ => .inl ⟨target, rfl, hbound.mp rfl⟩, fun _ => ⟨_, rfl⟩⟩
      | none =>
        rw [hfind] at hbound
        refine ⟨fun h => ?_, fun h => ?_⟩
        · obtain ⟨_, h⟩ := h
          cases h
        · obtain ⟨_, heq, hdeclared⟩ := h.resolve_right (by simp)
          cases heq
          exact absurd (hbound.mpr hdeclared) (by simp)
    | none =>
      rw [← ArrayShape.make_ok_iff]
      simp [bind_eq_ok_iff, pure, Except.pure]
  · intro before bindings decl bindings' hnames hrun
    unfold bindArray at hrun
    cases halias : decl.aliasOf with
    | some target =>
      rw [halias] at hrun
      dsimp only at hrun
      split at hrun
      · cases hrun
        simp [hnames]
      · cases hrun
    | none =>
      rw [halias] at hrun
      obtain ⟨shape, -, hrun⟩ := bind_eq_ok hrun
      cases hrun
      simp [hnames]

/-- The value that a constant has after some declarations: that of the last one. -/
def lastValue? (decls : List ConstantDecl) (name : String) : Option Int64 :=
  (decls.reverse.find? (·.name == name)).map (·.value.toInt64)

lemma bindConstant_reads : Reads bindConstant
    (fun before constants => ∀ name, constants.get? name = lastValue? before name)
    fun _ decl => decl.Typed := by
  constructor
  · intro before constants decl _
    rw [← Value.specialize_ok_iff]
    unfold bindConstant
    simp [bind_eq_ok_iff, pure, Except.pure]
  · intro before constants decl constants' hvalues hrun name
    obtain ⟨value, hvalue, hrun⟩ := bind_eq_ok hrun
    cases hrun
    rw [Table.get?_insert, hvalues, Value.toInt64_specialize hvalue]
    by_cases hname : decl.name = name
    · simp [lastValue?, hname]
    · simp [lastValue?, hname]

end KernelFile

namespace Program

variable {p : Program}

lemma resolveId_eq_ok {terms : Array Term} {total : Nat} {owner : String} {id : NodeId} {t : Term} :
    resolveId terms total owner id = .ok t ↔ terms[id.toNat]? = some t := by
  unfold resolveId
  cases terms[id.toNat]? with
  | some t' => simp
  | none =>
    dsimp only
    split <;> simp

lemma checkHandle_eq_ok_iff {owner : String} {handle : Option Handle} :
    p.checkHandle owner handle = .ok () ↔ ∀ h ∈ handle, p.inTable h = true := by
  refine ⟨checkHandle_eq_ok, fun h => ?_⟩
  cases handle with
  | none => rfl
  | some x => exact if_pos (h x rfl)

lemma Resolved.id_eq (h : p.Resolved) {id : NodeId} {t : Term} (ht : p.term? id = some t) :
    t.id = id := by
  rw [h.numbered id.toNat t ht]
  exact congrArg NodeId.mk UInt32.ofNat_toNat

/-- The trees of a program are those of some nodes, and its other tables are as given. -/
structure Holds (tables : Program) (nodes : List (Node NodeId)) (p : Program) : Prop where
  flat : p.terms.toList.map Term.flat = nodes
  resolved : p.Resolved
  loops : p.loops = tables.loops
  arrays : p.arrays = tables.arrays
  functions : p.functions = tables.functions

namespace Holds

variable {tables : Program} {nodes : List (Node NodeId)} (h : Holds tables nodes p)
include h

lemma size_eq : p.terms.size = nodes.length := by rw [← h.flat, List.length_map, Array.length_toList]

lemma getElem?_nodes (id : NodeId) : nodes[id.toNat]? = (p.term? id).map Term.flat := by
  rw [← h.flat, List.getElem?_map, Array.getElem?_toList]
  rfl

lemma term?_isSome_iff {id : NodeId} : (p.term? id).isSome ↔ id.toNat < nodes.length := by
  rw [← h.size_eq]
  simp [term?]

/-- A construct names no other construct as an entry of a table. -/
lemma inTable_eq {node : Node NodeId} {x : Handle} (hx : x ∈ node.handle?) :
    p.inTable x = tables.inTable x := by
  cases node with
  | access | forLoop | call =>
    cases hx
    simp only [inTable, h.loops, h.arrays, h.functions]
  | _ => cases hx

end Holds

/-- A node is resolved if and only if it refers to nodes before it and to entries of the other tables.
-/
lemma resolveNode_reads (tables : Program) (total : Nat) : Reads (resolveNode total) (Holds tables)
    fun before node => (∀ id ∈ node.references, id.toNat < before.length) ∧
      ∀ h ∈ node.handle?, tables.inTable h = true := by
  constructor
  · intro before p node hp
    have hids : (∃ resolved, node.mapM (resolveId p.terms total (NodeId.ofNat p.terms.size).text) =
        .ok resolved) ↔ ∀ id ∈ node.references, id.toNat < before.length := by
      refine ⟨fun h id hid => ?_, fun h => Node.exists_mapM_ok fun id hid => ?_⟩
      · obtain ⟨resolved, hresolved⟩ := h
        have hback (r : NodeId) (t : Term)
            (ht : resolveId p.terms total (NodeId.ofNat p.terms.size).text r = .ok t) : t.id = r :=
          hp.resolved.id_eq (resolveId_eq_ok.mp ht)
        obtain ⟨t, ht⟩ := (Node.mapM_inverse hback hresolved).1 id hid
        exact hp.term?_isSome_iff.mp (Option.isSome_iff_exists.mpr ⟨t, resolveId_eq_ok.mp ht⟩)
      · obtain ⟨t, ht⟩ := Option.isSome_iff_exists.mp (hp.term?_isSome_iff.mpr (h id hid))
        exact ⟨t, resolveId_eq_ok.mpr ht⟩
    have hhandle : p.checkHandle (NodeId.ofNat p.terms.size).text node.handle? = .ok () ↔
        ∀ h ∈ node.handle?, tables.inTable h = true := by
      rw [checkHandle_eq_ok_iff]
      exact forall₂_congr fun x hx => by rw [hp.inTable_eq hx]
    rw [← hids, ← hhandle]
    unfold resolveNode
    simp only [bind_eq_ok_iff, pure, Except.pure]
    constructor
    · rintro ⟨p', resolved, hresolved, _, hcheck, -⟩
      exact ⟨⟨resolved, hresolved⟩, hcheck⟩
    · rintro ⟨⟨resolved, hresolved⟩, hcheck⟩
      exact ⟨_, resolved, hresolved, (), hcheck, rfl⟩
  · intro before p node p' hp hrun
    have hresolved := resolveNode_resolved hrun hp.resolved
    unfold resolveNode at hrun
    obtain ⟨resolved, hmap, hrun⟩ := bind_eq_ok hrun
    obtain ⟨_, -, hrun⟩ := bind_eq_ok hrun
    cases hrun
    have hflat := (Node.mapM_inverse (fun r t ht => hp.resolved.id_eq (resolveId_eq_ok.mp ht)) hmap).2
    refine ⟨?_, hresolved, hp.loops, hp.arrays, hp.functions⟩
    simp only [Array.toList_push, List.map_append, hp.flat, List.map_cons, List.map_nil]
    rw [Term.flat, Term.node, hflat]

section

variable {nodes : List (Node NodeId)} {loops : List LoopInfo} {arrays : List Binding}
  {functions : List FunctionDef}

/-- The program before its first node. -/
def ofEntries (loops : List LoopInfo) (arrays : List Binding) (functions : List FunctionDef) :
    Program where
  loops := loops.toArray
  arrays := arrays.toArray
  functions := functions.toArray

lemma ofEntries_holds :
    Holds (ofEntries loops arrays functions) [] (ofEntries loops arrays functions) :=
  ⟨rfl, ⟨by simp [ofEntries], by simp [ofEntries]⟩, rfl, rfl, rfl⟩

lemma ofTables_holds (h : ofTables nodes loops arrays functions = .ok p) :
    Holds (ofEntries loops arrays functions) nodes p := by
  obtain ⟨q, hnodes, h⟩ := bind_eq_ok h
  obtain ⟨_, -, h⟩ := bind_eq_ok h
  obtain ⟨_, -, h⟩ := bind_eq_ok h
  cases h
  exact (resolveNode_reads _ nodes.length).state_of_ok ofEntries_holds hnodes

lemma checkNode_eq_ok_iff {owner : String} {id : NodeId} :
    p.checkNode owner id = .ok () ↔ (p.term? id).isSome := by
  rw [checkNode, checkHandle_eq_ok_iff, ← inTable_node]
  simp

lemma checkRanges_eq_ok_iff (hloops : p.loops = loops.toArray) :
    ((p.loopIds.zip loops).forM fun x => (rangeParts x.2.range).forM (p.checkNode x.1.text)) = .ok () ↔
      ∀ info ∈ loops, ∀ id ∈ rangeParts info.range, (p.term? id).isSome := by
  have hlength : loops.length ≤ p.loopIds.length := by simp [loopIds, hloops]
  simp only [forM_eq_ok_iff, checkNode_eq_ok_iff]
  conv_rhs => rw [← List.map_snd_zip hlength]
  rw [List.forall_mem_map]

/-- Tables make a program if and only if every node refers to nodes before it and to entries of the
other tables, and the parts of ranges and the results of functions are nodes. -/
theorem ofTables_ok_iff :
    (∃ p, ofTables nodes loops arrays functions = .ok p) ↔
      (∀ (i : Nat) (node : Node NodeId), nodes[i]? = some node →
        (∀ id ∈ node.references, id.toNat < i) ∧
          ∀ h ∈ node.handle?, (ofEntries loops arrays functions).inTable h = true) ∧
      (∀ info ∈ loops, ∀ id ∈ rangeParts info.range, id.toNat < nodes.length) ∧
      ∀ f ∈ functions, f.ret.toNat < nodes.length := by
  set tables := ofEntries loops arrays functions
  have hreads := resolveNode_reads tables nodes.length
  have hgood : (∃ q, nodes.foldlM (resolveNode nodes.length) tables = .ok q) ↔
      ∀ (i : Nat) (node : Node NodeId), nodes[i]? = some node →
        (∀ id ∈ node.references, id.toNat < i) ∧ ∀ h ∈ node.handle?, tables.inTable h = true := by
    rw [hreads.foldlM_ok_iff [] tables ofEntries_holds nodes]
    refine forall₃_congr fun i node hnode => ?_
    have hi : i < nodes.length := (List.getElem?_eq_some_iff.mp hnode).1
    rw [List.nil_append, List.length_take_of_le (Nat.le_of_lt hi)]
  have hrest {q : Program} (hq : nodes.foldlM (resolveNode nodes.length) tables = .ok q) :
      (((q.loopIds.zip loops).forM fun x =>
          (rangeParts x.2.range).forM (q.checkNode x.1.text)) = .ok () ∧
        (functions.forM fun f => q.checkNode f.name f.ret) = .ok ()) ↔
      (∀ info ∈ loops, ∀ id ∈ rangeParts info.range, id.toNat < nodes.length) ∧
        ∀ f ∈ functions, f.ret.toNat < nodes.length := by
    have hholds : Holds tables nodes q := hreads.state_of_ok ofEntries_holds hq
    rw [checkRanges_eq_ok_iff hholds.loops, forM_eq_ok_iff]
    simp only [checkNode_eq_ok_iff, hholds.term?_isSome_iff]
  constructor
  · rintro ⟨p, h⟩
    obtain ⟨q, hq, h⟩ := bind_eq_ok h
    obtain ⟨_, hranges, h⟩ := bind_eq_ok h
    obtain ⟨_, hresults, -⟩ := bind_eq_ok h
    exact ⟨hgood.mp ⟨q, hq⟩, (hrest hq).mp ⟨hranges, hresults⟩⟩
  · rintro ⟨hnodes, hothers⟩
    obtain ⟨q, hq⟩ := hgood.mpr hnodes
    obtain ⟨hranges, hresults⟩ := (hrest hq).mpr hothers
    refine ⟨q, bind_eq_ok_iff.mpr ⟨q, hq, bind_eq_ok_iff.mpr ⟨(), hranges, ?_⟩⟩⟩
    exact bind_eq_ok_iff.mpr ⟨(), hresults, rfl⟩

end

end Program

namespace KernelFile

lemma isForLoop_iff {t : Term} : t.isForLoop = true ↔ ∃ loop body, t.flat = .forLoop loop body := by
  obtain ⟨id, node⟩ := t
  cases node <;> simp [Term.isForLoop, Term.flat, Term.node, Node.map]

lemma checkRegion_eq_ok_iff {tables : Program} {nodes : List (Node NodeId)} {p : Program}
    (hp : Program.Holds tables nodes p) {root : NodeId} :
    checkRegion p root = .ok () ↔ ∃ loop body, nodes[root.toNat]? = some (.forLoop loop body) := by
  rw [hp.getElem?_nodes]
  unfold checkRegion
  cases p.term? root with
  | none => simp
  | some t =>
    simp only [Option.any_some, Option.map_some, Option.some.injEq, ← isForLoop_iff]
    split <;> simp_all

variable {file : KernelFile} {k : Kernel}

/-- The passes over a file that is accepted. -/
lemma toKernel_eq_ok (h : file.toKernel = .ok k) :
    file.arrays.foldlM bindArray [] = .ok k.program.arrays.toList ∧
    file.constants.foldlM bindConstant ∅ = .ok k.constants ∧
    Program.ofTables file.nodes file.loops k.program.arrays.toList file.functions = .ok k.program ∧
    file.regions.forM (checkRegion k.program) = .ok () ∧
    k.regions = file.regions ∧ k.instantiations = file.instantiations := by
  unfold toKernel at h
  obtain ⟨arrays, harrays, h⟩ := bind_eq_ok h
  obtain ⟨constants, hconstants, h⟩ := bind_eq_ok h
  obtain ⟨p, hp, h⟩ := bind_eq_ok h
  obtain ⟨_, hregions, h⟩ := bind_eq_ok h
  cases h
  have hsame : p.arrays.toList = arrays := by rw [Program.ofTables_arrays hp]
  rw [← hsame] at harrays hp
  exact ⟨harrays, hconstants, hp, hregions, rfl, rfl⟩

/-- An entry that a construct names is in the table of the program if and only if the file has it. -/
lemma inTable_iff_holds {arrays : List Binding} (hlength : arrays.length = file.arrays.length)
    {node : Node NodeId} {h : Handle} (hh : h ∈ node.handle?) :
    (Program.ofEntries file.loops arrays file.functions).inTable h = true ↔ file.holds h := by
  cases node with
  | access | forLoop | call =>
    cases hh
    simp [Program.inTable, Program.ofEntries, holds, hlength]
  | _ => cases hh

/-- The arrays that are bound have the names that the file declares. -/
lemma names_eq {arrays : List Binding} (h : file.arrays.foldlM bindArray [] = .ok arrays) :
    arrays.map (·.name) = file.arrays.map (·.name) :=
  bindArray_reads.state_of_ok (show List.map _ [] = List.map _ [] from rfl) h

lemma wellFormed_of_ok (h : file.toKernel = .ok k) : file.WellFormed := by
  obtain ⟨harrays, hconstants, hp, hregions, -, -⟩ := toKernel_eq_ok h
  have hlength : k.program.arrays.toList.length = file.arrays.length := by
    simpa using congrArg List.length (names_eq harrays)
  have hdeclared := (bindArray_reads.foldlM_ok_iff [] [] rfl file.arrays).mp ⟨_, harrays⟩
  have htyped := (bindConstant_reads.foldlM_ok_iff [] ∅ (fun _ => rfl) file.constants).mp
    ⟨_, hconstants⟩
  obtain ⟨hnodes, hranges, hresults⟩ := Program.ofTables_ok_iff.mp ⟨_, hp⟩
  refine ⟨hdeclared, fun decl hdecl => ?_, fun i node hnode => (hnodes i node hnode).1,
    fun node hnode x hx => ?_, hranges, hresults, fun root hroot => ?_⟩
  · obtain ⟨i, hi⟩ := List.mem_iff_getElem?.mp hdecl
    exact htyped i decl hi
  · obtain ⟨i, hi⟩ := List.mem_iff_getElem?.mp hnode
    exact (inTable_iff_holds hlength hx).mp ((hnodes i node hi).2 x hx)
  · exact (checkRegion_eq_ok_iff (Program.ofTables_holds hp)).mp (forM_eq_ok hregions root hroot)

lemma ok_of_wellFormed (h : file.WellFormed) : ∃ k, file.toKernel = .ok k := by
  obtain ⟨arrays, harrays⟩ := (bindArray_reads.foldlM_ok_iff [] [] rfl file.arrays).mpr h.arrays
  obtain ⟨constants, hconstants⟩ :=
    (bindConstant_reads.foldlM_ok_iff [] ∅ (fun _ => rfl) file.constants).mpr
      fun i decl hdecl => h.constants decl (List.mem_of_getElem? hdecl)
  have hlength : arrays.length = file.arrays.length := by
    simpa using congrArg List.length (names_eq harrays)
  obtain ⟨p, hp⟩ : ∃ p, Program.ofTables file.nodes file.loops arrays file.functions = .ok p := by
    refine Program.ofTables_ok_iff.mpr ⟨fun i node hnode => ?_, h.ranges, h.results⟩
    refine ⟨h.references i node hnode, fun x hx => ?_⟩
    exact (inTable_iff_holds hlength hx).mpr (h.handles node (List.mem_of_getElem? hnode) x hx)
  have hregions : file.regions.forM (checkRegion p) = .ok () := forM_eq_ok_iff.mpr fun root hroot =>
    (checkRegion_eq_ok_iff (Program.ofTables_holds hp)).mpr (h.regions root hroot)
  refine ⟨⟨p, file.regions, constants, file.instantiations⟩, bind_eq_ok_iff.mpr ⟨arrays, harrays, ?_⟩⟩
  refine bind_eq_ok_iff.mpr ⟨constants, hconstants, ?_⟩
  exact bind_eq_ok_iff.mpr ⟨p, hp, bind_eq_ok_iff.mpr ⟨(), hregions, rfl⟩⟩

/-- A kernel file is accepted if and only if it is well formed. The kernel then has the nodes of the
file in their order, each under the number of its position, its tables, regions and further constants
as they are, and every constant with the value of its last declaration. -/
theorem accepted_iff_wellFormed (file : KernelFile) :
    ((∃ k, file.toKernel = .ok k) ↔ file.WellFormed) ∧
    ∀ k, file.toKernel = .ok k →
      k.program.terms.toList.map Term.flat = file.nodes ∧
      (∀ (i : Nat) (t : Term), k.program.terms[i]? = some t → t.id = .ofNat i) ∧
      k.program.loops.toList = file.loops ∧ k.program.functions.toList = file.functions ∧
      k.program.arrays.toList.map (·.name) = file.arrays.map (·.name) ∧
      k.regions = file.regions ∧ k.instantiations = file.instantiations ∧
      ∀ name, k.constants.get? name = lastValue? file.constants name := by
  refine ⟨⟨fun h => ?_, ok_of_wellFormed⟩, fun k hk => ?_⟩
  · obtain ⟨k, hk⟩ := h
    exact wellFormed_of_ok hk
  · obtain ⟨harrays, hconstants, hp, -, hregions, hinstantiations⟩ := toKernel_eq_ok hk
    have hholds := Program.ofTables_holds hp
    refine ⟨hholds.flat, hholds.resolved.numbered, ?_, ?_, names_eq harrays, hregions,
      hinstantiations, ?_⟩
    · rw [hholds.loops]
      rfl
    · rw [hholds.functions]
      rfl
    · have hstart : ∀ name, (∅ : Constants).get? name = lastValue? [] name := fun _ => rfl
      exact bindConstant_reads.state_of_ok hstart hconstants

end KernelFile

/-! A file with nothing but an array, which has a shape of its own and is declared as an alias. -/
namespace Stray

def decl : ArrayDecl := ⟨"A", .intArray, [4], none, false, some "missing"⟩

def file : KernelFile where
  arrays := [decl]
  nodes := []
  loops := []
  functions := []
  regions := []
  constants := []
  instantiations := []

/-- The shape does not make up for an alias of something that is not declared: the file would be
accepted without the alias. -/
theorem stray_alias_rejected :
    (∀ d ∈ file.arrays, d.Proper) ∧
    (∃ k, { file with arrays := [{ decl with aliasOf := none }] }.toKernel = .ok k) ∧
    file.toKernel = .error (.unsupported "A" (.undeclaredAlias "missing")) := by
  refine ⟨fun d hd => ?_, ⟨_, rfl⟩, rfl⟩
  cases List.mem_singleton.mp hd
  exact ⟨rfl, by decide, by decide, List.forall_mem_singleton.mpr (by decide)⟩

end Stray

end LoopSafety
