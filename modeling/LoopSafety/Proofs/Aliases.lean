import LoopSafety.Proofs.Parallel

/-! Declared aliases.

A declaration denotes the storage that it brings in or, if it is an alias, that of the declaration it
names. Storage is told apart by the number of the declaration that brings in its contents, so only
storage with contents can be seen to have several names. -/
namespace LoopSafety

/-- What every successful step keeps, in view of the elements that it comes after. -/
lemma foldlM_keeps_done {ε α β : Type} {step : β → α → Except ε β} (inv : List α → β → Prop)
    (hstep : ∀ {done b a b'}, inv done b → step b a = .ok b' → inv (done ++ [a]) b')
    {as done : List α} {b b' : β} (hb : inv done b) (h : as.foldlM step b = .ok b') :
    inv (done ++ as) b' := by
  induction as generalizing done b with
  | nil =>
    cases h
    rwa [List.append_nil]
  | cons a as ih =>
    rw [List.foldlM_cons] at h
    obtain ⟨b₁, hfirst, hrest⟩ := bind_eq_ok h
    have hlast := ih (hstep hb hfirst) hrest
    rwa [List.append_assoc] at hlast

namespace Nest

lemma one_lt_length_eraseDups (texts : List String) :
    1 < texts.eraseDups.length ↔ ∃ a ∈ texts, ∃ b ∈ texts, a ≠ b := by
  cases texts with
  | nil => simp
  | cons x xs =>
    have hrest : 1 < (x :: xs).eraseDups.length ↔ ∃ y ∈ xs, y ≠ x := by
      rw [List.eraseDups_cons, List.length_cons, Nat.lt_add_left_iff_pos, List.length_pos_iff_exists_mem]
      simp [List.mem_eraseDups]
    rw [hrest]
    constructor
    · rintro ⟨y, hy, hne⟩
      exact ⟨y, List.mem_cons_of_mem x hy, x, List.mem_cons_self, hne⟩
    · rintro ⟨a, ha, b, hb, hne⟩
      by_cases hax : a = x
      · have hbx : b ≠ x := fun h => hne (hax.trans h.symm)
        exact ⟨b, (List.mem_cons.mp hb).resolve_left hbx, hbx⟩
      · exact ⟨a, (List.mem_cons.mp ha).resolve_left hax, hax⟩

lemma one_lt_length_sortedSet (texts : List String) :
    1 < (sortedSet texts).length ↔ ∃ a ∈ sortedSet texts, ∃ b ∈ sortedSet texts, a ≠ b := by
  simp only [mem_sortedSet]
  simp only [sortedSet, one_lt_length_eraseDups, List.mem_mergeSort]

end Nest

namespace Term

/-- The array is accessed in a tree. Ranges of loops are not part of it. -/
def Accesses (t : Term) (array : ArrayId) : Prop :=
  ∃ o ∈ t.occurrences [], ∃ indices, o.term.node = .access array indices

/-- An assignment in a tree has the array as its target. -/
def Assigns (t : Term) (array : ArrayId) : Prop :=
  ∃ o ∈ t.occurrences [], ∃ id indices value,
    o.term.node = .assign (.mk id (.access array indices)) value

end Term

namespace Program

variable {p : Program} {t : Term}

lemma mem_accessed {b : Binding} :
    b ∈ p.accessed t ↔ ∃ array, t.Accesses array ∧ p.array? array = some b := by
  unfold accessed Term.Accesses
  rw [List.mem_filterMap]
  constructor
  · rintro ⟨o, ho, hb⟩
    split at hb
    · next array indices hnode => exact ⟨array, ⟨o, ho, indices, hnode⟩, hb⟩
    · cases hb
  · rintro ⟨array, ⟨o, ho, indices, hnode⟩, hb⟩
    exact ⟨o, ho, by rw [hnode]; exact hb⟩

lemma mem_writtenArrays {b : Binding} :
    b ∈ p.writtenArrays t ↔ ∃ array, t.Assigns array ∧ p.array? array = some b := by
  unfold writtenArrays Term.Assigns
  rw [List.mem_filterMap]
  constructor
  · rintro ⟨o, ho, hb⟩
    split at hb
    · next id array indices value hnode =>
      exact ⟨array, ⟨o, ho, id, indices, value, hnode⟩, hb⟩
    · cases hb
  · rintro ⟨array, ⟨o, ho, id, indices, value, hnode⟩, hb⟩
    exact ⟨o, ho, by rw [hnode]; exact hb⟩

/-- Bindings with one storage and different names are accessed, and something is assigned under the
name of the first. -/
def Collide (p : Program) (t : Term) (first second : Binding) : Prop :=
  first ∈ p.accessed t ∧ second ∈ p.accessed t ∧ first.name ≠ second.name ∧
    (∃ identity, first.identity? = some identity ∧ second.identity? = some identity) ∧
    ∃ w ∈ p.writtenArrays t, w.name = first.name

lemma mem_namesOf {bindings : List Binding} {identity : Nat} {name : String} :
    name ∈ namesOf bindings identity ↔
      ∃ b ∈ bindings, b.identity? = some identity ∧ b.name = name := by
  simp [namesOf, Nest.mem_sortedSet, and_assoc]

/-- No loop of a region may run in parallel, whatever the oracle answers, exactly if a collision is
reported. -/
theorem blocked_iff {ctx : Context} {n : Nest} (h : Lowering.nest p ctx t = .ok n) :
    (∀ oracle d, p.dependences ctx oracle t = .ok d → ∀ v ∈ d.loops, ¬v.safe) ↔
      (p.collision? t).isSome := by
  constructor
  · intro hblocked
    rw [← Option.ne_none_iff_isSome]
    intro hnone
    -- an oracle that vouches for every loop would clear the outermost one
    have hroot : n.root.head.label ∈ n.loopLabels := List.mem_map_of_mem List.mem_cons_self
    obtain ⟨v, hv⟩ := exists_verdictOn h ((Oracle.fixed true []).answer n) hroot
    refine hblocked (.fixed true []) _ (dependences_eq h _) v
      (List.mem_filterMap.mpr ⟨_, hroot, hv⟩) ?_
    refine (verdictOn_eq_some hv).2.2.mpr ⟨Nest.mem_sortedSet.mpr hroot, hnone, fun x hx => ?_⟩
    obtain ⟨_, hedge, -⟩ := Relation.TransGen.head'_iff.mp hx
    cases hedge
  · intro hcollision oracle d hd v hv hsafe
    cases (dependences_eq h oracle).symm.trans hd
    obtain ⟨label, -, hv⟩ := List.mem_filterMap.mp hv
    rw [((verdictOn_eq_some hv).2.2.mp hsafe).2.1] at hcollision
    cases hcollision

/-- A collision is reported exactly if bindings collide. -/
theorem collision_isSome_iff : (p.collision? t).isSome ↔ ∃ a b, p.Collide t a b := by
  rw [collision?, List.find?_isSome]
  simp only [List.mem_map, exists_exists_and_eq_and, Bool.and_eq_true, decide_eq_true_eq,
    List.any_eq_true, List.contains_iff_mem, List.mem_eraseDups, List.mem_mergeSort,
    List.mem_filterMap]
  constructor
  · rintro ⟨identity, -, hlong, name, hname, w, hw, hwritten⟩
    obtain ⟨a, ha, hida, rfl⟩ := mem_namesOf.mp hname
    -- of two different names one is not the written one
    obtain ⟨other, hother, hne⟩ : ∃ other ∈ namesOf (p.accessed t) identity, a.name ≠ other := by
      obtain ⟨x, hx, y, hy, hxy⟩ := (Nest.one_lt_length_sortedSet _).mp hlong
      by_cases hax : a.name = x
      · exact ⟨y, hy, hax ▸ hxy⟩
      · exact ⟨x, hx, hax⟩
    obtain ⟨b, hb, hidb, rfl⟩ := mem_namesOf.mp hother
    exact ⟨a, b, ha, hb, hne, ⟨identity, hida, hidb⟩, w, hw, hwritten⟩
  · rintro ⟨a, b, ha, hb, hne, ⟨identity, hida, hidb⟩, w, hw, hwritten⟩
    have hnamea : a.name ∈ namesOf (p.accessed t) identity := mem_namesOf.mpr ⟨a, ha, hida, rfl⟩
    have hnameb : b.name ∈ namesOf (p.accessed t) identity := mem_namesOf.mpr ⟨b, hb, hidb, rfl⟩
    exact ⟨identity, ⟨a, ha, hida⟩,
      (Nest.one_lt_length_sortedSet _).mpr ⟨_, hnamea, _, hnameb, hne⟩, _, hnamea, w, hw, hwritten⟩

end Program

namespace KernelFile

/-- A declaration denotes the storage of the declaration `r`: its own, or that of the first earlier
declaration with the name that it is an alias of. -/
inductive Denotes (decls : List ArrayDecl) : Nat → Nat → Prop
  | own {i d} (declared : decls[i]? = some d) (plain : d.aliasOf = none) : Denotes decls i i
  | shared {i j r d target} (declared : decls[i]? = some d) (named : d.aliasOf = some target)
      (first : (decls.take i).findIdx? (·.name == target) = some j) (denotes : Denotes decls j r) :
      Denotes decls i r

/-- The declaration has contents. -/
def Live (decls : List ArrayDecl) (r : Nat) : Prop := ∃ d, decls[r]? = some d ∧ d.values.isSome

/-- What a binding takes from its declaration: contents of its own, or the storage of the binding it
is an alias of. -/
inductive Follows (decls : List ArrayDecl) (bindings : List Binding) (i : Nat) (d : ArrayDecl)
    (b : Binding) : Prop
  | own (plain : d.aliasOf = none) (storage : b.storage = d.values.map (Storage.mk i))
  | shared {target j b'} (named : d.aliasOf = some target)
      (first : (decls.take i).findIdx? (·.name == target) = some j) (bound : bindings[j]? = some b')
      (storage : b.storage = b'.storage)

/-- Bindings made of declarations one by one. -/
structure Binds (decls : List ArrayDecl) (bindings : List Binding) : Prop where
  names : bindings.map (·.name) = decls.map (·.name)
  follows : ∀ (i : Nat) d b, decls[i]? = some d → bindings[i]? = some b →
    Follows decls bindings i d b

variable {decls : List ArrayDecl} {bindings : List Binding}

lemma Binds.length_eq (h : Binds decls bindings) : bindings.length = decls.length := by
  simpa using congrArg List.length h.names

lemma Binds.name_eq (h : Binds decls bindings) {i : Nat} {d : ArrayDecl} {b : Binding}
    (hd : decls[i]? = some d) (hb : bindings[i]? = some b) : b.name = d.name := by
  have hnames := congrArg (fun names => names[i]?) h.names
  simpa [List.getElem?_map, hd, hb] using hnames

/-- The first binding with a name belongs to the first declaration with it. -/
lemma Binds.findIdx?_eq (h : Binds decls bindings) (target : String) :
    decls.findIdx? (·.name == target) = bindings.findIdx? (·.name == target) := by
  have hmap : ∀ {β : Type} (xs : List β) (name : β → String),
      xs.findIdx? (name · == target) = (xs.map name).findIdx? (· == target) := by
    intro β xs name
    rw [List.findIdx?_map]
    rfl
  rw [hmap decls (·.name), hmap bindings (·.name), h.names]

lemma Follows.append {i : Nat} {d : ArrayDecl} {b : Binding} (h : Follows decls bindings i d b)
    (hi : i < decls.length) (more : List ArrayDecl) (new : List Binding) :
    Follows (decls ++ more) (bindings ++ new) i d b := by
  cases h with
  | own plain storage => exact .own plain storage
  | @shared target j b' named first bound storage =>
    have hbound : (bindings ++ new)[j]? = some b' := by
      rw [List.getElem?_append_left (List.getElem?_eq_some_iff.mp bound).1, bound]
    refine .shared named ?_ hbound storage
    rw [List.take_append_of_le_length (Nat.le_of_lt hi), first]

/-- One more declaration and its binding. -/
lemma Binds.append {d : ArrayDecl} {b : Binding} (h : Binds decls bindings) (hname : b.name = d.name)
    (hb : Follows (decls ++ [d]) (bindings ++ [b]) decls.length d b) :
    Binds (decls ++ [d]) (bindings ++ [b]) := by
  refine ⟨by simp [h.names, hname], fun i d' b' hd' hb' => ?_⟩
  have hlength := h.length_eq
  rcases Nat.lt_or_ge i decls.length with hi | hi
  · rw [List.getElem?_append_left hi] at hd'
    rw [List.getElem?_append_left (hlength ▸ hi)] at hb'
    exact (h.follows i d' b' hd' hb').append hi _ _
  · have hlast : i = decls.length := by
      have := (List.getElem?_eq_some_iff.mp hd').1
      simp only [List.length_append, List.length_singleton] at this
      omega
    subst hlast
    rw [List.getElem?_concat_length, Option.some.injEq] at hd'
    rw [← hlength, List.getElem?_concat_length, Option.some.injEq] at hb'
    subst hd' hb'
    exact hb

lemma Binds.bindArray {d : ArrayDecl} {bindings' : List Binding} (h : Binds decls bindings)
    (hstep : bindArray bindings d = .ok bindings') : Binds (decls ++ [d]) bindings' := by
  unfold KernelFile.bindArray at hstep
  split at hstep
  · next target htarget =>
    split at hstep
    · next aliased hfind =>
      cases hstep
      refine h.append rfl ?_
      rw [List.find?_eq_bind_findIdx?_getElem?, Option.bind_eq_some_iff] at hfind
      obtain ⟨j, hj, haliased⟩ := hfind
      have hfirst : ((decls ++ [d]).take decls.length).findIdx? (·.name == target) = some j := by
        rw [List.take_append_of_le_length (Nat.le_refl _), List.take_length, h.findIdx?_eq, hj]
      have hbound : (bindings ++ [{ aliased with name := d.name, readOnly := d.readOnly }])[j]? =
          some aliased := by
        rw [List.getElem?_append_left (List.getElem?_eq_some_iff.mp haliased).1, haliased]
      exact .shared htarget hfirst hbound rfl
    · cases hstep
  · next hown =>
    obtain ⟨shape, -, hstep⟩ := bind_eq_ok hstep
    cases hstep
    exact h.append rfl (.own hown (by rw [h.length_eq]))

/-- What binding one more array keeps holds of all declarations of a file and their bindings. -/
lemma toKernel_arrays {file : KernelFile} {k : Kernel} (h : file.toKernel = .ok k)
    (inv : List ArrayDecl → List Binding → Prop) (hnil : inv [] [])
    (hstep : ∀ {done bindings d bindings'}, inv done bindings →
      KernelFile.bindArray bindings d = .ok bindings' → inv (done ++ [d]) bindings') :
    inv file.arrays k.program.arrays.toList := by
  unfold toKernel at h
  obtain ⟨arrays, harrays, h⟩ := bind_eq_ok h
  obtain ⟨_, -, h⟩ := bind_eq_ok h
  obtain ⟨p, hp, h⟩ := bind_eq_ok h
  obtain ⟨_, -, h⟩ := bind_eq_ok h
  cases h
  rw [Program.ofTables_arrays hp]
  exact foldlM_keeps_done inv hstep hnil harrays

theorem toKernel_binds {file : KernelFile} {k : Kernel} (h : file.toKernel = .ok k) :
    Binds file.arrays k.program.arrays.toList :=
  toKernel_arrays h Binds ⟨rfl, by simp⟩ Binds.bindArray

/-- A binding has the storage that its declaration denotes. -/
lemma Binds.storage_eq (h : Binds decls bindings) {i r : Nat} (hdenotes : Denotes decls i r) :
    ∃ d, decls[r]? = some d ∧
      ∀ b, bindings[i]? = some b → b.storage = d.values.map (Storage.mk r) := by
  induction hdenotes with
  | @own i d declared plain =>
    refine ⟨d, declared, fun b hb => ?_⟩
    cases h.follows i d b declared hb with
    | own _ storage => exact storage
    | shared named => cases plain.symm.trans named
  | @shared i j r d target declared named first _ ih =>
    obtain ⟨dr, hdr, hstorage⟩ := ih
    refine ⟨dr, hdr, fun b hb => ?_⟩
    cases h.follows i d b declared hb with
    | own plain => cases plain.symm.trans named
    | shared named' first' bound storage =>
      cases named.symm.trans named'
      cases first.symm.trans first'
      rw [storage, hstorage _ bound]

/-- Every binding's declaration denotes some storage: chains of aliases end. -/
lemma Binds.exists_denotes (h : Binds decls bindings) {i : Nat} {d : ArrayDecl}
    (hd : decls[i]? = some d) : ∃ r, Denotes decls i r := by
  induction i using Nat.strongRecOn generalizing d with
  | ind i ih =>
    obtain ⟨b, hb⟩ : ∃ b, bindings[i]? = some b := by
      have hlt := (List.getElem?_eq_some_iff.mp hd).1
      exact ⟨_, List.getElem?_eq_getElem (h.length_eq ▸ hlt)⟩
    cases h.follows i d b hd hb with
    | own plain => exact ⟨i, .own hd plain⟩
    | @shared target j b' named first =>
      obtain ⟨hlt, -, -⟩ := List.findIdx?_eq_some_iff_getElem.mp first
      rw [List.length_take] at hlt
      obtain ⟨r, hr⟩ := ih j (by omega) (List.getElem?_eq_getElem (show j < decls.length by omega))
      exact ⟨r, .shared hd named first hr⟩

/-- Storage has a number exactly if it has contents, and then that of the declaration that brings
them in. -/
lemma Binds.identity_iff (h : Binds decls bindings) {i r : Nat} {d : ArrayDecl} {b : Binding}
    (hd : decls[i]? = some d) (hb : bindings[i]? = some b) :
    b.identity? = some r ↔ Denotes decls i r ∧ Live decls r := by
  have hidentity : ∀ {r'}, Denotes decls i r' → ∃ dr, decls[r']? = some dr ∧
      b.identity? = dr.values.map fun _ => r' := by
    intro r' hr'
    obtain ⟨dr, hdr, hstorage⟩ := h.storage_eq hr'
    refine ⟨dr, hdr, ?_⟩
    rw [Binding.identity?, hstorage b hb, Option.map_map]
    rfl
  constructor
  · intro hid
    obtain ⟨r', hr'⟩ := h.exists_denotes hd
    obtain ⟨dr, hdr, heq⟩ := hidentity hr'
    obtain ⟨values, hvalues, rfl⟩ := Option.map_eq_some_iff.mp (heq.symm.trans hid)
    exact ⟨hr', dr, hdr, by rw [hvalues]; rfl⟩
  · rintro ⟨hr, dr, hdr, hlive⟩
    obtain ⟨dr', hdr', heq⟩ := hidentity hr
    cases hdr.symm.trans hdr'
    obtain ⟨values, hvalues⟩ := Option.isSome_iff_exists.mp hlive
    rw [heq, hvalues]
    rfl

/-- The storage of the declaration `r` is accessed under two names, and something is assigned under
the first of them. -/
def AliasesMeet (decls : List ArrayDecl) (t : Term) (r : Nat) : Prop :=
  ∃ a b c da db dc, t.Accesses a ∧ t.Accesses b ∧ t.Assigns c ∧
    decls[a.toNat]? = some da ∧ decls[b.toNat]? = some db ∧ decls[c.toNat]? = some dc ∧
    da.name ≠ db.name ∧ dc.name = da.name ∧ Denotes decls a.toNat r ∧ Denotes decls b.toNat r

section

variable {file : KernelFile} {k : Kernel} {id : ArrayId} {d : ArrayDecl} {b : Binding}

lemma array?_eq (k : Kernel) (id : ArrayId) :
    k.program.array? id = k.program.arrays.toList[id.toNat]? := Array.getElem?_toList.symm

lemma exists_decl (h : file.toKernel = .ok k) (hb : k.program.array? id = some b) :
    ∃ d, file.arrays[id.toNat]? = some d := by
  rw [array?_eq] at hb
  have hlt := (List.getElem?_eq_some_iff.mp hb).1
  exact ⟨_, List.getElem?_eq_getElem ((toKernel_binds h).length_eq ▸ hlt)⟩

lemma exists_binding (h : file.toKernel = .ok k) (hd : file.arrays[id.toNat]? = some d) :
    ∃ b, k.program.array? id = some b := by
  have hlt := (List.getElem?_eq_some_iff.mp hd).1
  rw [array?_eq]
  exact ⟨_, List.getElem?_eq_getElem ((toKernel_binds h).length_eq ▸ hlt)⟩

lemma binding_name (h : file.toKernel = .ok k) (hd : file.arrays[id.toNat]? = some d)
    (hb : k.program.array? id = some b) : b.name = d.name :=
  (toKernel_binds h).name_eq hd (array?_eq k id ▸ hb)

lemma binding_identity_iff (h : file.toKernel = .ok k) (hd : file.arrays[id.toNat]? = some d)
    (hb : k.program.array? id = some b) {r : Nat} :
    b.identity? = some r ↔ Denotes file.arrays id.toNat r ∧ Live file.arrays r :=
  (toKernel_binds h).identity_iff hd (array?_eq k id ▸ hb)

end

lemma exists_collide_iff {file : KernelFile} {k : Kernel} (h : file.toKernel = .ok k) {t : Term} :
    (∃ a b, k.program.Collide t a b) ↔ ∃ r, AliasesMeet file.arrays t r ∧ Live file.arrays r := by
  constructor
  · rintro ⟨x, y, hx, hy, hne, ⟨r, hidx, hidy⟩, w, hw, hname⟩
    obtain ⟨a, ha, hax⟩ := Program.mem_accessed.mp hx
    obtain ⟨b, hb, hby⟩ := Program.mem_accessed.mp hy
    obtain ⟨c, hc, hcw⟩ := Program.mem_writtenArrays.mp hw
    obtain ⟨da, hda⟩ := exists_decl h hax
    obtain ⟨db, hdb⟩ := exists_decl h hby
    obtain ⟨dc, hdc⟩ := exists_decl h hcw
    obtain ⟨hdenotesa, hlive⟩ := (binding_identity_iff h hda hax).mp hidx
    obtain ⟨hdenotesb, -⟩ := (binding_identity_iff h hdb hby).mp hidy
    rw [binding_name h hda hax, binding_name h hdb hby] at hne
    rw [binding_name h hdc hcw, binding_name h hda hax] at hname
    exact ⟨r, ⟨a, b, c, da, db, dc, ha, hb, hc, hda, hdb, hdc, hne, hname, hdenotesa, hdenotesb⟩,
      hlive⟩
  · rintro ⟨r, ⟨a, b, c, da, db, dc, ha, hb, hc, hda, hdb, hdc, hne, hname, hdenotesa, hdenotesb⟩,
      hlive⟩
    obtain ⟨x, hax⟩ := exists_binding h hda
    obtain ⟨y, hby⟩ := exists_binding h hdb
    obtain ⟨w, hcw⟩ := exists_binding h hdc
    rw [← binding_name h hda hax, ← binding_name h hdb hby] at hne
    rw [← binding_name h hdc hcw, ← binding_name h hda hax] at hname
    exact ⟨x, y, Program.mem_accessed.mpr ⟨a, ha, hax⟩, Program.mem_accessed.mpr ⟨b, hb, hby⟩, hne,
      ⟨r, (binding_identity_iff h hda hax).mpr ⟨hdenotesa, hlive⟩,
        (binding_identity_iff h hdb hby).mpr ⟨hdenotesb, hlive⟩⟩,
      w, Program.mem_writtenArrays.mpr ⟨c, hc, hcw⟩, hname⟩

/-- No loop of a region may run in parallel, whatever the oracle answers, exactly if the region meets
storage with contents under two names and assigns under one of them. -/
theorem aliases_block_iff_live {file : KernelFile} {k : Kernel} (h : file.toKernel = .ok k)
    {t : Term} {ctx : Context} {n : Nest} (hnest : Lowering.nest k.program ctx t = .ok n) :
    (∀ oracle d, k.program.dependences ctx oracle t = .ok d → ∀ v ∈ d.loops, ¬v.safe) ↔
      ∃ r, AliasesMeet file.arrays t r ∧ Live file.arrays r := by
  rw [Program.blocked_iff hnest, Program.collision_isSome_iff, exists_collide_iff h]

end KernelFile

/-! `A[i] = C[i + 1]` over ten cells, where `C` is an alias of `B` and `B` one of `A`. -/
namespace Chained

def arrays (values : Option (List Int64)) : List ArrayDecl :=
  [⟨"A", .intArray, [11], values, false, none⟩, ⟨"B", .intArray, [11], none, false, some "A"⟩,
    ⟨"C", .intArray, [11], none, false, some "B"⟩]

def file (values : Option (List Int64)) : KernelFile where
  arrays := arrays values
  nodes :=
    [.var "i" .int none, .literal (.int 1), .binary .add ⟨0⟩ ⟨1⟩ .int, .access ⟨0⟩ [⟨0⟩],
      .access ⟨2⟩ [⟨2⟩], .assign ⟨3⟩ ⟨4⟩, .forLoop ⟨0⟩ ⟨5⟩]
  loops := [⟨"i", .int, .simple ⟨0, 10, 1⟩⟩]
  functions := []
  regions := [⟨6⟩]
  constants := []
  instantiations := []

def index : Term := ⟨⟨0⟩, .var "i" .int none⟩
def next : Term := ⟨⟨2⟩, .binary .add index ⟨⟨1⟩, .literal (.int 1)⟩ .int⟩
def target : Term := ⟨⟨3⟩, .access ⟨0⟩ [index]⟩
def value : Term := ⟨⟨4⟩, .access ⟨2⟩ [next]⟩
def statement : Term := ⟨⟨5⟩, .assign target value⟩
def region : Term := ⟨⟨6⟩, .forLoop ⟨0⟩ statement⟩

def program (storage : Option Storage) : Program where
  terms := #[index, ⟨⟨1⟩, .literal (.int 1)⟩, next, target, value, statement, region]
  loops := #[⟨"i", .int, .simple ⟨0, 10, 1⟩⟩]
  arrays := #[⟨"A", ⟨.intArray, [11]⟩, storage, false⟩, ⟨"B", ⟨.intArray, [11]⟩, storage, false⟩,
    ⟨"C", ⟨.intArray, [11]⟩, storage, false⟩]

def kernel (values : Option (List Int64)) : Kernel where
  program := program (values.map (Storage.mk 0))
  regions := [⟨6⟩]
  constants := ∅
  instantiations := []

lemma toKernel_eq (values : Option (List Int64)) : (file values).toKernel = .ok (kernel values) := rfl

lemma aliases_meet (values : Option (List Int64)) :
    KernelFile.AliasesMeet (file values).arrays region 0 := by
  refine ⟨⟨0⟩, ⟨2⟩, ⟨0⟩, _, _, _, ⟨⟨target, [⟨0⟩]⟩, ?_, [index], rfl⟩, ⟨⟨value, [⟨0⟩]⟩, ?_, [next], rfl⟩,
    ⟨⟨statement, [⟨0⟩]⟩, ?_, ⟨3⟩, [index], value, rfl⟩, rfl, rfl, rfl, by simp, rfl, .own rfl rfl,
    .shared rfl rfl rfl (.shared rfl rfl rfl (.own rfl rfl))⟩
  · simp [region, statement, target, Term.occurrences, Term.nodeOccurrences]
  · simp [region, statement, value, Term.occurrences, Term.nodeOccurrences]
  · simp [region, statement, Term.occurrences, Term.nodeOccurrences]

lemma nest_isSome (storage : Option Storage) :
    (Lowering.nest (program storage) {} region).toOption.isSome := rfl

def zeros : List Int64 := List.replicate 11 0

/-- With contents the chain is seen. -/
theorem live_chain_blocks :
    (file (some zeros)).toKernel = .ok (kernel (some zeros)) ∧
    KernelFile.AliasesMeet (file (some zeros)).arrays region 0 ∧
    KernelFile.Live (file (some zeros)).arrays 0 ∧
    ∀ oracle d, (kernel (some zeros)).program.dependences {} oracle region = .ok d →
      ∀ v ∈ d.loops, ¬v.safe := by
  have hlive : KernelFile.Live (file (some zeros)).arrays 0 := ⟨_, rfl, rfl⟩
  refine ⟨toKernel_eq _, aliases_meet _, hlive, ?_⟩
  exact (KernelFile.aliases_block_iff_live (toKernel_eq _) (eq_ok_get (nest_isSome _))).mpr
    ⟨0, aliases_meet _, hlive⟩

lemma dependences_isSome :
    ((kernel none).program.dependences {} .subscript region).toOption.isSome := by decide +kernel

/-- Without contents it is not: every iteration but the last reads the cell that the next one writes,
and the loop may still run in parallel. -/
theorem contentless_chain_unseen :
    (file none).toKernel = .ok (kernel none) ∧ (kernel none).regions = [⟨6⟩] ∧
    (kernel none).program.term? ⟨6⟩ = some region ∧
    KernelFile.AliasesMeet (file none).arrays region 0 ∧
    ∃ d, (kernel none).program.dependences {} .subscript region = .ok d ∧
      ∃ v ∈ d.loops, v.safe := by
  refine ⟨toKernel_eq _, rfl, rfl, aliases_meet _, _, eq_ok_get dependences_isSome, ?_⟩
  rw [← List.any_eq_true]
  decide +kernel

end Chained

end LoopSafety
