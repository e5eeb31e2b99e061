import Mathlib.Tactic.Common
import LoopSafety.Kernel.Basic
import LoopSafety.Scan

/-! Scanned contents. A cache that only scans of a program's arrays have filled holds, for every
storage, the result of some scan of it; so the extremes it answers with are those of the contents,
whatever was scanned before. -/
namespace LoopSafety

/-- A sequence that succeeds succeeds in both of its parts. -/
lemma bind_eq_ok {ε α β : Type} {x : Except ε α} {f : α → Except ε β} {b : β}
    (h : x >>= f = .ok b) : ∃ a, x = .ok a ∧ f a = .ok b := by
  cases x with
  | error e => cases h
  | ok a => exact ⟨a, rfl, h⟩

lemma eq_ok_get {ε α : Type} {x : Except ε α} (h : x.toOption.isSome) :
    x = .ok (x.toOption.get h) := by
  cases x with
  | error e => cases h
  | ok a => rfl

/-- What every step of a sequence keeps holds at its end, if it succeeds. -/
lemma foldlM_keeps {ε α β : Type} {step : β → α → Except ε β} (inv : β → Prop)
    (hstep : ∀ b a b', step b a = .ok b' → inv b → inv b') :
    ∀ (as : List α) (b b' : β), as.foldlM step b = .ok b' → inv b → inv b' := by
  intro as
  induction as with
  | nil =>
    rintro b _ ⟨⟩ hb
    exact hb
  | cons a as ih =>
    intro b b' hrun hb
    rw [List.foldlM_cons] at hrun
    obtain ⟨b₁, hfirst, hrest⟩ := bind_eq_ok hrun
    exact ih b₁ b' hrest (hstep b a b₁ hfirst hb)

namespace Contents

/-- The extremes of contents do not depend on whether repeats were looked for. -/
lemma scan_extremes {u u' : Bool} {values : List Int64} {c c' : Contents}
    (h : scan u values = some c) (h' : scan u' values = some c') : c.min = c'.min ∧ c.max = c'.max := by
  cases values with
  | nil => simp [scan] at h
  | cons v vs =>
    simp only [scan, Option.some.injEq] at h h'
    subst h h'
    exact ⟨rfl, rfl⟩

lemma scan_eq_none_iff (u : Bool) (values : List Int64) : scan u values = none ↔ values = [] := by
  cases values <;> simp [scan]

lemma foldl_min_le (vs : List Int64) (v : Int64) :
    (vs.foldl Min.min v).toInt ≤ v.toInt ∧ ∀ w ∈ vs, (vs.foldl Min.min v).toInt ≤ w.toInt := by
  induction vs generalizing v with
  | nil => simp
  | cons u us ih =>
    obtain ⟨hv, hw⟩ := ih (Min.min v u)
    simp only [Saturating.toInt_min] at hv
    simp only [List.foldl_cons, List.mem_cons, forall_eq_or_imp]
    refine ⟨by omega, by omega, hw⟩

lemma le_foldl_max (vs : List Int64) (v : Int64) :
    v.toInt ≤ (vs.foldl Max.max v).toInt ∧ ∀ w ∈ vs, w.toInt ≤ (vs.foldl Max.max v).toInt := by
  induction vs generalizing v with
  | nil => simp
  | cons u us ih =>
    obtain ⟨hv, hw⟩ := ih (Max.max v u)
    simp only [Saturating.toInt_max] at hv
    simp only [List.foldl_cons, List.mem_cons, forall_eq_or_imp]
    refine ⟨by omega, by omega, hw⟩

/-- Every scanned value lies between the extremes. -/
theorem scan_encloses {u : Bool} {values : List Int64} {c : Contents} (h : scan u values = some c)
    {v : Int64} (hv : v ∈ values) : c.min.toInt ≤ v.toInt ∧ v.toInt ≤ c.max.toInt := by
  cases values with
  | nil => simp at hv
  | cons w ws =>
    simp only [scan, Option.some.injEq] at h
    subst h
    have hlo := foldl_min_le ws w
    have hhi := le_foldl_max ws w
    rcases List.mem_cons.mp hv with rfl | hv
    · exact ⟨hlo.1, hhi.1⟩
    · exact ⟨hlo.2 v hv, hhi.2 v hv⟩

end Contents

namespace Binding

/-- The least and the greatest of a binding's contents, if it has any. -/
def extremes? (b : Binding) : Option (Int64 × Int64) :=
  b.storage.bind fun s => (Contents.scan false s.values).map fun c => (c.min, c.max)

end Binding

namespace Program

/-- Bindings with the same storage number have the same contents. A program that is read from a
file has this property, see `KernelFile.toKernel_sharesContents`. -/
def SharesContents (p : Program) : Prop :=
  ∀ b ∈ p.arrays, ∀ b' ∈ p.arrays, ∀ s s', b.storage = some s → b'.storage = some s' →
    s.identity = s'.identity → s.values = s'.values

instance (p : Program) : Decidable p.SharesContents :=
  decidable_of_iff (∀ b ∈ p.arrays.toList, ∀ b' ∈ p.arrays.toList, ∀ s ∈ b.storage,
    ∀ s' ∈ b'.storage, s.identity = s'.identity → s.values = s'.values)
    (by simp only [SharesContents, Array.mem_toList_iff, Option.mem_def]; grind)

lemma resolveNode_arrays {total : Nat} {p p' : Program} {node : Node NodeId}
    (h : p.resolveNode total node = .ok p') : p'.arrays = p.arrays := by
  unfold resolveNode at h
  obtain ⟨_, -, h⟩ := bind_eq_ok h
  obtain ⟨_, -, h⟩ := bind_eq_ok h
  cases h
  rfl

lemma ofTables_arrays {nodes : List (Node NodeId)} {loops : List LoopInfo} {arrays : List Binding}
    {functions : List FunctionDef} {p : Program}
    (h : ofTables nodes loops arrays functions = .ok p) : p.arrays = arrays.toArray := by
  unfold ofTables at h
  obtain ⟨p₁, hnodes, h⟩ := bind_eq_ok h
  obtain ⟨_, -, h⟩ := bind_eq_ok h
  obtain ⟨_, -, h⟩ := bind_eq_ok h
  cases h
  exact foldlM_keeps (fun q => q.arrays = arrays.toArray)
    (fun _ _ _ hstep hq => (resolveNode_arrays hstep).trans hq) nodes _ p hnodes rfl

lemma mem_arrays {p : Program} {id : ArrayId} {b : Binding} (h : p.array? id = some b) :
    b ∈ p.arrays := Array.mem_of_getElem? h

end Program

namespace KernelFile

/-- Storage numbers are positions of declarations, and each stands for one storage. -/
structure Numbered (bindings : List Binding) : Prop where
  below : ∀ b ∈ bindings, ∀ s, b.storage = some s → s.identity < bindings.length
  shared : ∀ b ∈ bindings, ∀ b' ∈ bindings, ∀ s s', b.storage = some s → b'.storage = some s' →
    s.identity = s'.identity → s = s'

lemma Numbered.snoc {bindings : List Binding} (h : Numbered bindings) {b : Binding}
    (hb : ∀ s, b.storage = some s → s.identity = bindings.length ∨
      ∃ b' ∈ bindings, b'.storage = some s) : Numbered (bindings ++ [b]) := by
  -- storage of the longer list is old, or it is the one that the new binding brings in
  have hcases : ∀ x ∈ bindings ++ [b], ∀ s, x.storage = some s →
      (∃ b' ∈ bindings, b'.storage = some s) ∨
        s.identity = bindings.length ∧ b.storage = some s := by
    intro x hx s hs
    rcases List.mem_append.mp hx with hx | hx
    · exact .inl ⟨x, hx, hs⟩
    · obtain rfl := List.mem_singleton.mp hx
      exact (hb s hs).symm.imp_right fun hid => ⟨hid, hs⟩
  constructor
  · intro x hx s hs
    rw [List.length_append, List.length_singleton]
    obtain ⟨b', hb', hs'⟩ | ⟨hid, -⟩ := hcases x hx s hs
    · exact Nat.lt_succ_of_lt (h.below b' hb' s hs')
    · omega
  · intro x hx x' hx' s s' hs hs' hid
    obtain ⟨c, hc, hcs⟩ | ⟨hnew, hbs⟩ := hcases x hx s hs <;>
      obtain ⟨c', hc', hcs'⟩ | ⟨hnew', hbs'⟩ := hcases x' hx' s' hs'
    · exact h.shared c hc c' hc' s s' hcs hcs' hid
    · have := h.below c hc s hcs
      omega
    · have := h.below c' hc' s' hcs'
      omega
    · exact Option.some.inj (hbs.symm.trans hbs')

lemma bindArray_numbered {bindings bindings' : List Binding} {decl : ArrayDecl}
    (h : bindArray bindings decl = .ok bindings') (hnum : Numbered bindings) :
    Numbered bindings' := by
  unfold bindArray at h
  split at h
  · split at h
    · next aliased hfind =>
      cases h
      exact hnum.snoc fun s hs => .inr ⟨aliased, List.mem_of_find?_eq_some hfind, hs⟩
    · cases h
  · obtain ⟨shape, -, h⟩ := bind_eq_ok h
    cases h
    refine hnum.snoc fun s hs => .inl ?_
    obtain ⟨values, -, rfl⟩ := Option.map_eq_some_iff.mp hs
    rfl

/-- Arrays that a file declares have one storage for each storage number. -/
theorem toKernel_sharesContents {file : KernelFile} {k : Kernel} (h : file.toKernel = .ok k) :
    k.program.SharesContents := by
  unfold toKernel at h
  obtain ⟨arrays, harrays, h⟩ := bind_eq_ok h
  obtain ⟨_, -, h⟩ := bind_eq_ok h
  obtain ⟨p, hp, h⟩ := bind_eq_ok h
  obtain ⟨_, -, h⟩ := bind_eq_ok h
  cases h
  have hnum : Numbered arrays := foldlM_keeps Numbered (fun _ _ _ => bindArray_numbered) _ _ _
    harrays ⟨by simp, by simp⟩
  intro b hb b' hb' s s' hs hs' hid
  simp only [Program.ofTables_arrays hp, List.mem_toArray] at hb hb'
  rw [hnum.shared b hb b' hb' s s' hs hs' hid]

end KernelFile

namespace ScanCache

/-- The caches that scans of a program's arrays leave behind. -/
inductive Reached (p : Program) : ScanCache → Prop
  | empty : Reached p {}
  | scan {c b} (u : Bool) (hb : b ∈ p.arrays) (before : Reached p c) : Reached p (c.getOrScan b u).2

/-- Every entry of a storage is the result of a scan of it. -/
def Describes (p : Program) (c : ScanCache) : Prop :=
  ∀ b ∈ p.arrays, ∀ s, b.storage = some s → ∀ found, c.entries.get? s.identity = some found →
    ∃ u, Contents.scan u s.values = some found

lemma describes_empty (p : Program) : Describes p {} := by
  intro b _ s _ found h
  simp at h

variable {p : Program} {c : ScanCache} {b : Binding}

/-- A cache that describes the contents answers with their extremes. -/
theorem getOrScan_extremes (h : c.Describes p) (hb : b ∈ p.arrays) (u : Bool) :
    (c.getOrScan b u).1.map (fun found => (found.min, found.max)) = b.extremes? := by
  unfold getOrScan Binding.extremes?
  cases hs : b.storage with
  | none => rfl
  | some s =>
    simp only [Option.bind_some]
    cases hf : (c.entries.get? s.identity).filter (answers u) with
    | some found =>
      obtain ⟨u', hu⟩ := h b hb s hs found (Option.filter_eq_some_iff.mp hf).1
      cases hn : Contents.scan false s.values with
      | none =>
        rw [(Contents.scan_eq_none_iff _ _).mp hn] at hu
        simp [Contents.scan] at hu
      | some fresh =>
        obtain ⟨hmin, hmax⟩ := Contents.scan_extremes hu hn
        simp [hmin, hmax]
    | none =>
      cases hv : s.values with
      | nil => simp [Contents.scan]
      | cons v vs => simp [Contents.scan]

/-- A request leaves the cache alone, or enters what it read. -/
lemma getOrScan_snd (c : ScanCache) (b : Binding) (u : Bool) :
    (c.getOrScan b u).2 = c ∨ ∃ s found, b.storage = some s ∧ Contents.scan u s.values = some found ∧
      (c.getOrScan b u).2 = { entries := c.entries.insert s.identity found, scans := c.scans + 1 } := by
  unfold getOrScan
  split
  · exact .inl rfl
  · next s hs =>
    split
    · exact .inl rfl
    · split
      · exact .inl rfl
      · next found hfound => exact .inr ⟨s, found, hs, hfound, rfl⟩

/-- A scan keeps a cache faithful, to all bindings of the storage it reads. -/
theorem describes_getOrScan (shares : p.SharesContents) (h : c.Describes p) (hb : b ∈ p.arrays)
    (u : Bool) : (c.getOrScan b u).2.Describes p := by
  obtain heq | ⟨s, fresh, hs, hfresh, heq⟩ := getOrScan_snd c b u
  · rw [heq]
    exact h
  · rw [heq]
    intro b' hb' s' hs' found hfound
    rw [Table.get?_insert] at hfound
    split at hfound
    · next hid =>
      rw [← shares b hb b' hb' s s' hs hs' hid]
      exact ⟨u, hfresh.trans hfound⟩
    · exact h b' hb' s' hs' found hfound

theorem Reached.describes (shares : p.SharesContents) (h : c.Reached p) : c.Describes p := by
  induction h with
  | empty => exact describes_empty p
  | scan u hb _ ih => exact describes_getOrScan shares ih hb u

end ScanCache

end LoopSafety
