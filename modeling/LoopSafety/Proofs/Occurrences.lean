import LoopSafety.Proofs.Sessions

/-! Constructs that occur more than once.

A construct may stand under several loops, and then its occurrences are decided one by one, each
under its own loops. Verdicts are kept by number, so what is stored is the verdict on the last
occurrence. It speaks for the others only if they are safe whenever the last one is. -/
namespace LoopSafety

/-- The last of the targets with its number. -/
def Occurrence.LastIn (targets : List Occurrence) (t : Occurrence) : Prop :=
  ∃ before after, targets = before ++ t :: after ∧ ∀ u ∈ after, u.term.id ≠ t.term.id

lemma Occurrence.LastIn.mem {targets : List Occurrence} {t : Occurrence} (h : t.LastIn targets) :
    t ∈ targets := by
  obtain ⟨before, after, rfl, -⟩ := h
  simp

lemma verdictTable_get?_last {β : Type} {verdict : Occurrence → Option β}
    {targets : List Occurrence} (hall : ∀ t ∈ targets, (verdict t).isSome) {node : NodeId} {v : β} :
    (verdictTable verdict targets).get? node = some v ↔
      ∃ t, t.LastIn targets ∧ t.term.id = node ∧ verdict t = some v := by
  rw [verdictTable_get?]
  constructor
  · rintro ⟨before, t, after, rfl, rfl, hv, hafter⟩
    refine ⟨t, ⟨before, after, rfl, fun u hu hid => ?_⟩, rfl, hv⟩
    have hsome := hall u (by simp [hu])
    rw [hafter u hu hid] at hsome
    cases hsome
  · rintro ⟨t, ⟨before, after, rfl, hafter⟩, rfl, hv⟩
    exact ⟨before, t, after, rfl, rfl, hv, fun u hu hid => absurd hid (hafter u hu)⟩

/-- The target reads an array with one index for each of its dimensions, of these sizes. -/
def Occurrence.Indexes (p : Program) (t : Occurrence) (sizes : List Int64) : Prop :=
  ∃ array indices binding, t.term.node = .access array indices ∧ p.array? array = some binding ∧
    binding.shape.dimensions = sizes ∧ indices.length = sizes.length

lemma Program.extents_eq_some_iff {p : Program} {t : Occurrence} {sizes : List Int64} :
    p.extents t = .ok (some sizes) ↔ t.Indexes p sizes := by
  unfold extents
  constructor
  · intro h
    split at h
    · next array indices hnode =>
      split at h
      · cases h
      · next binding harray =>
        dsimp only at h
        split at h
        · cases h
        · next hrank =>
          cases h
          exact ⟨array, indices, binding, hnode, harray, rfl, not_not.mp hrank⟩
    · cases h
  · rintro ⟨array, indices, binding, hnode, harray, rfl, hrank⟩
    simp [hnode, harray, hrank]

namespace Context

/-- The index of an access in a dimension, narrowed under the loops of the access, is known to lie
inside the array. -/
def AccessSafe (p : Program) (ctx : Context) (t : Occurrence) (d : Nat) : Prop :=
  ∃ array indices binding size b, t.term.node = .access array indices ∧
    p.array? array = some binding ∧ binding.shape.dimensions[d]? = some size ∧
    ((ctx.accessBounds.get? t.term.id).getD [])[d]? = some b ∧ ctx.config.boundCheck ∧
    (ctx.narrowed p t.loops b).2 ∧ (ctx.narrowed p t.loops b).1.within size

/-- The value of an operation, narrowed under the loops of the operation, is known to stay away from
the extremes of its type. -/
def OperationSafe (p : Program) (ctx : Context) (t : Occurrence) : Prop :=
  ∀ lo hi, (p.typeOf t.term).limits = some (lo, hi) → ∃ b,
    ctx.overflowBounds.get? t.term.id = some b ∧ ctx.config.boundCheck ∧
    (ctx.narrowed p t.loops b).2 ∧ (ctx.narrowed p t.loops b).1.avoids lo hi

/-- The index of an access in a dimension is known to lie inside the array, with the contents that are
in the cache. -/
def IndexProved (p : Program) (ctx : Context) (t : Occurrence) (d : Nat) : Prop :=
  ∃ array indices binding size b, t.term.node = .access array indices ∧
    p.array? array = some binding ∧ binding.shape.dimensions[d]? = some size ∧
    ((ctx.accessBounds.get? t.term.id).getD [])[d]? = some b ∧ ctx.config.boundCheck ∧
    (ctx.checked p t.loops b).2 ∧ (ctx.checked p t.loops b).1.within size

/-- The value of an operation is known to stay away from the extremes of its type, with the contents
that are in the cache. -/
def OperationProved (p : Program) (ctx : Context) (t : Occurrence) : Prop :=
  ∀ lo hi, (p.typeOf t.term).limits = some (lo, hi) → ∃ b,
    ctx.overflowBounds.get? t.term.id = some b ∧ ctx.config.boundCheck ∧
    (ctx.checked p t.loops b).2 ∧ (ctx.checked p t.loops b).1.avoids lo hi

variable {p : Program} {ctx : Context} {t : Occurrence}

lemma basis_indexProved {d : Nat} : ctx.basis.IndexProved p t d ↔ ctx.AccessSafe p t d := by
  simp only [IndexProved, AccessSafe, basis_checked]
  rfl

lemma basis_operationProved : ctx.basis.OperationProved p t ↔ ctx.OperationSafe p t := by
  simp only [OperationProved, OperationSafe, basis_checked]
  rfl

lemma indexBounds_getElem? {node : NodeId} {rank d : Nat} (hd : d < rank) :
    (ctx.indexBounds node rank)[d]? = some ((ctx.accessBounds.get? node).getD [])[d]? := by
  simp [indexBounds, hd]

lemma judgeIndex_eq_false_iff {loops : List LoopId} {size : Int64} {bound : Option Bound} :
    ctx.judgeIndex p loops size bound = false ↔ ∃ b, bound = some b ∧ ctx.config.boundCheck ∧
      (ctx.checked p loops b).2 ∧ (ctx.checked p loops b).1.within size := by
  cases bound with
  | none => simp [judgeIndex]
  | some b => simp [judgeIndex]

lemma judgeAccess_of_indexes (ctx : Context) {t : Occurrence} {sizes : List Int64}
    (h : t.Indexes p sizes) :
    ∃ dims, ctx.judgeAccess p t = .ok (some dims) ∧ dims.length = sizes.length := by
  rw [judgeAccess, Program.extents_eq_some_iff.mpr h]
  exact ⟨_, rfl, by simp [indexBounds_length]⟩

lemma judgeAccess_safe_iff {dims : List Bool} (h : ctx.judgeAccess p t = .ok (some dims)) (d : Nat) :
    dims[d]? = some false ↔ ctx.IndexProved p t d := by
  obtain ⟨sizes, hsizes, rfl⟩ : ∃ sizes, p.extents t = .ok (some sizes) ∧
      List.zipWith (ctx.judgeIndex p t.loops) sizes (ctx.indexBounds t.term.id sizes.length) = dims := by
    unfold judgeAccess at h
    rcases hextents : p.extents t with e | none | sizes
    · rw [hextents] at h
      cases h
    · rw [hextents] at h
      cases h
    · rw [hextents] at h
      cases h
      exact ⟨sizes, rfl, rfl⟩
  obtain ⟨array, indices, binding, hnode, harray, rfl, -⟩ := Program.extents_eq_some_iff.mp hsizes
  rw [List.getElem?_zipWith_eq_some]
  constructor
  · rintro ⟨size, bound, hsize, hbound, hproves⟩
    obtain ⟨hd, -⟩ := List.getElem?_eq_some_iff.mp hsize
    rw [indexBounds_getElem? hd, Option.some.injEq] at hbound
    obtain ⟨b, hb, hsafe⟩ := judgeIndex_eq_false_iff.mp hproves
    exact ⟨array, indices, binding, size, b, hnode, harray, hsize, hbound.trans hb, hsafe⟩
  · rintro ⟨array', indices', binding', size, b, hnode', harray', hsize, hb, hsafe⟩
    cases hnode.symm.trans hnode'
    cases harray.symm.trans harray'
    obtain ⟨hd, -⟩ := List.getElem?_eq_some_iff.mp hsize
    exact ⟨size, some b, hsize, by rw [indexBounds_getElem? hd, hb],
      judgeIndex_eq_false_iff.mpr ⟨b, rfl, hsafe⟩⟩

lemma judgeOperation_eq_false_iff : ctx.judgeOperation p t = false ↔ ctx.OperationProved p t := by
  unfold judgeOperation OperationProved
  cases (p.typeOf t.term).limits with
  | none => simp
  | some limits =>
    obtain ⟨lo, hi⟩ := limits
    cases ctx.overflowBounds.get? t.term.id with
    | none => simp
    | some b => simp

lemma decideAccess_safe_iff {dims : List Bool} (h : ctx.decideAccess p t = .ok (some dims)) (d : Nat) :
    dims[d]? = some false ↔ ctx.AccessSafe p t d := by
  rw [← basis_judgeAccess] at h
  rw [judgeAccess_safe_iff h, basis_indexProved]

lemma decideOperation_safe_iff : ctx.decideOperation p t = false ↔ ctx.OperationSafe p t := by
  rw [← basis_judgeOperation, judgeOperation_eq_false_iff, basis_operationProved]

lemma exists_dims_of_isAccess {v : Option (List Bool)} (ht : t.isAccess)
    (h : ctx.decideAccess p t = .ok v) : ∃ dims, v = some dims := by
  unfold Occurrence.isAccess at ht
  unfold decideAccess at h
  split at h
  · split at h
    · cases h
    · dsimp only at h
      split at h
      · cases h
      · cases h
        exact ⟨_, rfl⟩
  · next hnode =>
    split at ht
    · next array indices hnode' => exact absurd hnode' (hnode array indices)
    · cases ht

/-- An access is stored as safe in a dimension exactly if its last occurrence is. -/
theorem accessTable_safe_iff (hdecided : ctx.Decided p) (hall : ∀ t ∈ ctx.accesses, t.isAccess)
    {node : NodeId} {d : Nat} :
    SafeIndex (ctx.accessTable p) node d ↔
      ∃ t, t.LastIn ctx.accesses ∧ t.term.id = node ∧ ctx.AccessSafe p t d := by
  have hdims : ∀ t ∈ ctx.accesses, ∃ dims, ctx.decideAccess p t = .ok (some dims) := by
    intro t ht
    obtain ⟨v, hv⟩ := hdecided t ht
    obtain ⟨dims, rfl⟩ := exists_dims_of_isAccess (hall t ht) hv
    exact ⟨dims, hv⟩
  have hsome : ∀ t ∈ ctx.accesses, (ctx.accessVerdict? p t).isSome := by
    intro t ht
    obtain ⟨dims, hd⟩ := hdims t ht
    rw [accessVerdict?_eq_some.mpr hd]
    rfl
  simp only [SafeIndex, accessTable, verdictTable_get?_last hsome, accessVerdict?_eq_some]
  constructor
  · rintro ⟨dims, ⟨t, hlast, hid, hdecide⟩, hd⟩
    exact ⟨t, hlast, hid, (decideAccess_safe_iff hdecide d).mp hd⟩
  · rintro ⟨t, hlast, hid, hsafe⟩
    obtain ⟨dims, hdecide⟩ := hdims t hlast.mem
    exact ⟨dims, ⟨t, hlast, hid, hdecide⟩, (decideAccess_safe_iff hdecide d).mpr hsafe⟩

/-- An operation is stored as safe exactly if its last occurrence is. -/
theorem operationTable_safe_iff {node : NodeId} :
    (ctx.operationTable p).get? node = some false ↔
      ∃ t, t.LastIn ctx.overflowChecks ∧ t.term.id = node ∧ ctx.OperationSafe p t := by
  simp only [operationTable, verdictTable_get?_last fun _ _ => Option.isSome_some,
    Option.some.injEq, decideOperation_safe_iff]

end Context

namespace Session

/-- After preparation, stored verdicts cover all occurrences of the targets exactly if every
occurrence is safe whenever the last one of the same number is. -/
theorem stored_verdicts_cover_iff {p : Program} (shares : p.SharesContents) {root : Term}
    {config : Config} {constants : Constants} {s : Session}
    (h : (Session.new root config constants).prepare p = (.ok (), s)) :
    ((∀ node d, Context.SafeIndex s.context.accessVerdicts node d →
        ∀ t ∈ s.context.accesses, t.term.id = node → s.context.AccessSafe p t d) ∧
      ∀ node, s.context.overflowVerdicts.get? node = some false →
        ∀ t ∈ s.context.overflowChecks, t.term.id = node → s.context.OperationSafe p t) ↔
    (∀ t d, t.LastIn s.context.accesses → s.context.AccessSafe p t d →
        ∀ u ∈ s.context.accesses, u.term.id = t.term.id → s.context.AccessSafe p u d) ∧
      ∀ t, t.LastIn s.context.overflowChecks → s.context.OperationSafe p t →
        ∀ u ∈ s.context.overflowChecks, u.term.id = t.term.id → s.context.OperationSafe p u := by
  obtain ⟨hprepared, hreset⟩ := prepare_ok shares h
  have hall : ∀ t ∈ s.context.accesses, t.isAccess := by
    rw [(Context.targets_of_reset_eq hreset).1]
    exact fun t ht => (List.mem_filter.mp ht).2
  rw [hprepared.access, hprepared.overflow]
  simp only [Context.accessTable_safe_iff hprepared.decided hall, Context.operationTable_safe_iff]
  constructor
  · rintro ⟨haccess, hoperation⟩
    exact ⟨fun t d hlast hsafe => haccess _ d ⟨t, hlast, rfl, hsafe⟩,
      fun t hlast hsafe => hoperation _ ⟨t, hlast, rfl, hsafe⟩⟩
  · rintro ⟨haccess, hoperation⟩
    constructor
    · rintro _ d ⟨t, hlast, rfl, hsafe⟩
      exact haccess t d hlast hsafe
    · rintro _ ⟨t, hlast, rfl, hsafe⟩
      exact hoperation t hlast hsafe

end Session

/-! One access to an array of ten cells as the body of two loops over `i`. -/
namespace SharedCell

def nodes : List (Node NodeId) :=
  [.var "i" .int none, .access ⟨0⟩ [⟨0⟩], .forLoop ⟨0⟩ ⟨1⟩, .forLoop ⟨1⟩ ⟨1⟩, .block [⟨2⟩, ⟨3⟩]]

def loops (stop : Int64) : List LoopInfo :=
  [⟨"i", .int, .simple ⟨0, stop, 1⟩⟩, ⟨"i", .int, .simple ⟨0, 10, 1⟩⟩]

def arrays : List Binding := [⟨"A", ⟨.intArray, [10]⟩, none, false⟩]

def cell : Term := ⟨⟨1⟩, .access ⟨0⟩ [⟨⟨0⟩, .var "i" .int none⟩]⟩
def first : Term := ⟨⟨2⟩, .forLoop ⟨0⟩ cell⟩
def second : Term := ⟨⟨3⟩, .forLoop ⟨1⟩ cell⟩
def region : Term := ⟨⟨4⟩, .block [first, second]⟩

def program (stop : Int64) : Program where
  terms := #[⟨⟨0⟩, .var "i" .int none⟩, cell, first, second, region]
  loops := (loops stop).toArray
  arrays := arrays.toArray

lemma program_sharesContents (stop : Int64) : (program stop).SharesContents :=
  of_decide_eq_true rfl

def session (stop : Int64) : Session := ((Session.new region {} ∅).prepare (program stop)).2

lemma prepare_eq {stop : Int64}
    (h : ((Session.new region {} ∅).prepare (program stop)).1.toOption.isSome) :
    (Session.new region {} ∅).prepare (program stop) = (.ok (), session stop) :=
  Prod.ext (eq_ok_get h) rfl

lemma targets_eq {stop : Int64}
    (h : ((Session.new region {} ∅).prepare (program stop)).1.toOption.isSome) :
    (session stop).context.accesses = [⟨cell, [⟨0⟩]⟩, ⟨cell, [⟨1⟩]⟩] ∧
      (session stop).context.overflowChecks = [] :=
  Context.targets_of_reset_eq (Session.prepare_ok (program_sharesContents stop) (prepare_eq h)).2

/-- A first loop that ends early: the access is stored as safe and is so in both loops. -/
theorem short_loop_covered :
    (Session.new region {} ∅).prepare (program 5) = (.ok (), session 5) ∧
    Context.SafeIndex (session 5).context.accessVerdicts ⟨1⟩ 0 ∧
    ∀ t ∈ (session 5).context.accesses, t.term.id = ⟨1⟩ →
      (session 5).context.AccessSafe (program 5) t 0 := by
  have hok : ((Session.new region {} ∅).prepare (program 5)).1.toOption.isSome := by decide +kernel
  have hsafe : Context.SafeIndex (session 5).context.accessVerdicts ⟨1⟩ 0 :=
    ⟨[false], by decide +kernel, rfl⟩
  have hverdict : ∀ t ∈ (session 5).context.accesses,
      (session 5).context.accessVerdict? (program 5) t = some [false] := by
    rw [(targets_eq hok).1, List.forall_mem_cons, List.forall_mem_singleton]
    decide +kernel
  refine ⟨prepare_eq hok, hsafe, ?_⟩
  refine ((Session.stored_verdicts_cover_iff (program_sharesContents 5) (prepare_eq hok)).mpr
    ⟨?_, ?_⟩).1 ⟨1⟩ 0 hsafe
  · intro t d hlast ht u hu _
    rw [← Context.decideAccess_safe_iff (Context.accessVerdict?_eq_some.mp (hverdict t hlast.mem))]
      at ht
    rwa [← Context.decideAccess_safe_iff (Context.accessVerdict?_eq_some.mp (hverdict u hu))]
  · intro t _ _ u hu
    rw [(targets_eq hok).2] at hu
    cases hu

/-- A first loop past the end of the array: the access is stored as safe because it is so in the
second loop. -/
theorem overrun_stored_as_safe :
    Program.ofTables nodes (loops 100) arrays [] = .ok (program 100) ∧
    (Session.new region {} ∅).prepare (program 100) = (.ok (), session 100) ∧
    Context.SafeIndex (session 100).context.accessVerdicts ⟨1⟩ 0 ∧
    ∃ t ∈ (session 100).context.accesses, t.term.id = ⟨1⟩ ∧
      ¬(session 100).context.AccessSafe (program 100) t 0 := by
  have hok : ((Session.new region {} ∅).prepare (program 100)).1.toOption.isSome := by decide +kernel
  have hverdict : (session 100).context.accessVerdict? (program 100) ⟨cell, [⟨0⟩]⟩ = some [true] := by
    decide +kernel
  refine ⟨rfl, prepare_eq hok, ⟨[false], by decide +kernel, rfl⟩, ⟨cell, [⟨0⟩]⟩,
    by rw [(targets_eq hok).1]; exact List.mem_cons_self, rfl, ?_⟩
  rw [← Context.decideAccess_safe_iff (Context.accessVerdict?_eq_some.mp hverdict)]
  decide

end SharedCell

end LoopSafety
