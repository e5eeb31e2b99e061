import Mathlib.Data.List.Induction
import LoopSafety.Proofs.Verdicts

/-! Passes over all targets of a context. A pass that stores verdicts succeeds exactly if every target
can be decided, and then the last verdict on a node counts. A pass that compares them succeeds
exactly if moreover no target has lost a verdict that was stored as safe. Both are stated for any
class of caches from which arrays are read alike, and then for faithful ones. -/
namespace LoopSafety

/-- A step that fails ends the sequence in the state that it leaves. -/
lemma run_bind_step {σ α β : Type} (x : ExceptT Error (StateM σ) α)
    (f : α → ExceptT Error (StateM σ) β) (s : σ) :
    (x >>= f).run.run s =
      match x.run.run s with
      | (.ok a, s') => (f a).run.run s'
      | (.error e, s') => (.error e, s') := by
  rw [ExceptT.run_bind, StateT.run_bind]
  obtain ⟨r, s'⟩ := x.run.run s
  cases r <;> rfl

lemma run_bind_eq_ok {σ α β : Type} {x : ExceptT Error (StateM σ) α}
    {f : α → ExceptT Error (StateM σ) β} {s s' : σ} {b : β} :
    (x >>= f).run.run s = (.ok b, s') ↔
      ∃ a s₁, x.run.run s = (.ok a, s₁) ∧ (f a).run.run s₁ = (.ok b, s') := by
  rw [run_bind_step]
  constructor
  · intro h
    rcases hx : x.run.run s with ⟨e | a, s₁⟩ <;> rw [hx] at h
    · cases h
    · exact ⟨a, s₁, rfl, h⟩
  · rintro ⟨a, s₁, hx, hf⟩
    rw [hx]
    exact hf

/-- A step that cannot fail. -/
lemma run_lift_step {σ α : Type} (x : StateM σ α) (s : σ) :
    (liftM x : ExceptT Error (StateM σ) α).run.run s = (.ok (x.run s).1, (x.run s).2) := rfl

lemma run_get_step {σ : Type} (s : σ) :
    (get : ExceptT Error (StateM σ) σ).run.run s = (.ok s, s) := rfl

/-- Steps over a list, with what holds of the state after every part of it and of every end. They
succeed exactly if each step does. -/
lemma forM_run {σ α : Type} {f : α → ExceptT Error (StateM σ) PUnit}
    (ends : Except Error PUnit → σ → Prop) (inv : List α → σ → Prop) (good : α → Prop) (xs : List α)
    (hstep : ∀ done, ∀ x ∈ xs, ∀ s, inv done s → ∃ r s', (f x).run.run s = (r, s') ∧ ends r s' ∧
      (r = .ok () ↔ good x) ∧ (r = .ok () → inv (done ++ [x]) s')) :
    ∀ (done : List α) (s : σ), inv done s → ends (.ok ()) s →
      ∃ r s', (xs.forM f).run.run s = (r, s') ∧ ends r s' ∧
        (r = .ok () ↔ ∀ x ∈ xs, good x) ∧ (r = .ok () → inv (done ++ xs) s') := by
  induction xs with
  | nil =>
    intro done s hinv hends
    refine ⟨.ok (), s, rfl, hends, by simp, fun _ => ?_⟩
    rwa [List.append_nil]
  | cons x xs ih =>
    intro done s hinv hends
    obtain ⟨r, s₁, hrun, hends₁, hgood, hinv₁⟩ := hstep done x List.mem_cons_self s hinv
    have hcons : ((x :: xs).forM f).run.run s = (f x >>= fun _ => xs.forM f).run.run s := rfl
    rw [hcons, run_bind_step, hrun]
    cases r with
    | error e =>
      refine ⟨.error e, s₁, rfl, hends₁, ⟨by simp, fun hall => ?_⟩, by simp⟩
      exact hgood.mpr (hall x List.mem_cons_self)
    | ok u =>
      obtain ⟨r', s₂, hrun', hends₂, hgood', hinv₂⟩ :=
        ih (fun done y hy => hstep done y (List.mem_cons_of_mem x hy)) (done ++ [x]) s₁ (hinv₁ rfl)
          hends₁
      refine ⟨r', s₂, hrun', hends₂, ?_, ?_⟩
      · rw [hgood', List.forall_mem_cons, and_iff_right (hgood.mp rfl)]
      · intro hr
        simpa using hinv₂ hr

/-- What is known of targets by their numbers; of targets with one number the last counts. -/
def verdictTable {β : Type} (verdict : Occurrence → Option β) (targets : List Occurrence) :
    Table NodeId β :=
  targets.foldl (fun t x => (verdict x).elim t (t.insert x.term.id ·)) ∅

/-- A table after what is known of targets was entered. -/
def enterVerdicts {β : Type} (verdict : Occurrence → Option β) (table : Table NodeId β)
    (targets : List Occurrence) : Table NodeId β :=
  targets.foldl (fun t x => (verdict x).elim t (t.insert x.term.id ·)) table

section

variable {β : Type} {verdict : Occurrence → Option β} {targets : List Occurrence}

lemma enterVerdicts_snoc (table : Table NodeId β) (x : Occurrence) :
    enterVerdicts verdict table (targets ++ [x]) =
      (verdict x).elim (enterVerdicts verdict table targets)
        ((enterVerdicts verdict table targets).insert x.term.id ·) := by
  simp [enterVerdicts]

lemma enterVerdicts_empty : enterVerdicts verdict ∅ targets = verdictTable verdict targets := rfl

lemma verdictTable_snoc (x : Occurrence) :
    verdictTable verdict (targets ++ [x]) =
      (verdict x).elim (verdictTable verdict targets)
        ((verdictTable verdict targets).insert x.term.id ·) := by
  simp [verdictTable]

lemma verdictTable_get?_eq_findSome? (node : NodeId) :
    (verdictTable verdict targets).get? node =
      targets.reverse.findSome? fun x => if x.term.id = node then verdict x else none := by
  induction targets using List.reverseRecOn with
  | nil => rfl
  | append_singleton targets x ih =>
    rw [verdictTable_snoc, List.reverse_append, List.reverse_singleton, List.singleton_append,
      List.findSome?_cons, ← ih]
    cases verdict x with
    | none => simp
    | some v => by_cases hx : x.term.id = node <;> simp [hx]

/-- The last target of a number with a verdict decides on the number. -/
theorem verdictTable_get? {node : NodeId} {v : β} :
    (verdictTable verdict targets).get? node = some v ↔
      ∃ before x after, targets = before ++ x :: after ∧ x.term.id = node ∧ verdict x = some v ∧
        ∀ y ∈ after, y.term.id = node → verdict y = none := by
  rw [verdictTable_get?_eq_findSome?, List.findSome?_eq_some_iff]
  constructor
  · rintro ⟨after, x, before, hsplit, hx, hafter⟩
    refine ⟨before.reverse, x, after.reverse, ?_, ?_⟩
    · rw [← List.reverse_reverse targets, hsplit]
      simp
    · grind
  · rintro ⟨before, x, after, rfl, rfl, hx, hafter⟩
    refine ⟨after.reverse, x, before.reverse, by simp, by simpa using hx, ?_⟩
    grind

end

namespace Context

/-- The verdict on an access that has one. -/
def accessVerdict? (p : Program) (ctx : Context) (target : Occurrence) : Option (List Bool) :=
  (ctx.decideAccess p target).toOption.join

/-- The verdicts on all accesses of a context. -/
def accessTable (p : Program) (ctx : Context) : Table NodeId (List Bool) :=
  verdictTable (ctx.accessVerdict? p) ctx.accesses

/-- The verdicts on all integer operations of a context. -/
def operationTable (p : Program) (ctx : Context) : Table NodeId Bool :=
  verdictTable (fun t => some (ctx.decideOperation p t)) ctx.overflowChecks

/-- Every access has as many indices as its array has dimensions. -/
def Decided (p : Program) (ctx : Context) : Prop :=
  ∀ t ∈ ctx.accesses, ∃ v, ctx.decideAccess p t = .ok v

/-- An access that is stored as safe in a dimension still is so. -/
def UpheldAccess (p : Program) (ctx : Context) (t : Occurrence) : Prop :=
  ∃ v, ctx.decideAccess p t = .ok v ∧
    ∀ now ∈ v, ¬(ctx.accessVerdicts.get? t.term.id).any (Checker.regressed · now)

/-- An integer operation that is stored as safe still is so. -/
def UpheldOperation (p : Program) (ctx : Context) (t : Occurrence) : Prop :=
  ¬(ctx.overflowVerdicts.get? t.term.id = some false ∧ ctx.decideOperation p t = true)

variable {p : Program} {ctx ctx' : Context}

lemma accessVerdict?_congr (h : ctx.basis = ctx'.basis) :
    ctx.accessVerdict? p = ctx'.accessVerdict? p := by
  funext t
  rw [accessVerdict?, accessVerdict?, decideAccess_congr h]

lemma accessTable_congr (h : ctx.basis = ctx'.basis) : ctx.accessTable p = ctx'.accessTable p := by
  obtain ⟨-, -, -, haccesses, -⟩ := basis_eq_iff.mp h
  rw [accessTable, accessTable, haccesses, accessVerdict?_congr h]

lemma operationTable_congr (h : ctx.basis = ctx'.basis) :
    ctx.operationTable p = ctx'.operationTable p := by
  obtain ⟨-, -, -, -, hoperations, -⟩ := basis_eq_iff.mp h
  simp only [operationTable, hoperations, decideOperation_congr h]

lemma decided_congr (h : ctx.basis = ctx'.basis) : ctx.Decided p ↔ ctx'.Decided p := by
  obtain ⟨-, -, -, haccesses, -⟩ := basis_eq_iff.mp h
  simp only [Decided, haccesses, decideAccess_congr h]

end Context

namespace Checker

variable {p : Program} {c : Checker}

lemma checkAll_run (p : Program) (strict : Bool) (c : Checker) :
    (checkAll p strict).run.run c =
      let c₁ := ((resolveLoops p).run c).2
      match (c₁.context.accesses.forM (checkAccess p strict)).run.run c₁ with
      | (.ok _, c₂) => (c₂.context.overflowChecks.forM (checkOperation p strict)).run.run c₂
      | (.error e, c₂) => (.error e, c₂) := by
  unfold checkAll
  rw [run_bind_step, run_lift_step]
  dsimp only
  rw [run_bind_step, run_get_step]
  dsimp only
  rw [run_bind_step]
  rcases (((resolveLoops p).run c).2.context.accesses.forM (checkAccess p strict)).run.run
    ((resolveLoops p).run c).2 with ⟨_ | _, c₂⟩
  · rfl
  · rfl

lemma regressed_iff {stored now : List Bool} :
    regressed stored now ↔ ∃ d : Nat, stored[d]? = some false ∧ now[d]? = some true := by
  rw [regressed, List.any_eq_true]
  constructor
  · rintro ⟨⟨was, is⟩, hmem, hlost⟩
    obtain ⟨d, hd⟩ := List.getElem?_of_mem hmem
    obtain ⟨hwas, his⟩ := List.getElem?_zip_eq_some.mp hd
    simp only [Bool.and_eq_true, Bool.not_eq_true'] at hlost
    exact ⟨d, hlost.1 ▸ hwas, hlost.2 ▸ his⟩
  · rintro ⟨d, hwas, his⟩
    exact ⟨(false, true), List.mem_of_getElem? (List.getElem?_zip_eq_some.mpr ⟨hwas, his⟩), rfl⟩

/-- The verdict now keeps every dimension that is stored as safe. -/
def Upholds (stored : Option (List Bool)) (now : Except Error (Option (List Bool))) : Prop :=
  ∃ v, now = .ok v ∧ ∀ dims ∈ v, ¬stored.any (regressed · dims)

section

variable {known : ScanCache → Prop} {ctx : Context}
  (harray : ∀ id ty, SteadyOn known (Evaluation.arrayContents p ctx id ty))
  (hstart : known ctx.scans)
include harray hstart

/-- The check of an access judges it, and then compares or stores the verdict. -/
lemma checkAccess_run (hc : Amid known ctx c) (strict : Bool) (target : Occurrence) :
    ∃ c', Notes known ctx (ctx.lowIndices p target) c c' ∧ (checkAccess p strict target).run.run c =
      match ctx.judgeAccess p target with
      | .error e => (.error e, c')
      | .ok none => (.ok (), c')
      | .ok (some v) =>
        if strict then
          if (c.context.accessVerdicts.get? target.term.id).any (regressed · v) then
            (.error .boundInvalidated, c')
          else (.ok (), c')
        else (.ok (), storeAccess target.term.id v c') := by
  unfold checkAccess Context.judgeAccess Context.lowIndices Program.extents
  cases target.term.node with
  | access array indices =>
    dsimp only
    cases p.array? array with
    | none => exact ⟨c, .refl hc, rfl⟩
    | some binding =>
      dsimp only
      by_cases hrank : indices.length = binding.shape.dimensions.length
      · obtain ⟨-, -, -, -, -, -, hbounds, -⟩ := Context.basis_eq_iff.mp hc.basis
        obtain ⟨c', hrun, hnotes⟩ := accessVerdict_spec harray hstart hc target.loops
          (ctx.indexBounds_length target.term.id binding.shape.dimensions.length).symm
        rw [if_neg (not_not_intro hrank), if_neg (not_not_intro hrank)]
        refine ⟨c', hnotes, ?_⟩
        unfold Context.indexBounds at hrun ⊢
        rw [run_bind_step, run_get_step]
        dsimp only
        rw [run_bind_step, run_lift_step, hbounds, hrun, ← hnotes.access]
        dsimp only [Except.map, Option.map]
        split
        · rw [run_bind_step, run_get_step]
          dsimp only
          cases c'.context.accessVerdicts.get? target.term.id with
          | none => rfl
          | some stored =>
            simp only [Option.any_some]
            split <;> rfl
        · rfl
      · rw [if_pos hrank, if_pos hrank]
        exact ⟨c, .refl hc, rfl⟩
  | _ => exact ⟨c, .refl hc, rfl⟩

/-- The check of an operation judges it, and then compares or stores the verdict. -/
lemma checkOperation_run (hc : Amid known ctx c) (strict : Bool) (target : Occurrence) :
    ∃ c', Notes known ctx [] c c' ∧ (checkOperation p strict target).run.run c =
      if strict then
        if c.context.overflowVerdicts.get? target.term.id = some false ∧
            ctx.judgeOperation p target = true then
          (.error .boundInvalidated, c')
        else (.ok (), c')
      else (.ok (), storeOperation target.term.id (ctx.judgeOperation p target) c') := by
  obtain ⟨c', hrun, hnotes⟩ := operationNeedsCheck_spec harray hstart hc target
  refine ⟨c', hnotes, ?_⟩
  unfold checkOperation
  rw [run_bind_step, run_lift_step, hrun, ← hnotes.overflow]
  dsimp only
  split
  · rw [run_bind_step, run_get_step]
    dsimp only
    split <;> rfl
  · rfl

lemma storeAccesses_run (hc : Amid known ctx c) (targets : List Occurrence) :
    ∃ r c', (targets.forM (checkAccess p false)).run.run c = (r, c') ∧ Amid known ctx c' ∧
      (r = .ok () ↔ ∀ t ∈ targets, ∃ v, ctx.judgeAccess p t = .ok v) ∧
      (r = .ok () →
        c'.context.accessVerdicts = enterVerdicts (fun t => (ctx.judgeAccess p t).toOption.join)
          c.context.accessVerdicts targets ∧
        c'.context.overflowVerdicts = c.context.overflowVerdicts ∧
        c'.context.minimum = (targets.flatMap (ctx.lowIndices p)).foldl min c.context.minimum) := by
  have hpass := forM_run (f := checkAccess p false) (fun _ s => Amid known ctx s)
    (fun done s => Amid known ctx s ∧
      s.context.accessVerdicts = enterVerdicts (fun t => (ctx.judgeAccess p t).toOption.join)
        c.context.accessVerdicts done ∧
      s.context.overflowVerdicts = c.context.overflowVerdicts ∧
      s.context.minimum = (done.flatMap (ctx.lowIndices p)).foldl min c.context.minimum)
    (fun t => ∃ v, ctx.judgeAccess p t = .ok v) targets ?_ [] c ⟨hc, rfl, rfl, rfl⟩ hc
  · obtain ⟨r, c', hrun, hamid, hgood, hinv⟩ := hpass
    exact ⟨r, c', hrun, hamid, hgood, fun hr => (hinv hr).2⟩
  · rintro done t - s ⟨hs, htable, hoverflow, hminimum⟩
    obtain ⟨s', hnotes, hrun⟩ := checkAccess_run harray hstart hs false t
    have hminimum' : s'.context.minimum =
        ((done ++ [t]).flatMap (ctx.lowIndices p)).foldl min c.context.minimum := by
      rw [hnotes.minimum, hminimum, List.flatMap_append, List.foldl_append, List.flatMap_singleton]
    rw [← hnotes.access] at htable
    rw [← hnotes.overflow] at hoverflow
    rw [hrun, enterVerdicts_snoc]
    rcases ctx.judgeAccess p t with e | v | v
    · exact ⟨.error e, s', rfl, hnotes.toAmid, by simp, by simp⟩
    · exact ⟨.ok (), s', rfl, hnotes.toAmid, ⟨fun _ => ⟨_, rfl⟩, fun _ => rfl⟩,
        fun _ => ⟨hnotes.toAmid, htable, hoverflow, hminimum'⟩⟩
    · refine ⟨.ok (), storeAccess t.term.id v s', rfl, ⟨hnotes.basis, hnotes.scans⟩,
        ⟨fun _ => ⟨_, rfl⟩, fun _ => rfl⟩,
        fun _ => ⟨⟨hnotes.basis, hnotes.scans⟩, ?_, hoverflow, hminimum'⟩⟩
      exact congrArg (·.insert t.term.id v) htable

lemma storeOperations_run (hc : Amid known ctx c) (targets : List Occurrence) :
    ∃ c', (targets.forM (checkOperation p false)).run.run c = (.ok (), c') ∧ Amid known ctx c' ∧
      c'.context.accessVerdicts = c.context.accessVerdicts ∧
      c'.context.overflowVerdicts = enterVerdicts (fun t => some (ctx.judgeOperation p t))
        c.context.overflowVerdicts targets ∧
      c'.context.minimum = c.context.minimum := by
  have hpass := forM_run (f := checkOperation p false) (fun _ _ => True)
    (fun done s => Amid known ctx s ∧ s.context.accessVerdicts = c.context.accessVerdicts ∧
      s.context.overflowVerdicts = enterVerdicts (fun t => some (ctx.judgeOperation p t))
        c.context.overflowVerdicts done ∧
      s.context.minimum = c.context.minimum)
    (fun _ => True) targets ?_ [] c ⟨hc, rfl, rfl, rfl⟩ trivial
  · obtain ⟨r, c', hrun, -, hgood, hinv⟩ := hpass
    obtain rfl := hgood.mpr fun _ _ => trivial
    exact ⟨c', hrun, hinv rfl⟩
  · rintro done t - s ⟨hs, haccess, htable, hminimum⟩
    obtain ⟨s', hnotes, hrun⟩ := checkOperation_run harray hstart hs false t
    rw [← hnotes.access] at haccess
    rw [← hnotes.overflow] at htable
    rw [hrun, enterVerdicts_snoc]
    refine ⟨.ok (), _, rfl, trivial, ⟨fun _ => trivial, fun _ => rfl⟩,
      fun _ => ⟨⟨hnotes.basis, hnotes.scans⟩, haccess, ?_, hnotes.minimum.trans hminimum⟩⟩
    exact congrArg (·.insert t.term.id (ctx.judgeOperation p t)) htable

lemma compareAccesses_run (hc : Amid known ctx c) (targets : List Occurrence) :
    ∃ r c', (targets.forM (checkAccess p true)).run.run c = (r, c') ∧
      (∃ lows, Notes known ctx lows c c') ∧
      (r = .ok () ↔ ∀ t ∈ targets,
        Upholds (c.context.accessVerdicts.get? t.term.id) (ctx.judgeAccess p t)) ∧
      ∀ e, r = .error e → e = .boundInvalidated ∨ ∃ t ∈ targets, ctx.judgeAccess p t = .error e := by
  have hpass := forM_run (f := checkAccess p true)
    (fun r s => (∃ lows, Notes known ctx lows c s) ∧ ∀ e, r = .error e →
      e = .boundInvalidated ∨ ∃ t ∈ targets, ctx.judgeAccess p t = .error e)
    (fun _ s => ∃ lows, Notes known ctx lows c s)
    (fun t => Upholds (c.context.accessVerdicts.get? t.term.id) (ctx.judgeAccess p t))
    targets ?_ [] c ⟨[], .refl hc⟩ ⟨⟨[], .refl hc⟩, by simp⟩
  · obtain ⟨r, c', hrun, ⟨hnotes, herror⟩, hgood, -⟩ := hpass
    exact ⟨r, c', hrun, hnotes, hgood, herror⟩
  · rintro - t ht s ⟨lows, hlows⟩
    obtain ⟨s', hnotes, hrun⟩ := checkAccess_run harray hstart hlows.toAmid true t
    have hnotes' : ∃ lows, Notes known ctx lows c s' := ⟨_, hlows.trans hnotes⟩
    rw [hlows.access] at hrun
    rw [hrun, Upholds]
    rcases hjudge : ctx.judgeAccess p t with e | v | v
    · refine ⟨.error e, s', rfl, ⟨hnotes', ?_⟩, by simp, by simp⟩
      rintro _ ⟨⟩
      exact .inr ⟨t, ht, hjudge⟩
    · exact ⟨.ok (), s', rfl, ⟨hnotes', by simp⟩, ⟨fun _ => ⟨_, rfl, by simp⟩, fun _ => rfl⟩,
        fun _ => hnotes'⟩
    · dsimp only
      by_cases hlost : (c.context.accessVerdicts.get? t.term.id).any (regressed · v)
      · refine ⟨.error .boundInvalidated, s', by rw [if_pos rfl, if_pos hlost], ⟨hnotes', by simp⟩,
          ⟨by simp, ?_⟩, by simp⟩
        rintro ⟨_, ⟨⟩, hkept⟩
        exact absurd hlost (hkept v rfl)
      · refine ⟨.ok (), s', by rw [if_pos rfl, if_neg hlost], ⟨hnotes', by simp⟩,
          ⟨fun _ => ⟨_, rfl, ?_⟩, fun _ => rfl⟩, fun _ => hnotes'⟩
        rintro _ ⟨⟩
        exact hlost

lemma compareOperations_run (hc : Amid known ctx c) (targets : List Occurrence) :
    ∃ r c', (targets.forM (checkOperation p true)).run.run c = (r, c') ∧
      (∃ lows, Notes known ctx lows c c') ∧
      (r = .ok () ↔ ∀ t ∈ targets, ¬(c.context.overflowVerdicts.get? t.term.id = some false ∧
        ctx.judgeOperation p t = true)) ∧
      ∀ e, r = .error e → e = .boundInvalidated := by
  have hpass := forM_run (f := checkOperation p true)
    (fun r s => (∃ lows, Notes known ctx lows c s) ∧ ∀ e, r = .error e → e = .boundInvalidated)
    (fun _ s => ∃ lows, Notes known ctx lows c s)
    (fun t => ¬(c.context.overflowVerdicts.get? t.term.id = some false ∧
      ctx.judgeOperation p t = true))
    targets ?_ [] c ⟨[], .refl hc⟩ ⟨⟨[], .refl hc⟩, by simp⟩
  · obtain ⟨r, c', hrun, ⟨hnotes, herror⟩, hgood, -⟩ := hpass
    exact ⟨r, c', hrun, hnotes, hgood, herror⟩
  · rintro - t - s ⟨lows, hlows⟩
    obtain ⟨s', hnotes, hrun⟩ := checkOperation_run harray hstart hlows.toAmid true t
    have hnotes' : ∃ lows, Notes known ctx lows c s' := ⟨_, hlows.trans hnotes⟩
    rw [hlows.overflow, if_pos rfl] at hrun
    rw [hrun]
    split
    · rename_i hlost
      exact ⟨_, s', rfl, ⟨hnotes', by simp⟩, ⟨by simp, fun h => absurd hlost h⟩, by simp⟩
    · rename_i hkept
      exact ⟨_, s', rfl, ⟨hnotes', by simp⟩, ⟨fun _ => hkept, fun _ => rfl⟩, fun _ => hnotes'⟩

/-- A pass that stores verdicts succeeds exactly if every access can be judged. Then it has entered
the verdict on every target and lowered the least index to the literals of all accesses. -/
theorem storeAll_spec (hc : Amid known ctx c) :
    ∃ r c', (checkAll p false).run.run c = (r, c') ∧ Amid known ctx c' ∧
      (r = .ok () ↔ ∀ t ∈ ctx.accesses, ∃ v, ctx.judgeAccess p t = .ok v) ∧
      (r = .ok () →
        c'.context.accessVerdicts = enterVerdicts (fun t => (ctx.judgeAccess p t).toOption.join)
          c.context.accessVerdicts ctx.accesses ∧
        c'.context.overflowVerdicts = enterVerdicts (fun t => some (ctx.judgeOperation p t))
          c.context.overflowVerdicts ctx.overflowChecks ∧
        c'.context.minimum =
          (ctx.accesses.flatMap (ctx.lowIndices p)).foldl min c.context.minimum) := by
  rw [checkAll_run]
  -- what the loops resolve to is of no consequence to the verdicts
  have hloops := resolveLoops_notes harray hc
  generalize ((resolveLoops p).run c).2 = c₁ at hloops
  obtain ⟨-, -, -, haccesses, -⟩ := Context.basis_eq_iff.mp hloops.basis
  obtain ⟨r, c₂, hrun, hamid₂, hgood, hstored⟩ :=
    storeAccesses_run harray hstart hloops.toAmid c₁.context.accesses
  obtain ⟨-, -, -, -, hoperations, -⟩ := Context.basis_eq_iff.mp hamid₂.basis
  simp only [hrun]
  rw [haccesses] at hgood hstored
  cases r with
  | error e => exact ⟨.error e, c₂, rfl, hamid₂, hgood, by simp⟩
  | ok u =>
    obtain ⟨htable, hsame, hminimum⟩ := hstored rfl
    obtain ⟨c₃, hrun', hamid₃, haccess', htable', hminimum'⟩ :=
      storeOperations_run harray hstart hamid₂ c₂.context.overflowChecks
    refine ⟨.ok (), c₃, hrun', hamid₃, hgood, fun _ => ⟨?_, ?_, ?_⟩⟩
    · rw [haccess', htable, hloops.access]
    · rw [htable', hsame, hloops.overflow, hoperations]
    · rw [hminimum', hminimum, hloops.minimum, List.foldl_nil]

/-- A pass that compares verdicts succeeds exactly if none is lost, and leaves them as they are. -/
theorem compareAll_spec (hc : Amid known ctx c) :
    ∃ r c', (checkAll p true).run.run c = (r, c') ∧ (∃ lows, Notes known ctx lows c c') ∧
      (r = .ok () ↔
        (∀ t ∈ ctx.accesses,
          Upholds (c.context.accessVerdicts.get? t.term.id) (ctx.judgeAccess p t)) ∧
        ∀ t ∈ ctx.overflowChecks, ¬(c.context.overflowVerdicts.get? t.term.id = some false ∧
          ctx.judgeOperation p t = true)) ∧
      ∀ e, r = .error e →
        e = .boundInvalidated ∨ ∃ t ∈ ctx.accesses, ctx.judgeAccess p t = .error e := by
  rw [checkAll_run]
  have hloops := resolveLoops_notes harray hc
  generalize ((resolveLoops p).run c).2 = c₁ at hloops
  obtain ⟨-, -, -, haccesses, -⟩ := Context.basis_eq_iff.mp hloops.basis
  obtain ⟨r, c₂, hrun, ⟨lows, hnotes⟩, hgood, herror⟩ :=
    compareAccesses_run harray hstart hloops.toAmid c₁.context.accesses
  obtain ⟨-, -, -, -, hoperations, -⟩ := Context.basis_eq_iff.mp hnotes.basis
  have hnotes₂ := hloops.trans hnotes
  simp only [hrun]
  rw [haccesses, hloops.access] at hgood
  rw [haccesses] at herror
  cases r with
  | error e => exact ⟨.error e, c₂, rfl, ⟨_, hnotes₂⟩, ⟨by simp, fun h => hgood.mpr h.1⟩, herror⟩
  | ok u =>
    obtain ⟨r', c₃, hrun', ⟨lows', hnotes'⟩, hgood', herror'⟩ :=
      compareOperations_run harray hstart hnotes.toAmid c₂.context.overflowChecks
    rw [hoperations, hnotes₂.overflow] at hgood'
    refine ⟨r', c₃, hrun', ⟨_, hnotes₂.trans hnotes'⟩, ?_, fun e he => .inl (herror' e he)⟩
    rw [hgood', and_iff_right (hgood.mp rfl)]

end

section

variable (shares : p.SharesContents)
include shares

/-- With a faithful cache the verdicts stored are those of a context without one. -/
theorem storeAll_run (hc : c.context.scans.Describes p) (haccess : c.context.accessVerdicts = ∅)
    (hoverflow : c.context.overflowVerdicts = ∅) :
    ∃ r c', (checkAll p false).run.run c = (r, c') ∧ Keeps p c c' ∧
      (r = .ok () ↔ c.context.Decided p) ∧
      (r = .ok () → c'.context.accessVerdicts = c.context.accessTable p ∧
        c'.context.overflowVerdicts = c.context.operationTable p) := by
  obtain ⟨r, c', hrun, hamid, hgood, hstored⟩ := storeAll_spec
    (Evaluation.arrayContents_steady shares c.context.basis) (ScanCache.describes_empty p) ⟨rfl, hc⟩
  simp only [Context.basis_judgeAccess] at hgood
  refine ⟨r, c', hrun, ⟨hamid.basis, hamid.scans⟩, hgood, fun hr => ?_⟩
  obtain ⟨htable, htable', -⟩ := hstored hr
  simp only [haccess, hoverflow, enterVerdicts_empty, Context.basis_judgeAccess,
    Context.basis_judgeOperation] at htable htable'
  exact ⟨htable, htable'⟩

/-- With a faithful cache verdicts are compared with those of a context without one. -/
theorem compareAll_run (hc : c.context.scans.Describes p) :
    ∃ r c', (checkAll p true).run.run c = (r, c') ∧ KeepsVerdicts p c c' ∧
      (r = .ok () ↔ (∀ t ∈ c.context.accesses, c.context.UpheldAccess p t) ∧
        ∀ t ∈ c.context.overflowChecks, c.context.UpheldOperation p t) := by
  have hamid : Amid (ScanCache.Describes p) c.context.basis c := ⟨rfl, hc⟩
  obtain ⟨r, c', hrun, ⟨lows, hnotes⟩, hgood, -⟩ := compareAll_spec
    (Evaluation.arrayContents_steady shares c.context.basis) (ScanCache.describes_empty p) hamid
  simp only [Context.basis_judgeAccess, Context.basis_judgeOperation] at hgood
  exact ⟨r, c', hrun, hnotes.keepsVerdicts hamid, hgood⟩

end

end Checker

end LoopSafety
