import Mathlib.Data.List.Perm.Basic
import LoopSafety.Proofs.Occurrences
import LoopSafety.Proofs.Retries
import LoopSafety.Proofs.ScanHistories
import LoopSafety.Proofs.Scoping

/-! Checks that do not see each other.

The targets of a context are checked one after the other on one state: a flag, the contents scanned so
far, the least index. The flag is set anew for every check, contents answer alike whenever they were
read, and the least index is written and never read. So a pass arrives at the verdict that each target
would get alone, and its outcome does not depend on the order of the targets. Nothing is asked of the
contents that are known at the start, which need not be those of the arrays. -/
namespace LoopSafety

namespace ScanCache

variable {p : Program} {u : Bool} {c c' c'' : ScanCache} {b : Binding}

/-- An entry that answers, or else a scan. -/
lemma getOrScan_fst (c : ScanCache) (b : Binding) (u : Bool) :
    (c.getOrScan b u).1 = b.storage.bind fun s =>
      ((c.entries.get? s.identity).filter (answers u)).or (Contents.scan u s.values) := by
  cases hs : b.storage with
  | none => simp [getOrScan, hs]
  | some s =>
    obtain ⟨found, hget, hanswers, heq⟩ | ⟨hunanswered, hrest⟩ := getOrScan_cases hs c u
    · simp [heq, hget, Option.filter_some_pos hanswers]
    · have hfilter : (c.entries.get? s.identity).filter (answers u) = none :=
        Option.filter_eq_none_iff.mpr fun found hget => by simp [hunanswered found hget]
      obtain ⟨hvalues, heq⟩ | ⟨found, hscan, heq⟩ := hrest
      · have hscan := (Contents.scan_eq_none_iff u s.values).mpr hvalues
        simp [heq, hfilter, hscan]
      · simp [heq, hfilter, hscan]

/-- The second cache answers every request for an array of a program as the first does. -/
def AnswersLike (p : Program) (u : Bool) (c c' : ScanCache) : Prop :=
  ∀ b ∈ p.arrays, (c'.getOrScan b u).1 = (c.getOrScan b u).1

lemma AnswersLike.refl (c : ScanCache) : AnswersLike p u c c := fun _ _ => rfl

lemma AnswersLike.trans (h : AnswersLike p u c c') (h' : AnswersLike p u c' c'') :
    AnswersLike p u c c'' :=
  fun b hb => (h' b hb).trans (h b hb)

/-- What a request enters is what the cache would have answered without it. -/
theorem answersLike_getOrScan (shares : p.SharesContents) (hb : b ∈ p.arrays) :
    AnswersLike p u c (c.getOrScan b u).2 := by
  intro b' hb'
  cases hs : b.storage with
  | none => simp [getOrScan, hs]
  | some s =>
    obtain ⟨found, -, -, heq⟩ | ⟨hunanswered, ⟨-, heq⟩ | ⟨found, hscan, heq⟩⟩ := getOrScan_cases hs c u
    · rw [heq]
    · rw [heq]
    · rw [heq, getOrScan_fst, getOrScan_fst]
      cases hs' : b'.storage with
      | none => rfl
      | some s' =>
        by_cases hid : s.identity = s'.identity
        · -- the entry is new and answers, and before it the same contents were there to be scanned
          have hanswers : answers u found = true := by
            have hknown := Contents.scan_uniqueness hscan
            cases u <;> simp_all [answers]
          have hfilter : (c.entries.get? s.identity).filter (answers u) = none :=
            Option.filter_eq_none_iff.mpr fun old hget => by simp [hunanswered old hget]
          have hvalues := shares b hb b' hb' s s' hs hs' hid
          simp [← hid, Option.filter_some_pos hanswers, hfilter, ← hvalues, hscan]
        · simp [hid]

end ScanCache

namespace Evaluation

variable {p : Program}

/-- An array stands for one interval, whatever was scanned since the start. -/
lemma arrayContents_steadyOn (shares : p.SharesContents) (ctx : Context) (start : ScanCache)
    (id : ArrayId) (ty : DataType) :
    SteadyOn (start.AnswersLike p ctx.config.scanUniqueness) (arrayContents p ctx id ty) := by
  unfold arrayContents
  split
  · exact .fail
  · next b hfilter =>
    have hb := Program.mem_arrays (Option.filter_eq_some_iff.mp hfilter).1
    split
    · cases hfound : (start.getOrScan b ctx.config.scanUniqueness).1 with
      | some found =>
        refine ⟨.interval found.min found.max ty, true, fun safe scans hs =>
          ⟨_, hs.trans (ScanCache.answersLike_getOrScan shares hb), ?_⟩⟩
        simp only [StateT.run_bind, StateT.run_get, pure_bind, hs b hb, hfound, Bool.and_true]
        rfl
      | none =>
        refine ⟨.fail, false, fun safe scans hs =>
          ⟨_, hs.trans (ScanCache.answersLike_getOrScan shares hb), ?_⟩⟩
        simp only [StateT.run_bind, StateT.run_get, pure_bind, hs b hb, hfound, Bool.and_false]
        rfl
    · exact .fail

end Evaluation

lemma enterVerdicts_get? {β : Type} {verdict : Occurrence → Option β} {targets : List Occurrence}
    (table : Table NodeId β) (node : NodeId) :
    (enterVerdicts verdict table targets).get? node =
      ((verdictTable verdict targets).get? node).or (table.get? node) := by
  induction targets using List.reverseRecOn with
  | nil => rfl
  | append_singleton targets x ih =>
    rw [enterVerdicts_snoc, verdictTable_snoc]
    cases verdict x with
    | none => exact ih
    | some v =>
      by_cases hx : x.term.id = node
      · simp [hx]
      · simp [hx, ih]

lemma enterVerdicts_get?_perm {β : Type} {verdict : Occurrence → Option β}
    {targets targets' : List Occurrence} (hperm : targets'.Perm targets)
    (hnodup : (targets.map (·.term.id)).Nodup) (table : Table NodeId β) (node : NodeId) :
    (enterVerdicts verdict table targets').get? node =
      (enterVerdicts verdict table targets).get? node := by
  have hnodup' : (targets'.map (·.term.id)).Nodup := (hperm.map _).nodup_iff.mpr hnodup
  rw [enterVerdicts_get?, enterVerdicts_get?]
  congr 1
  ext v
  rw [verdictTable_get?_iff_of_nodup hnodup, verdictTable_get?_iff_of_nodup hnodup']
  simp only [hperm.mem_iff]

lemma enterVerdicts_get?_of_mem {β : Type} {verdict : Occurrence → Option β}
    {targets : List Occurrence} (table : Table NodeId β) (hnodup : (targets.map (·.term.id)).Nodup)
    {t : Occurrence} (ht : t ∈ targets) {v : β} (hv : verdict t = some v) :
    (enterVerdicts verdict table targets).get? t.term.id = some v := by
  rw [enterVerdicts_get?, (verdictTable_get?_iff_of_nodup hnodup).mpr ⟨t, ht, rfl, hv⟩]
  rfl

lemma enterVerdicts_get?_singleton {β : Type} {verdict : Occurrence → Option β}
    (table : Table NodeId β) {t : Occurrence} {v : β} (hv : verdict t = some v) :
    (enterVerdicts verdict table [t]).get? t.term.id = some v := by
  have hnodup : ([t].map (·.term.id)).Nodup := List.nodup_singleton _
  exact enterVerdicts_get?_of_mem table hnodup (List.mem_singleton_self t) hv

instance minRightCommutative : RightCommutative (min : Int64 → Int64 → Int64) := by
  refine ⟨fun a b c => ?_⟩
  rw [← Int64.toInt_inj]
  simp only [Saturating.toInt_min]
  omega

namespace Context

variable {p : Program} {ctx : Context}

/-- The context with other targets. -/
def withTargets (ctx : Context) (accesses overflowChecks : List Occurrence) : Context :=
  { ctx with accesses, overflowChecks }

section

open Evaluation

variable (accesses overflowChecks : List Occurrence)

lemma narrow_withTargets (ind : Frame → LoopId → Probing Bound) (frame : Frame) (b : Bound) :
    narrow p (ctx.withTargets accesses overflowChecks) ind frame b = narrow p ctx ind frame b := by
  have hagree : Agreement p p (ctx.withTargets accesses overflowChecks) ctx ind ind
      (fun _ frame frame' => frame = frame') fun _ => True :=
    ⟨by rintro _ frame _ rfl name ty _; rfl, by rintro _ frame _ rfl scope _ _; rfl, fun _ _ _ => rfl⟩
  have hnames : ∀ n ∈ b.names, ¬(fun _ : String => False) n := fun _ _ => not_false
  exact narrow_agrees hagree b rfl hnames fun _ _ => trivial

lemma inductionBound_withTargets (depth : Nat) :
    inductionBound p (ctx.withTargets accesses overflowChecks) depth =
      inductionBound p ctx depth := by
  induction depth with
  | zero => rfl
  | succ depth ih =>
    funext frame loop
    rw [inductionBound, inductionBound]
    simp only [narrow_withTargets, ih]
    rfl

/-- Narrowing does not know the targets. -/
lemma evaluate_withTargets (frame : Frame) (b : Bound) :
    (ctx.withTargets accesses overflowChecks).evaluate p frame b = ctx.evaluate p frame b := by
  unfold evaluate
  rw [narrow_withTargets, inductionBound_withTargets]
  rfl

lemma checked_withTargets :
    (ctx.withTargets accesses overflowChecks).checked p = ctx.checked p := by
  funext loops b
  unfold checked
  rw [evaluate_withTargets]
  rfl

lemma judgeAccess_withTargets :
    (ctx.withTargets accesses overflowChecks).judgeAccess p = ctx.judgeAccess p := by
  funext t
  unfold judgeAccess judgeIndex
  rw [checked_withTargets]
  rfl

lemma lowIndices_withTargets :
    (ctx.withTargets accesses overflowChecks).lowIndices p = ctx.lowIndices p := by
  funext t
  unfold lowIndices lowIndex?
  rw [checked_withTargets]
  rfl

lemma judgeOperation_withTargets :
    (ctx.withTargets accesses overflowChecks).judgeOperation p = ctx.judgeOperation p := by
  funext t
  unfold judgeOperation
  rw [checked_withTargets]
  rfl

end

/-- What a pass over any targets stores, in terms of the context alone. -/
lemma checkAll_withTargets (shares : p.SharesContents) (ctx : Context)
    {accesses : List Occurrence} (hindexed : ∀ t ∈ accesses, ∃ sizes, t.Indexes p sizes)
    (overflowChecks : List Occurrence) :
    ∃ ctx', (checkAll p false).run.run (ctx.withTargets accesses overflowChecks) = (.ok (), ctx') ∧
      ctx'.accessVerdicts = enterVerdicts (fun t => (ctx.judgeAccess p t).toOption.join)
        ctx.accessVerdicts accesses ∧
      ctx'.overflowVerdicts = enterVerdicts (fun t => some (ctx.judgeOperation p t))
        ctx.overflowVerdicts overflowChecks ∧
      ctx'.minimum = (accesses.flatMap (ctx.lowIndices p)).foldl min ctx.minimum := by
  have hpass := Checker.storeAll_spec
    (Evaluation.arrayContents_steadyOn shares (ctx.withTargets accesses overflowChecks) ctx.scans)
    (.refl ctx.scans) (c := { context := ctx.withTargets accesses overflowChecks })
    ⟨rfl, .refl ctx.scans⟩
  rw [judgeAccess_withTargets, judgeOperation_withTargets, lowIndices_withTargets] at hpass
  obtain ⟨r, c', hrun, -, hgood, hstored⟩ := hpass
  have hok : r = .ok () := by
    refine hgood.mpr fun t ht => ?_
    obtain ⟨sizes, hsizes⟩ := hindexed t ht
    obtain ⟨dims, hjudge, -⟩ := judgeAccess_of_indexes ctx hsizes
    exact ⟨_, hjudge⟩
  refine ⟨c'.context, ?_, hstored hok⟩
  rw [Session.checkAll_run, hrun, hok]

/-- After a pass that stores verdicts, every access has a flag for each of its dimensions and every
operation has one, as if the target were the only one; and so the order of the targets is of no
consequence to the verdicts and the least index. -/
theorem checks_isolated (shares : p.SharesContents)
    (hindexed : ∀ t ∈ ctx.accesses, ∃ sizes, t.Indexes p sizes) (hdistinct : ctx.Distinct) :
    ∃ ctx', (checkAll p false).run.run ctx = (.ok (), ctx') ∧
      (∀ t ∈ ctx.accesses, ∃ sizes dims alone, t.Indexes p sizes ∧ dims.length = sizes.length ∧
        ctx'.accessVerdicts.get? t.term.id = some dims ∧
        (checkAll p false).run.run (ctx.withTargets [t] []) = (.ok (), alone) ∧
        alone.accessVerdicts.get? t.term.id = some dims) ∧
      (∀ t ∈ ctx.overflowChecks, ∃ needed alone,
        ctx'.overflowVerdicts.get? t.term.id = some needed ∧
        (checkAll p false).run.run (ctx.withTargets [] [t]) = (.ok (), alone) ∧
        alone.overflowVerdicts.get? t.term.id = some needed) ∧
      ∀ accesses overflowChecks, accesses.Perm ctx.accesses →
        overflowChecks.Perm ctx.overflowChecks →
        ∃ permuted,
          (checkAll p false).run.run (ctx.withTargets accesses overflowChecks) = (.ok (), permuted) ∧
          (∀ node, permuted.accessVerdicts.get? node = ctx'.accessVerdicts.get? node) ∧
          (∀ node, permuted.overflowVerdicts.get? node = ctx'.overflowVerdicts.get? node) ∧
          permuted.minimum = ctx'.minimum := by
  obtain ⟨ctx', hrun, haccess, hoverflow, hminimum⟩ :=
    checkAll_withTargets shares ctx hindexed ctx.overflowChecks
  refine ⟨ctx', hrun, fun t ht => ?_, fun t ht => ?_, fun accesses overflowChecks hperm hperm' => ?_⟩
  · obtain ⟨sizes, hsizes⟩ := hindexed t ht
    obtain ⟨dims, hjudge, hlength⟩ := judgeAccess_of_indexes ctx hsizes
    have hverdict : (ctx.judgeAccess p t).toOption.join = some dims := by
      rw [hjudge]
      rfl
    have halone : ∀ u ∈ [t], ∃ sizes, u.Indexes p sizes := by simpa using ⟨sizes, hsizes⟩
    obtain ⟨alone, hrun', haccess', -⟩ := checkAll_withTargets shares ctx halone []
    refine ⟨sizes, dims, alone, hsizes, hlength, ?_, hrun', ?_⟩
    · rw [haccess]
      exact enterVerdicts_get?_of_mem _ hdistinct.accesses ht hverdict
    · rw [haccess']
      exact enterVerdicts_get?_singleton _ hverdict
  · obtain ⟨alone, hrun', -, hoverflow', -⟩ :=
      checkAll_withTargets shares ctx (List.forall_mem_nil _) [t]
    refine ⟨ctx.judgeOperation p t, alone, ?_, hrun', ?_⟩
    · rw [hoverflow]
      exact enterVerdicts_get?_of_mem _ hdistinct.operations ht rfl
    · rw [hoverflow']
      exact enterVerdicts_get?_singleton _ rfl
  · obtain ⟨permuted, hrun', haccess', hoverflow', hminimum'⟩ := checkAll_withTargets shares ctx
      (fun t ht => hindexed t (hperm.mem_iff.mp ht)) overflowChecks
    refine ⟨permuted, hrun', fun node => ?_, fun node => ?_, ?_⟩
    · rw [haccess', haccess, enterVerdicts_get?_perm hperm hdistinct.accesses]
    · rw [hoverflow', hoverflow, enterVerdicts_get?_perm hperm' hdistinct.operations]
    · rw [hminimum', hminimum]
      exact (hperm.flatMap_right _).foldl_eq _

end Context

/-! A loop over three cells of an index array. Ten cells are read at an unknown index and through the
index array, one of whose values is negative. -/
namespace Gathered

def counter : Term := ⟨⟨0⟩, .var "i" .int none⟩
def indexCell : Term := ⟨⟨1⟩, .access ⟨1⟩ [counter]⟩
def gatheredCell : Term := ⟨⟨2⟩, .access ⟨0⟩ [indexCell]⟩
def unknown : Term := ⟨⟨3⟩, .var "n" .int none⟩
def unknownCell : Term := ⟨⟨4⟩, .access ⟨0⟩ [unknown]⟩
def double : Term := ⟨⟨5⟩, .binary .add counter counter .int⟩

def program : Program where
  terms := #[counter, indexCell, gatheredCell, unknown, unknownCell, double]
  loops := #[⟨"i", .int, .simple ⟨0, 3, 1⟩⟩]
  arrays := #[⟨"cells", ⟨.intArray, [10]⟩, none, false⟩,
    ⟨"index", ⟨.intArray, [3]⟩, some ⟨0, [3, 7, -2]⟩, true⟩]

lemma program_sharesContents : program.SharesContents := by decide

def registered : Context where
  loops := [⟨0⟩]
  accesses := [⟨unknownCell, [⟨0⟩]⟩, ⟨gatheredCell, [⟨0⟩]⟩, ⟨indexCell, [⟨0⟩]⟩]
  overflowChecks := [⟨double, [⟨0⟩]⟩]

def built : Context := ((Context.buildAll program).run.run registered).2

lemma built_accesses : built.accesses = registered.accesses := rfl

lemma built_indexes : ∀ t ∈ built.accesses, ∃ sizes, t.Indexes program sizes := by
  rw [built_accesses]
  simp only [registered, List.forall_mem_cons]
  exact ⟨⟨[10], _, _, _, rfl, rfl, rfl, rfl⟩, ⟨[10], _, _, _, rfl, rfl, rfl, rfl⟩,
    ⟨[3], _, _, _, rfl, rfl, rfl, rfl⟩, List.forall_mem_nil _⟩

/-- Neither the unknown index nor the scan of the index array is seen by the other checks, in either
order. -/
theorem reversed_checks_agree :
    ∃ ctx' permuted, (Context.checkAll program false).run.run built = (.ok (), ctx') ∧
      (Context.checkAll program false).run.run
        (built.withTargets built.accesses.reverse built.overflowChecks.reverse) = (.ok (), permuted) ∧
      ctx'.accessVerdicts.get? ⟨4⟩ = some [true] ∧ ctx'.accessVerdicts.get? ⟨1⟩ = some [false] ∧
      (∀ node, permuted.accessVerdicts.get? node = ctx'.accessVerdicts.get? node) ∧
      ctx'.overflowVerdicts.get? ⟨5⟩ = some false ∧
      (∀ node, permuted.overflowVerdicts.get? node = ctx'.overflowVerdicts.get? node) ∧
      ctx'.minimum = -2 ∧ permuted.minimum = -2 := by
  have hdistinct : built.Distinct := ⟨by decide +kernel, by decide +kernel⟩
  obtain ⟨ctx', hrun, -, -, hperm⟩ :=
    Context.checks_isolated program_sharesContents built_indexes hdistinct
  obtain ⟨permuted, hrun', haccess, hoverflow, hminimum⟩ :=
    hperm _ _ (List.reverse_perm _) (List.reverse_perm _)
  obtain rfl : ((Context.checkAll program false).run.run built).2 = ctx' := by rw [hrun]
  have hleast : ((Context.checkAll program false).run.run built).2.minimum = -2 := by decide +kernel
  exact ⟨_, permuted, hrun, hrun', by decide +kernel, by decide +kernel, haccess, by decide +kernel,
    hoverflow, hleast, hminimum.trans hleast⟩

end Gathered

end LoopSafety
