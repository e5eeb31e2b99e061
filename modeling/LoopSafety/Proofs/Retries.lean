import Mathlib.Data.List.Nodup
import LoopSafety.Proofs.Histories

/-! How often sessions rebuild their bounds.

Retries count rebuilds over the whole life of a session and stay within its limit. Where no two
targets share a number, one rebuild is enough: nothing that it stores is overwritten, so the
comparison after it decides every target the way the rebuild did. -/
namespace LoopSafety

/-- Where no two targets share a number, each has its own verdict, wherever it stands. -/
lemma verdictTable_get?_iff_of_nodup {β : Type} {verdict : Occurrence → Option β}
    {targets : List Occurrence} (hnodup : (targets.map (·.term.id)).Nodup) {node : NodeId} {v : β} :
    (verdictTable verdict targets).get? node = some v ↔
      ∃ t ∈ targets, t.term.id = node ∧ verdict t = some v := by
  rw [verdictTable_get?]
  constructor
  · rintro ⟨before, x, after, rfl, hid, hv, -⟩
    exact ⟨x, by simp, hid, hv⟩
  · rintro ⟨t, ht, rfl, hv⟩
    obtain ⟨before, after, rfl⟩ := List.append_of_mem ht
    refine ⟨before, t, after, rfl, rfl, hv, fun y hy hid => ?_⟩
    rw [List.map_append, List.map_cons, List.nodup_append, List.nodup_cons] at hnodup
    exact absurd (List.mem_map.mpr ⟨y, hy, hid⟩) hnodup.2.1.1

lemma verdictTable_get?_of_nodup {β : Type} {verdict : Occurrence → Option β}
    {targets : List Occurrence} (hnodup : (targets.map (·.term.id)).Nodup) {t : Occurrence}
    (ht : t ∈ targets) {v : β} (h : (verdictTable verdict targets).get? t.term.id = some v) :
    verdict t = some v := by
  obtain ⟨x, hx, hid, hv⟩ := (verdictTable_get?_iff_of_nodup hnodup).mp h
  obtain rfl : x = t := List.inj_on_of_nodup_map hnodup hx ht hid
  exact hv

lemma Checker.not_regressed_self (dims : List Bool) : ¬regressed dims dims := by
  rw [regressed_iff]
  rintro ⟨d, hwas, his⟩
  cases hwas.symm.trans his

namespace Context

/-- No two accesses share a number, and no two integer operations do. -/
structure Distinct (ctx : Context) : Prop where
  accesses : (ctx.accesses.map (·.term.id)).Nodup
  operations : (ctx.overflowChecks.map (·.term.id)).Nodup

variable {p : Program} {ctx : Context} {t : Occurrence}

lemma Distinct.of_reset_eq {ctx' : Context} (h : ctx.Distinct) (hreset : ctx'.reset = ctx.reset) :
    ctx'.Distinct := by
  obtain ⟨haccesses, hchecks⟩ := targets_of_reset_eq hreset
  exact ⟨haccesses ▸ h.accesses, hchecks ▸ h.operations⟩

lemma Prepared.upholds_access (h : ctx.Prepared p) (hdistinct : ctx.Distinct)
    (ht : t ∈ ctx.accesses) : ctx.UpheldAccess p t := by
  obtain ⟨v, hv⟩ := h.decided t ht
  refine ⟨v, hv, ?_⟩
  rintro now rfl hregressed
  obtain ⟨stored, hstored, hregressed⟩ := (Option.any_eq_true _ _).mp hregressed
  rw [h.access] at hstored
  have hsame := verdictTable_get?_of_nodup hdistinct.accesses ht hstored
  obtain rfl : stored = now := by
    simpa using (accessVerdict?_eq_some.mp hsame).symm.trans hv
  exact Checker.not_regressed_self stored hregressed

lemma Prepared.upholds_operation (h : ctx.Prepared p) (hdistinct : ctx.Distinct)
    (ht : t ∈ ctx.overflowChecks) : ctx.UpheldOperation p t := by
  rintro ⟨hstored, hnow⟩
  rw [h.overflow] at hstored
  have hsame := verdictTable_get?_of_nodup hdistinct.operations ht hstored
  rw [hnow] at hsame
  cases hsame

end Context

namespace Session

variable {p : Program} {n : Nat} {s s' : Session} {out : Except Error Unit × Session}

/-- What a rebuild has stored holds up to a comparison under the same constants. -/
theorem recheck_prepared (shares : p.SharesContents) (h : s.prepare p = (.ok (), s'))
    (hdistinct : s.context.Distinct) : (s'.recheck p).1 = .ok () := by
  obtain ⟨hprepared, hreset⟩ := prepare_ok shares h
  have hdistinct' := hdistinct.of_reset_eq hreset
  obtain ⟨r, c', hrun, -, hgood⟩ :=
    Checker.compareAll_run shares (c := { context := s'.context }) hprepared.scans
  rw [recheck, onContext, checkAll_run, hrun]
  exact hgood.mpr ⟨fun _ => hprepared.upholds_access hdistinct',
    fun _ => hprepared.upholds_operation hdistinct'⟩

namespace Rounds

lemma retries (h : Rounds p n s out) : out.2.retries = s.retries + n := by
  induction h with
  | done _ => rfl
  | failed hretry hprepare => exact (retry_frame hretry hprepare).2.1
  | again hretry hprepare _ ih =>
    have hcount := (retry_frame hretry hprepare).2.1
    omega

lemma retries_le_limit (h : Rounds p n s out) (hle : s.retries ≤ s.retryLimit) :
    out.2.retries ≤ s.retryLimit := by
  induction h with
  | done _ => exact hle
  | failed hretry hprepare => exact (retry_frame hretry hprepare).2.2
  | again hretry hprepare _ ih =>
    obtain ⟨hreset, -, hle⟩ := retry_frame hretry hprepare
    rw [retryLimit_congr hreset] at ih
    exact ih hle

/-- Bounds stay invalidated only where no retry is left: a rebuild fails for other reasons. -/
lemma limit_le_of_invalidated (h : Rounds p n s out) (hout : out.1 = .error .boundInvalidated) :
    s.retryLimit ≤ out.2.retries := by
  induction h with
  | done hretry => exact toRebuild?_eq_none_iff.mp hretry hout
  | @failed s s₁ s₂ e _ hprepare =>
    have hfatal := (rebuild_leaves (p := p) s₁.context).2 e (congrArg Prod.fst hprepare)
    cases hout
    cases hfatal
  | again hretry hprepare _ ih =>
    rw [← retryLimit_congr (retry_frame hretry hprepare).1]
    exact ih hout

/-- The rule leaves no choice. -/
lemma unique {n' : Nat} {out' : Except Error Unit × Session} (h : Rounds p n s out)
    (h' : Rounds p n' s out') : n' = n ∧ out' = out := by
  induction h generalizing n' out' with
  | done hretry =>
    cases h' with
    | done _ => exact ⟨rfl, rfl⟩
    | failed hretry' _ | again hretry' _ _ => cases hretry.symm.trans hretry'
  | failed hretry hprepare =>
    cases h' with
    | done hretry' => cases hretry.symm.trans hretry'
    | failed hretry' hprepare' =>
      cases hretry.symm.trans hretry'
      cases hprepare.symm.trans hprepare'
      exact ⟨rfl, rfl⟩
    | again hretry' hprepare' _ =>
      cases hretry.symm.trans hretry'
      cases hprepare.symm.trans hprepare'
  | again hretry hprepare _ ih =>
    cases h' with
    | done hretry' => cases hretry.symm.trans hretry'
    | failed hretry' hprepare' =>
      cases hretry.symm.trans hretry'
      cases hprepare.symm.trans hprepare'
    | again hretry' hprepare' hrest' =>
      cases hretry.symm.trans hretry'
      cases hprepare.symm.trans hprepare'
      obtain ⟨rfl, rfl⟩ := ih hrest'
      exact ⟨rfl, rfl⟩

/-- With distinct targets the comparison after a rebuild succeeds, and with it the verification. -/
lemma le_one (h : Rounds p n s out) (shares : p.SharesContents) (hdistinct : s.context.Distinct) :
    n ≤ 1 := by
  cases h with
  | done _ => exact Nat.zero_le 1
  | failed _ _ => exact Nat.le_refl 1
  | @again _ s₁ s₂ _ _ hretry hprepare hrest =>
    have hok := recheck_prepared shares hprepare (hdistinct.of_reset_eq (toRebuild?_spec hretry).1)
    have hstops : s₂.toRebuild? p = none := toRebuild?_eq_none_iff.mpr (by simp [hok])
    cases hrest with
    | done _ => exact Nat.le_refl 1
    | failed hretry' _ | again hretry' _ _ =>
      rw [hstops] at hretry'
      cases hretry'

end Rounds

lemma serve_retries (s : Session) (request : Request) :
    s.retries ≤ (s.serve p request).2.retries := by
  cases request with
  | prepare => exact Nat.le_refl _
  | instantiate constants =>
    obtain ⟨_, hrounds⟩ := instantiate_rounds (p := p) constants s
    exact hrounds.retries.symm ▸ Nat.le_add_right _ _

lemma serve_retries_le_limit (request : Request) (h : s.retries ≤ s.retryLimit) :
    (s.serve p request).2.retries ≤ s.retryLimit := by
  cases request with
  | prepare => exact h
  | instantiate constants =>
    obtain ⟨_, hrounds⟩ := instantiate_rounds (p := p) constants s
    exact hrounds.retries_le_limit h

lemma serve_retryLimit (s : Session) (request : Request) :
    (s.serve p request).2.retryLimit = s.retryLimit :=
  congrArg (fun ctx => ctx.config.retryLimit.toNat) (serve_reset s request)

lemma after_retryLimit (requests : List Request) (s : Session) :
    (s.after p requests).retryLimit = s.retryLimit :=
  congrArg (fun ctx => ctx.config.retryLimit.toNat) (after_reset requests s)

lemma after_retries_le_limit (requests : List Request) (h : s.retries ≤ s.retryLimit) :
    (s.after p requests).retries ≤ s.retryLimit := by
  induction requests generalizing s with
  | nil => exact h
  | cons request requests ih =>
    have hserve := serve_retries_le_limit (p := p) request h
    rw [← serve_retryLimit (p := p) s request] at hserve ⊢
    exact ih hserve

/-- Every instantiation comes to its one end; over all requests retries only grow and stay within the
limit, which is reached where bounds stay invalidated. With distinct targets an instantiation
rebuilds at most once, since what was just rebuilt passes its comparison. -/
theorem retries_bounded_and_settle (shares : p.SharesContents) {root : Term} {config : Config}
    {initial : Constants} {requests : List Request}
    (hs : (new root config initial).after p requests = s) (constants : Constants) :
    (∃ n, Rounds p n (s.withConstants constants) (s.instantiate p constants) ∧
      ∀ n' out, Rounds p n' (s.withConstants constants) out →
        n' = n ∧ out = s.instantiate p constants) ∧
    (∀ request, s.retries ≤ (s.serve p request).2.retries) ∧
    s.retries ≤ config.retryLimit.toNat ∧
    ((s.instantiate p constants).1 = .error .boundInvalidated →
      (s.instantiate p constants).2.retries = config.retryLimit.toNat) ∧
    (s.context.Distinct →
      (s.instantiate p constants).2.retries ≤ s.retries + 1 ∧
      ∀ before rebuilt : Session,
        before.context.reset = (s.withConstants constants).context.reset →
        before.prepare p = (.ok (), rebuilt) → (rebuilt.recheck p).1 = .ok ()) := by
  have hlimit : s.retryLimit = config.retryLimit.toNat := hs ▸ after_retryLimit requests _
  have hle : s.retries ≤ config.retryLimit.toNat :=
    hs ▸ after_retries_le_limit requests (Nat.zero_le _)
  obtain ⟨n, hrounds⟩ := instantiate_rounds (p := p) constants s
  refine ⟨⟨n, hrounds, fun _ _ => hrounds.unique⟩, serve_retries s, hle, ?_, ?_⟩
  · intro hinvalid
    have hge := hrounds.limit_le_of_invalidated hinvalid
    have hbound := hrounds.retries_le_limit (hlimit ▸ hle)
    exact hlimit ▸ Nat.le_antisymm hbound hge
  · intro hdistinct
    have hdistinct' : (s.withConstants constants).context.Distinct :=
      ⟨hdistinct.accesses, hdistinct.operations⟩
    refine ⟨?_, fun before rebuilt hreset hprepare => ?_⟩
    · rw [hrounds.retries]
      exact Nat.add_le_add_left (hrounds.le_one shares hdistinct') _
    · exact recheck_prepared shares hprepare (hdistinct'.of_reset_eq hreset)

end Session

namespace Resized

def prepared (retryLimit : UInt64) : Session :=
  (Session.new loop { retryLimit } (values 5)).after program [.prepare]

/-- With retries left, one rebuild settles the loss of the smaller array; with none, the bounds stay
invalidated. -/
theorem one_retry_settles :
    (prepared 5).context.Distinct ∧
    ((prepared 5).instantiate program (values 20)).2.retries = 1 ∧
    ((prepared 5).instantiate program (values 20)).2.retries ≤ (prepared 5).retries + 1 ∧
    (∀ rebuilt, ((prepared 5).withConstants (values 20)).prepare program = (.ok (), rebuilt) →
      (rebuilt.recheck program).1 = .ok ()) ∧
    ((prepared 0).instantiate program (values 20)).1 = .error .boundInvalidated ∧
    ((prepared 0).instantiate program (values 20)).2.retries = (0 : UInt64).toNat := by
  have hdistinct : (prepared 5).context.Distinct := ⟨by decide +kernel, by decide +kernel⟩
  obtain ⟨-, -, -, -, hsettles⟩ := Session.retries_bounded_and_settle program_sharesContents
    (s := prepared 5) rfl (values 20)
  obtain ⟨hle, hrecheck⟩ := hsettles hdistinct
  have hinvalid : ((prepared 0).instantiate program (values 20)).1 = .error .boundInvalidated := by
    decide +kernel
  obtain ⟨-, -, -, hlimit, -⟩ := Session.retries_bounded_and_settle program_sharesContents
    (s := prepared 0) rfl (values 20)
  refine ⟨hdistinct, by decide +kernel, hle, fun rebuilt => ?_, hinvalid, hlimit hinvalid⟩
  exact hrecheck _ rebuilt rfl

end Resized

end LoopSafety
