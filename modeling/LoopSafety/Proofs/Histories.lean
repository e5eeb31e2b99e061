import LoopSafety.Proofs.Frames
import LoopSafety.Proofs.Sessions

/-! Sessions that have served any number of requests.

Whatever a session went through, its settings and targets are those it started with, and its
constants are the ones it was given since. Preparation starts from these alone, so it cannot tell
an old session from a new one. -/
namespace LoopSafety

/-- What a session can be asked for. -/
inductive Request where
  | prepare
  | instantiate (constants : Constants)

/-- The constants that a request brings along. -/
def Request.constants? : Request → Option Constants
  | prepare => none
  | instantiate constants => some constants

namespace Session

def serve (p : Program) (s : Session) : Request → Except Error Unit × Session
  | .prepare => s.prepare p
  | .instantiate constants => s.instantiate p constants

/-- The session after requests, any of which may have failed. -/
def after (p : Program) (requests : List Request) (s : Session) : Session :=
  requests.foldl (fun s r => (s.serve p r).2) s

/-- The session with new constants, before anything is verified. -/
def withConstants (constants : Constants) (s : Session) : Session :=
  { s with
    context := { s.context with constants := s.context.constants.insertAll constants.entries } }

/-- How often bounds may be rebuilt. -/
def retryLimit (s : Session) : Nat := s.context.config.retryLimit.toNat

/-- Compare the stored verdicts with those under the constants at hand. -/
abbrev recheck (p : Program) (s : Session) : Except Error Unit × Session :=
  onContext (Context.checkAll p true) s

/-- The session to rebuild, if bounds are invalidated and retries are left. -/
def toRebuild? (p : Program) (s : Session) : Option Session :=
  match s.recheck p with
  | (.error .boundInvalidated, s₁) =>
    if s.retries < s.retryLimit then some { s₁ with retries := s₁.retries + 1 } else none
  | _ => none

/-- Verification as the rule to rebuild while there is something to rebuild. Nothing in the rule
itself bounds the number of rebuilds, which is `n`. -/
inductive Rounds (p : Program) : (n : Nat) → Session → Except Error Unit × Session → Prop
  | done {s : Session} (hretry : s.toRebuild? p = none) : Rounds p 0 s (s.recheck p)
  | failed {s s₁ s₂ : Session} {e : Error} (hretry : s.toRebuild? p = some s₁)
      (hprepare : s₁.prepare p = (.error e, s₂)) : Rounds p 1 s (.error e, s₂)
  | again {s s₁ s₂ : Session} {n : Nat} {out : Except Error Unit × Session}
      (hretry : s.toRebuild? p = some s₁) (hprepare : s₁.prepare p = (.ok (), s₂))
      (hrest : Rounds p n s₂ out) : Rounds p (n + 1) s out

variable {p : Program}

lemma prepare_reset (s : Session) : (s.prepare p).2.context.reset = s.context.reset :=
  (rebuild_leaves s.context).1

lemma recheck_reset (s : Session) : (s.recheck p).2.context.reset = s.context.reset :=
  Context.reset_congr (Checker.checkAll_leaves true { context := s.context }).1

lemma retryLimit_congr {s s' : Session} (h : s.context.reset = s'.context.reset) :
    s.retryLimit = s'.retryLimit :=
  congrArg (fun ctx => ctx.config.retryLimit.toNat) h

lemma toRebuild?_eq_none_iff {s : Session} : s.toRebuild? p = none ↔
    ((s.recheck p).1 = .error .boundInvalidated → s.retryLimit ≤ s.retries) := by
  unfold toRebuild?
  split
  · next s₁ hrecheck => simp [hrecheck]
  · next hother =>
    refine iff_of_true rfl fun hinvalid => ?_
    exact (hother _ (Prod.ext hinvalid rfl)).elim

lemma toRebuild?_eq_some {s s₁ : Session} (h : s.toRebuild? p = some s₁) :
    ∃ s₂, s.recheck p = (.error .boundInvalidated, s₂) ∧ s.retries < s.retryLimit ∧
      s₁ = { s₂ with retries := s₂.retries + 1 } := by
  unfold toRebuild? at h
  split at h
  · next s₂ hrecheck =>
    split at h
    · next hlt =>
      cases h
      exact ⟨s₂, hrecheck, hlt, rfl⟩
    · cases h
  · cases h

/-- A retry is counted, and starts from the settings that were compared. -/
lemma toRebuild?_spec {s s₁ : Session} (h : s.toRebuild? p = some s₁) :
    s₁.context.reset = s.context.reset ∧ s₁.retries = s.retries + 1 ∧ s₁.retries ≤ s.retryLimit := by
  obtain ⟨s₂, hrecheck, hlt, rfl⟩ := toRebuild?_eq_some h
  have hreset := recheck_reset (p := p) s
  have hretries : s.retries = s₂.retries := congrArg (fun out => out.2.retries) hrecheck
  rw [hrecheck] at hreset
  exact ⟨hreset, by rw [hretries], by rwa [← hretries]⟩

/-- The rebuild of a retry keeps settings and the count. -/
lemma retry_frame {s s₁ s₂ : Session} {r : Except Error Unit} (hretry : s.toRebuild? p = some s₁)
    (hprepare : s₁.prepare p = (r, s₂)) :
    s₂.context.reset = s.context.reset ∧ s₂.retries = s.retries + 1 ∧
      s₂.retries ≤ s.retryLimit := by
  obtain ⟨hreset, hcount, hle⟩ := toRebuild?_spec hretry
  have hprepare_reset := prepare_reset (p := p) s₁
  have hretries : s₁.retries = s₂.retries := congrArg (fun out => out.2.retries) hprepare
  rw [hprepare] at hprepare_reset
  exact ⟨hprepare_reset.trans hreset, hretries ▸ hcount, hretries ▸ hle⟩

lemma verify_zero (s : Session) : s.verify p 0 = s.recheck p := by
  rw [verify]
  split
  · next hrecheck => exact hrecheck.symm
  · rfl

lemma verify_done {s : Session} (attempts : Nat) (hlt : s.retries < s.retryLimit)
    (hretry : s.toRebuild? p = none) : s.verify p (attempts + 1) = s.recheck p := by
  rw [verify]
  split
  · next s₁ hrecheck =>
    have hle := toRebuild?_eq_none_iff.mp hretry (congrArg Prod.fst hrecheck)
    omega
  · rfl

lemma verify_failed {s s₁ s₂ : Session} (attempts : Nat) {e : Error}
    (hretry : s.toRebuild? p = some s₁) (hprepare : s₁.prepare p = (.error e, s₂)) :
    s.verify p (attempts + 1) = (.error e, s₂) := by
  obtain ⟨s₃, hrecheck, -, rfl⟩ := toRebuild?_eq_some hretry
  rw [verify, show onContext (Context.checkAll p true) s = _ from hrecheck]
  dsimp only
  rw [hprepare]

lemma verify_again {s s₁ s₂ : Session} (attempts : Nat) (hretry : s.toRebuild? p = some s₁)
    (hprepare : s₁.prepare p = (.ok (), s₂)) :
    s.verify p (attempts + 1) = s₂.verify p attempts := by
  obtain ⟨s₃, hrecheck, -, rfl⟩ := toRebuild?_eq_some hretry
  rw [verify, show onContext (Context.checkAll p true) s = _ from hrecheck]
  dsimp only
  rw [hprepare]

/-- With what is left of the retry limit, verification runs all the rounds that the rule asks for. -/
theorem verify_rounds (s : Session) : ∃ n, Rounds p n s (s.verify p (s.retryLimit - s.retries)) := by
  generalize hattempts : s.retryLimit - s.retries = attempts
  induction attempts generalizing s with
  | zero =>
    have hretry : s.toRebuild? p = none :=
      toRebuild?_eq_none_iff.mpr fun _ => Nat.le_of_sub_eq_zero hattempts
    exact ⟨0, verify_zero (p := p) s ▸ .done hretry⟩
  | succ attempts ih =>
    rcases hretry : s.toRebuild? p with _ | s₁
    · rw [verify_done attempts (by omega) hretry]
      exact ⟨0, .done hretry⟩
    · rcases hprepare : s₁.prepare p with ⟨e | _, s₂⟩
      · rw [verify_failed attempts hretry hprepare]
        exact ⟨1, .failed hretry hprepare⟩
      · obtain ⟨hreset, hcount, -⟩ := retry_frame hretry hprepare
        obtain ⟨n, hrest⟩ := ih s₂ (by rw [retryLimit_congr hreset, hcount]; omega)
        rw [verify_again attempts hretry hprepare]
        exact ⟨n + 1, .again hretry hprepare hrest⟩

/-- Verification changes neither settings nor targets, however often it rebuilds and however it
ends. -/
lemma Rounds.reset {n : Nat} {s : Session} {out : Except Error Unit × Session}
    (h : Rounds p n s out) : out.2.context.reset = s.context.reset := by
  induction h with
  | done _ => exact recheck_reset _
  | failed hretry hprepare => exact (retry_frame hretry hprepare).1
  | again hretry hprepare _ ih => exact ih.trans (retry_frame hretry hprepare).1

lemma instantiate_rounds (constants : Constants) (s : Session) :
    ∃ n, Rounds p n (s.withConstants constants) (s.instantiate p constants) :=
  verify_rounds (s.withConstants constants)

/-- A request leaves settings and targets alone, and of constants it sets those it brings along. -/
lemma serve_reset (s : Session) (request : Request) :
    (s.serve p request).2.context.reset =
      { s.context.reset with
        constants := Analyzer.merged s.context.constants request.constants?.toList } := by
  cases request with
  | prepare => exact prepare_reset s
  | instantiate constants =>
    obtain ⟨_, hrounds⟩ := instantiate_rounds (p := p) constants s
    exact hrounds.reset

lemma after_reset (requests : List Request) (s : Session) :
    (s.after p requests).context.reset =
      { s.context.reset with
        constants :=
          Analyzer.merged s.context.constants (requests.filterMap Request.constants?) } := by
  induction requests generalizing s with
  | nil => rfl
  | cons request requests ih =>
    have hserve := serve_reset (p := p) s request
    have hconstants := congrArg Context.constants hserve
    change (s.serve p request).2.context.constants = _ at hconstants
    refine (ih (s.serve p request).2).trans ?_
    rw [hserve, hconstants]
    cases request <;> rfl

/-- Preparation reads nothing but settings, constants and targets. -/
lemma prepare_congr {s s' : Session} (h : s.context.reset = s'.context.reset) :
    (s.prepare p).1 = (s'.prepare p).1 ∧
      (s.prepare p).2.context = (s'.prepare p).2.context := by
  have hrun : (rebuild p).run.run s.context = (rebuild p).run.run s'.context := by
    rw [rebuild_run, rebuild_run, h]
  unfold prepare onContext
  rw [hrun]
  exact ⟨rfl, rfl⟩

/-- After any requests, failed ones included, preparation has the outcome of preparing a new session
under the constants that the requests have left. -/
theorem prepare_forgets_history (p : Program) (root : Term) (config : Config)
    (constants : Constants) (requests : List Request) :
    let s := (new root config constants).after p requests
    let anew := new root config
      (Analyzer.merged constants (requests.filterMap Request.constants?))
    s.context.constants = anew.context.constants ∧
      (s.prepare p).1 = (anew.prepare p).1 ∧
      (s.prepare p).2.context = (anew.prepare p).2.context := by
  intro s anew
  have hreset : s.context.reset = anew.context.reset := after_reset requests _
  have hconstants := congrArg Context.constants hreset
  exact ⟨hconstants, prepare_congr hreset⟩

end Session

end LoopSafety
