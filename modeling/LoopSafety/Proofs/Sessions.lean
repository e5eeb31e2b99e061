import LoopSafety.Proofs.Building
import LoopSafety.Report

/-! Sessions while their constants change.

The bounds of a session are always the ones that a new session would build. Verdicts may be older
than the constants, but a session that has verified them keeps none as safe that a new session would
not find safe as well. -/
namespace LoopSafety

namespace Context

variable {p : Program}

/-- The verdicts on all targets of a context under its own constants. -/
structure Prepared (p : Program) (ctx : Context) : Prop where
  built : ctx.Built p
  scans : ctx.scans.Describes p
  decided : ctx.Decided p
  access : ctx.accessVerdicts = ctx.accessTable p
  overflow : ctx.overflowVerdicts = ctx.operationTable p

/-- Verdicts on the targets of a context, found under some earlier constants. -/
structure Stored (p : Program) (ctx : Context) : Prop where
  built : ctx.Built p
  scans : ctx.scans.Describes p
  verdicts : ∃ old : Context, old.accesses = ctx.accesses ∧ old.overflowChecks = ctx.overflowChecks ∧
    ctx.accessVerdicts = old.accessTable p ∧ ctx.overflowVerdicts = old.operationTable p

/-- A table has a verdict on a dimension of a node, and the verdict is that no check is needed. -/
def SafeIndex (verdicts : Table NodeId (List Bool)) (node : NodeId) (d : Nat) : Prop :=
  ∃ dims, verdicts.get? node = some dims ∧ dims[d]? = some false

/-- No verdict is more lenient than one under the constants of the context. -/
structure Current (p : Program) (ctx : Context) : Prop extends Stored p ctx where
  decided : ctx.Decided p
  access : ∀ node d, SafeIndex ctx.accessVerdicts node d → SafeIndex (ctx.accessTable p) node d
  overflow : ∀ node, ctx.overflowVerdicts.get? node = some false →
    (ctx.operationTable p).get? node = some false

lemma Prepared.current {ctx : Context} (h : ctx.Prepared p) : ctx.Current p where
  built := h.built
  scans := h.scans
  verdicts := ⟨ctx, rfl, rfl, h.access, h.overflow⟩
  decided := h.decided
  access := by
    rw [h.access]
    exact fun _ _ => id
  overflow := by
    rw [h.overflow]
    exact fun _ => id

lemma Current.congr {ctx ctx' : Context} (h : ctx.Current p) (hbasis : ctx'.basis = ctx.basis)
    (hscans : ctx'.scans.Describes p) (haccess : ctx'.accessVerdicts = ctx.accessVerdicts)
    (hoverflow : ctx'.overflowVerdicts = ctx.overflowVerdicts) : ctx'.Current p := by
  obtain ⟨old, haccesses, hchecks, hstored⟩ := h.verdicts
  obtain ⟨-, -, -, haccesses', hchecks', -⟩ := basis_eq_iff.mp hbasis
  refine ⟨⟨h.built.congr hbasis, hscans, old, haccesses.trans haccesses'.symm,
    hchecks.trans hchecks'.symm, ?_⟩, (decided_congr hbasis).mpr h.decided, ?_, ?_⟩
  · rwa [haccess, hoverflow]
  · rw [haccess, accessTable_congr hbasis]
    exact h.access
  · rw [hoverflow, operationTable_congr hbasis]
    exact h.overflow

/-- What an access is decided on is a matter of its array, not of constants and bounds. -/
lemma decideAccess_shape {ctx : Context} {t : Occurrence} {dims : List Bool}
    (h : ctx.decideAccess p t = .ok (some dims)) (ctx' : Context) :
    ∃ dims', ctx'.decideAccess p t = .ok (some dims') ∧ dims'.length = dims.length := by
  unfold decideAccess at h ⊢
  split at h
  · split at h
    · cases h
    · dsimp only at h ⊢
      split at h
      · cases h
      · next hrank =>
        cases h
        rw [if_neg hrank]
        exact ⟨_, rfl, by simp [indexBounds]⟩
  · cases h

lemma accessVerdict?_eq_some {ctx : Context} {t : Occurrence} {dims : List Bool} :
    ctx.accessVerdict? p t = some dims ↔ ctx.decideAccess p t = .ok (some dims) := by
  unfold accessVerdict?
  rcases ctx.decideAccess p t with e | v | v <;> simp [Except.toOption]

end Context

lemma Checker.getElem?_of_not_regressed {stored now : List Bool} {d : Nat}
    (h : ¬regressed stored now) (hlen : now.length = stored.length)
    (hd : stored[d]? = some false) : now[d]? = some false := by
  obtain ⟨hlt, -⟩ := List.getElem?_eq_some_iff.mp hd
  have hnow : now[d]? = some now[d] := List.getElem?_eq_getElem (hlen ▸ hlt)
  have hmem : (false, now[d]) ∈ stored.zip now :=
    List.mem_of_getElem? (List.getElem?_zip_eq_some.mpr ⟨hd, hnow⟩)
  have hsafe := List.any_eq_false.mp (Bool.not_eq_true _ ▸ h) _ hmem
  simpa [hnow] using hsafe

namespace Context

variable {p : Program} {ctx : Context}

/-- The last access with a number decided on it before, and is checked again. -/
lemma Stored.access_upheld (h : ctx.Stored p) (hup : ∀ t ∈ ctx.accesses, ctx.UpheldAccess p t)
    {node : NodeId} {d : Nat} (hsafe : SafeIndex ctx.accessVerdicts node d) :
    SafeIndex (ctx.accessTable p) node d := by
  obtain ⟨old, haccesses, -, htable, -⟩ := h.verdicts
  obtain ⟨dims, hdims, hd⟩ := hsafe
  obtain ⟨before, t, after, hsplit, hid, hverdict, hafter⟩ :=
    verdictTable_get?.mp (htable ▸ hdims)
  obtain ⟨now, hnow, hlen⟩ := decideAccess_shape (accessVerdict?_eq_some.mp hverdict) ctx
  obtain ⟨_, hnow', hkept⟩ := hup t (by simp [← haccesses, hsplit])
  obtain rfl := Except.ok.inj (hnow.symm.trans hnow')
  refine ⟨now, verdictTable_get?.mpr ⟨before, t, after, haccesses ▸ hsplit, hid,
    accessVerdict?_eq_some.mpr hnow, ?_⟩, ?_⟩
  · intro y hy hyid
    by_contra hsome
    obtain ⟨v, hv⟩ := Option.ne_none_iff_exists'.mp hsome
    obtain ⟨v', hv', -⟩ := decideAccess_shape (accessVerdict?_eq_some.mp hv) old
    have hnone := hafter y hy hyid
    rw [accessVerdict?_eq_some.mpr hv'] at hnone
    cases hnone
  · have hkept := hkept now rfl
    rw [hid, hdims] at hkept
    exact Checker.getElem?_of_not_regressed hkept hlen hd

lemma Stored.overflow_upheld (h : ctx.Stored p)
    (hup : ∀ t ∈ ctx.overflowChecks, ctx.UpheldOperation p t) {node : NodeId}
    (hsafe : ctx.overflowVerdicts.get? node = some false) :
    (ctx.operationTable p).get? node = some false := by
  obtain ⟨old, -, hchecks, -, htable⟩ := h.verdicts
  obtain ⟨before, t, after, hsplit, hid, -, hafter⟩ := verdictTable_get?.mp (htable ▸ hsafe)
  have hkept := hup t (by simp [← hchecks, hsplit])
  rw [UpheldOperation, hid, hsafe] at hkept
  refine verdictTable_get?.mpr ⟨before, t, after, hchecks ▸ hsplit, hid, by simpa using hkept, ?_⟩
  intro y hy hyid
  cases hafter y hy hyid

end Context

namespace Session

variable {p : Program} {ctx ctx' : Context} {s s' : Session}

lemma rebuild_run (p : Program) (ctx : Context) :
    (rebuild p).run.run ctx =
      match (Context.buildAll p).run.run ctx.reset with
      | (.ok _, built) => (Context.checkAll p false).run.run built
      | (.error e, built) => (.error e, built) := by
  unfold rebuild
  rw [run_bind_step]
  change (Context.buildAll p >>= fun _ => Context.checkAll p false).run.run ctx.reset = _
  rw [run_bind_step]
  rcases (Context.buildAll p).run.run ctx.reset with ⟨_ | _, built⟩
  · rfl
  · rfl

lemma checkAll_run (p : Program) (strict : Bool) (ctx : Context) :
    (Context.checkAll p strict).run.run ctx =
      let r := (Checker.checkAll p strict).run.run { context := ctx }
      (r.1, r.2.context) := rfl

section

variable (shares : p.SharesContents)
include shares

/-- With bounds that can be built, rebuilding succeeds exactly if every access can be decided. -/
lemma rebuild_built {built : Context}
    (hbuild : (Context.buildAll p).run.run ctx.reset = (.ok (), built)) :
    ∃ r ctx', (rebuild p).run.run ctx = (r, ctx') ∧ ctx'.basis = built.basis ∧
      ctx'.scans.Describes p ∧ (r = .ok () ↔ built.Decided p) ∧
      (r = .ok () → ctx'.accessVerdicts = built.accessTable p ∧
        ctx'.overflowVerdicts = built.operationTable p) := by
  have hframe := Context.buildAll_frame hbuild
  obtain ⟨r, c', hrun, hkeep, hgood, htables⟩ := Checker.storeAll_run shares
    (c := { context := built }) (hframe ▸ ScanCache.describes_empty p) (by rw [hframe]; rfl)
    (by rw [hframe]; rfl)
  refine ⟨r, c'.context, ?_, hkeep.basis, hkeep.scans, hgood, htables⟩
  rw [rebuild_run, hbuild]
  dsimp only
  rw [checkAll_run, hrun]

lemma rebuild_ok (h : (rebuild p).run.run ctx = (.ok (), ctx')) :
    ctx'.Prepared p ∧ ctx'.reset = ctx.reset := by
  rcases hbuild : (Context.buildAll p).run.run ctx.reset with ⟨e | _, built⟩
  · rw [rebuild_run, hbuild] at h
    cases h
  · obtain ⟨_, _, hrun, hbasis, hscans, hgood, htables⟩ := rebuild_built shares hbuild
    obtain ⟨rfl, rfl⟩ := Prod.mk.inj (h.symm.trans hrun)
    obtain ⟨haccess, hoverflow⟩ := htables rfl
    have hreset : ctx'.reset = ctx.reset := by
      rw [Context.reset_congr hbasis, Context.buildAll_frame hbuild]
      rfl
    exact ⟨⟨⟨built, hreset ▸ hbuild, hbasis⟩, hscans,
      (Context.decided_congr hbasis).mpr (hgood.mp rfl),
      haccess.trans (Context.accessTable_congr hbasis).symm,
      hoverflow.trans (Context.operationTable_congr hbasis).symm⟩, hreset⟩

lemma prepare_ok (h : s.prepare p = (.ok (), s')) :
    s'.context.Prepared p ∧ s'.context.reset = s.context.reset := by
  unfold prepare onContext at h
  obtain ⟨hok, rfl⟩ := Prod.mk.inj h
  exact rebuild_ok shares (Prod.ext hok rfl)

/-- A session with the settings of a current context finds the verdicts of that context. -/
lemma prepare_current (h : ctx.Current p) (hreset : s.context.reset = ctx.reset) :
    ∃ s', s.prepare p = (.ok (), s') ∧ s'.context.accessVerdicts = ctx.accessTable p ∧
      s'.context.overflowVerdicts = ctx.operationTable p := by
  obtain ⟨built, hbuild, hbasis⟩ := h.built
  obtain ⟨r, ctx', hrun, -, -, hgood, htables⟩ := rebuild_built shares (hreset ▸ hbuild)
  obtain rfl := hgood.mpr ((Context.decided_congr hbasis).mp h.decided)
  rw [Context.accessTable_congr hbasis, Context.operationTable_congr hbasis]
  exact ⟨{ s with context := ctx' }, by rw [prepare, onContext, hrun], htables rfl⟩

/-- A comparison that succeeds shows the verdicts to hold under the constants at hand. -/
lemma compare_spec (hs : s.context.Stored p) :
    ∃ r s₁, onContext (Context.checkAll p true) s = (r, s₁) ∧
      s₁.context.basis = s.context.basis ∧ (r = .ok () → s₁.context.Current p) := by
  obtain ⟨r, c', hrun, hkeep, hgood⟩ :=
    Checker.compareAll_run shares (c := { context := s.context }) hs.scans
  refine ⟨r, { s with context := c'.context }, ?_, hkeep.basis, fun hr => ?_⟩
  · rw [onContext, checkAll_run, hrun]
  · obtain ⟨haccess, hoperation⟩ := hgood.mp hr
    have hcurrent : s.context.Current p :=
      ⟨hs, fun t ht => (haccess t ht).imp fun _ h => h.1, fun _ _ => hs.access_upheld haccess,
        fun _ => hs.overflow_upheld hoperation⟩
    exact hcurrent.congr hkeep.basis hkeep.scans hkeep.access hkeep.overflow

/-- Verification succeeds only with verdicts that hold under the constants at hand. -/
lemma verify_ok {attempts : Nat} (hs : s.context.Stored p) (h : s.verify p attempts = (.ok (), s')) :
    s'.context.Current p ∧ s'.context.reset = s.context.reset := by
  -- a comparison that fails is followed by a rebuild, which has stored verdicts to compare again
  induction attempts generalizing s with
  | zero =>
    obtain ⟨r, s₁, hrun, hbasis, hcurrent⟩ := compare_spec shares hs
    rw [verify, hrun] at h
    split at h
    · cases h
    · cases h
      exact ⟨hcurrent rfl, Context.reset_congr hbasis⟩
  | succ attempts ih =>
    obtain ⟨r, s₁, hrun, hbasis, hcurrent⟩ := compare_spec shares hs
    rw [verify, hrun] at h
    split at h
    · next s₂ heq =>
      cases heq
      dsimp only at h
      split at h
      · next s₃ hprepare =>
        obtain ⟨hprepared, hreset₃⟩ := prepare_ok shares hprepare
        obtain ⟨hcurrent', hreset'⟩ := ih hprepared.current.toStored h
        exact ⟨hcurrent', hreset'.trans (hreset₃.trans (Context.reset_congr hbasis))⟩
      · next hfailed => exact absurd h (hfailed s')
    · cases h
      exact ⟨hcurrent rfl, Context.reset_congr hbasis⟩

/-- New constants replace the old ones, and verdicts that do not hold any more are gone. -/
lemma instantiate_ok {constants : Constants} (hs : s.context.Current p)
    (h : s.instantiate p constants = (.ok (), s')) :
    s'.context.Current p ∧ s'.context.reset =
      { s.context.reset with constants := s.context.constants.insertAll constants.entries } := by
  unfold instantiate at h
  dsimp only at h
  refine verify_ok shares ?_ h
  exact ⟨hs.built.withConstants _, hs.scans, hs.verdicts⟩

end

end Session

namespace Analyzer

/-- Constants after a sequence of changes; later values win. -/
def merged (constants : Constants) (maps : List Constants) : Constants :=
  maps.foldl (fun all new => all.insertAll new.entries) constants

variable {p : Program} (shares : p.SharesContents)
include shares

lemma instantiateAll_ok {maps : List Constants} {s s' : Session} (hs : s.context.Current p)
    (h : instantiateAll p maps s = .ok s') :
    s'.context.Current p ∧ s'.context.reset =
      { s.context.reset with constants := merged s.context.constants maps } := by
  induction maps generalizing s with
  | nil =>
    cases h
    exact ⟨hs, rfl⟩
  | cons m maps ih =>
    unfold instantiateAll at h
    split at h
    · next s₁ hfirst =>
      obtain ⟨hcurrent, hreset⟩ := Session.instantiate_ok shares hs hfirst
      obtain ⟨hcurrent', hreset'⟩ := ih hcurrent h
      have hconstants : s₁.context.constants = s.context.constants.insertAll m.entries :=
        congrArg Context.constants hreset
      rw [hreset', hreset, hconstants]
      exact ⟨hcurrent', rfl⟩
    · cases h

/-- However constants changed, as long as all changes went through, a check is dropped only if a new
session under the final constants drops it as well. -/
theorem settled_verdict_holds_anew {root : Term} {config : Config} {constants : Constants}
    {maps : List Constants} {s : Session} (h : settle p root config constants maps = .ok s) :
    ∃ anew, (Session.new root config (merged constants maps)).prepare p = (.ok (), anew) ∧
      (∀ node d, Context.SafeIndex s.context.accessVerdicts node d →
        Context.SafeIndex anew.context.accessVerdicts node d) ∧
      ∀ node, s.context.overflowVerdicts.get? node = some false →
        anew.context.overflowVerdicts.get? node = some false := by
  unfold settle at h
  split at h
  · cases h
  · next s₀ hprepare =>
    obtain ⟨hprepared, hreset₀⟩ := Session.prepare_ok shares hprepare
    obtain ⟨hcurrent, hreset⟩ := instantiateAll_ok shares hprepared.current h
    have hconstants : s₀.context.constants = constants := congrArg Context.constants hreset₀
    rw [hreset₀, hconstants] at hreset
    obtain ⟨anew, hanew, haccess, hoverflow⟩ := Session.prepare_current shares hcurrent
      (s := Session.new root config (merged constants maps)) hreset.symm
    refine ⟨anew, hanew, ?_, ?_⟩
    · rw [haccess]
      exact hcurrent.access
    · rw [hoverflow]
      exact hcurrent.overflow

end Analyzer

/-! A loop up to `n` over two arrays of ten and of a hundred cells, for `n` of five, then twenty, then
eight. The second change costs the check of the smaller array. -/
namespace Resized

def index : Term := ⟨⟨0⟩, .var "i" .int none⟩
def narrowCell : Term := ⟨⟨1⟩, .access ⟨0⟩ [index]⟩
def wideCell : Term := ⟨⟨2⟩, .access ⟨1⟩ [index]⟩
def body : Term := ⟨⟨3⟩, .block [narrowCell, wideCell]⟩
def loop : Term := ⟨⟨4⟩, .forLoop ⟨0⟩ body⟩

def program : Program where
  terms := #[index, narrowCell, wideCell, body, loop, ⟨⟨5⟩, .var "n" .int none⟩]
  loops := #[⟨"i", .int, .symbolic none (some ⟨5⟩) none ⟨0, 0, 1⟩⟩]
  arrays := #[⟨"a", ⟨.intArray, [10]⟩, none, false⟩, ⟨"b", ⟨.intArray, [100]⟩, none, false⟩]

lemma program_sharesContents : program.SharesContents := by decide

def values (n : Int64) : Constants := .ofList [("n", n)]

def outcome : Except Error Session :=
  Analyzer.settle program loop {} (values 5) [values 20, values 8]

lemma outcome_isSome : outcome.toOption.isSome := by decide +kernel

def session : Session := outcome.toOption.get outcome_isSome

lemma outcome_eq : outcome = .ok session := eq_ok_get outcome_isSome

/-- The larger array keeps its verdict through the rebuild; the smaller one does not get it back. -/
theorem wide_cell_safe_anew :
    session.context.accessVerdicts.get? ⟨1⟩ = some [true] ∧
    Context.SafeIndex session.context.accessVerdicts ⟨2⟩ 0 ∧
    ∃ anew, (Session.new loop {} (Analyzer.merged (values 5) [values 20, values 8])).prepare program =
        (.ok (), anew) ∧ Context.SafeIndex anew.context.accessVerdicts ⟨2⟩ 0 := by
  have hsafe : Context.SafeIndex session.context.accessVerdicts ⟨2⟩ 0 :=
    ⟨[false], by decide +kernel, rfl⟩
  obtain ⟨anew, hanew, haccess, -⟩ :=
    Analyzer.settled_verdict_holds_anew program_sharesContents outcome_eq
  exact ⟨by decide +kernel, hsafe, anew, hanew, haccess ⟨2⟩ 0 hsafe⟩

end Resized

end LoopSafety
