import LoopSafety.Proofs.Retries

/-! The ranges that loops have been resolved to, while the constants of a session change.

Every comparison of verdicts resolves all loops anew and enters the ranges that come out. A loop
whose bounds have ceased to be literals is passed over: the range entered for it before stays, until
bounds are rebuilt. -/
namespace LoopSafety

namespace Program

/-- The range of a loop is not known from the start. -/
def Symbolic (p : Program) (loop : LoopId) : Prop := (p.loop? loop).bind LoopInfo.simpleSpan? = none

instance (p : Program) (loop : LoopId) : Decidable (p.Symbolic loop) :=
  inferInstanceAs (Decidable (_ = none))

end Program

namespace Context

variable {p : Program}

/-- The parts of a range as literals under the constants at hand, outside all loops. -/
def literalSpan? (p : Program) (ctx : Context) (start stop step : Bound) : Option Span := do
  let start ← (ctx.narrowed p [] start).1.literal?
  let stop ← (ctx.narrowed p [] stop).1.literal?
  let step ← (ctx.narrowed p [] step).1.literal?
  return ⟨start, stop, step⟩

/-- The range that the bounds of a loop come to under the constants at hand. -/
def currentRange? (p : Program) (ctx : Context) (loop : LoopId) : Option Span :=
  match ctx.loopBounds.get? loop with
  | some (.range start stop step) => ctx.literalSpan? p start stop step
  | _ => none

/-- What resolving a loop enters for it. -/
def entered? (p : Program) (ctx : Context) (loop : LoopId) : Option Span :=
  if p.Symbolic loop then ctx.currentRange? p loop else none

variable {ctx ctx' : Context}

lemma currentRange?_congr (h : ctx.basis = ctx'.basis) (loop : LoopId) :
    ctx.currentRange? p loop = ctx'.currentRange? p loop := by
  obtain ⟨-, -, -, -, -, hbounds, -⟩ := basis_eq_iff.mp h
  unfold currentRange? literalSpan?
  simp only [hbounds, narrowed_congr h]

lemma entered?_congr (h : ctx.basis = ctx'.basis) (loop : LoopId) :
    ctx.entered? p loop = ctx'.entered? p loop := by
  rw [entered?, entered?, currentRange?_congr h]

lemma resolvedRange_of_symbolic {loop : LoopId} (h : p.Symbolic loop) :
    ctx.resolvedRange p loop = ctx.ranges.get? loop := by
  rw [resolvedRange, h, Option.none_or]

end Context

namespace Checker

open Context

variable {p : Program} {c : Checker}

section

variable (shares : p.SharesContents)
include shares

lemma evaluate_spec (hc : c.context.scans.Describes p) (b : Bound) :
    ∃ c', (evaluate p {} b).run c = ((c.context.narrowed p [] b).1, c') ∧ KeepsVerdicts p c c' ∧
      c'.context.ranges = c.context.ranges := by
  obtain ⟨scans, hs, heq⟩ := (c.context.evaluate_steady shares {} b).run_eq c.safe hc
  rw [evaluate_run, heq]
  exact ⟨_, rfl, ⟨⟨rfl, hs⟩, rfl, rfl⟩, rfl⟩

/-- The parts are narrowed one after the other, each with a cache that is still faithful. -/
lemma literalRange_spec (hc : c.context.scans.Describes p) (start stop step : Bound) :
    ∃ c', (literalRange p start stop step).run c =
        (c.context.literalSpan? p start stop step, c') ∧ KeepsVerdicts p c c' ∧
      c'.context.ranges = c.context.ranges := by
  unfold literalRange literalSpan?
  obtain ⟨c₁, hrun₁, hkeep₁, hranges₁⟩ := evaluate_spec shares hc start
  rw [run_bind_of_run hrun₁]
  cases (c.context.narrowed p [] start).1.literal? with
  | none => exact ⟨c₁, rfl, hkeep₁, hranges₁⟩
  | some _ =>
    obtain ⟨c₂, hrun₂, hkeep₂, hranges₂⟩ := evaluate_spec shares hkeep₁.scans stop
    rw [narrowed_congr hkeep₁.basis] at hrun₂
    dsimp only
    rw [run_bind_of_run hrun₂]
    cases (c.context.narrowed p [] stop).1.literal? with
    | none => exact ⟨c₂, rfl, hkeep₁.trans hkeep₂, hranges₂.trans hranges₁⟩
    | some _ =>
      obtain ⟨c₃, hrun₃, hkeep₃, hranges₃⟩ := evaluate_spec shares hkeep₂.scans step
      rw [narrowed_congr hkeep₂.basis, narrowed_congr hkeep₁.basis] at hrun₃
      have hkeep := hkeep₁.trans (hkeep₂.trans hkeep₃)
      have hranges := hranges₃.trans (hranges₂.trans hranges₁)
      dsimp only
      rw [run_bind_of_run hrun₃]
      cases (c.context.narrowed p [] step).1.literal? with
      | none => exact ⟨c₃, rfl, hkeep, hranges⟩
      | some _ => exact ⟨c₃, rfl, hkeep, hranges⟩

/-- A loop that resolves is entered anew; one that does not keeps its entry. -/
lemma resolveLoop_ranges (hc : c.context.scans.Describes p) (loop : LoopId) :
    ((resolveLoop p loop).run c).2.context.ranges =
      (c.context.entered? p loop).elim c.context.ranges (c.context.ranges.insert loop ·) := by
  unfold resolveLoop entered?
  rcases hsimple : (p.loop? loop).bind LoopInfo.simpleSpan? with _ | span
  · have hsymbolic : p.Symbolic loop := hsimple
    rw [if_pos hsymbolic, currentRange?]
    dsimp only
    rw [run_bind_of_run (rfl : (get : StateM Checker Checker).run c = (c, c))]
    rcases c.context.loopBounds.get? loop with _ | bound
    · rfl
    · cases bound with
      | range start stop step =>
        obtain ⟨c₁, hrun, -, hranges⟩ :=
          literalRange_spec shares (c := { c with safe := true }) hc start stop step
        have hflag : (modify fun c => { c with safe := true } : StateM Checker PUnit).run c =
          (⟨⟩, { c with safe := true }) := rfl
        dsimp only at hranges ⊢
        rw [run_bind_of_run hflag, run_bind_of_run hrun, ← hranges]
        cases c.context.literalSpan? p start stop step with
        | none => rfl
        | some span => rfl
      | _ => rfl
  · have hknown : ¬p.Symbolic loop := by simp [Program.Symbolic, hsimple]
    rw [if_neg hknown]
    rfl

/-- Loops that resolve are entered anew, all others keep their entries. -/
lemma resolveEach_ranges (hc : c.context.scans.Describes p) (loops : List LoopId) (loop : LoopId) :
    ((loops.forM fun loop => do let _ ← resolveLoop p loop).run c).2.context.ranges.get? loop =
      if loop ∈ loops then (c.context.entered? p loop).or (c.context.ranges.get? loop)
      else c.context.ranges.get? loop := by
  -- no loop that is resolved changes what the loops after it resolve to
  induction loops generalizing c with
  | nil => rfl
  | cons first loops ih =>
    have hkeep := resolveLoop_stays (allows_keepsFaithful shares) first c hc
    have hrest := ih hkeep.scans
    rw [entered?_congr hkeep.basis, resolveLoop_ranges shares hc first] at hrest
    refine hrest.trans ?_
    by_cases heq : loop = first
    · subst heq
      cases c.context.entered? p loop with
      | none => simp
      | some span => simp
    · have hsame : ((c.context.entered? p first).elim c.context.ranges
          (c.context.ranges.insert first ·)).get? loop = c.context.ranges.get? loop := by
        cases c.context.entered? p first with
        | none => rfl
        | some span => simp [Ne.symm heq]
      rw [hsame]
      simp only [List.mem_cons, heq, false_or]

/-- Whatever the verdicts, a check of all targets leaves the ranges that its loops resolve to. -/
lemma checkAll_ranges (strict : Bool) (hc : c.context.scans.Describes p) (loop : LoopId) :
    ((checkAll p strict).run.run c).2.context.ranges.get? loop =
      if loop ∈ c.context.loops then (c.context.entered? p loop).or (c.context.ranges.get? loop)
      else c.context.ranges.get? loop := by
  have overlooks : Overlooks fun c : Checker => c.context.ranges :=
    ⟨fun _ _ => rfl, fun _ _ => rfl, fun _ _ => rfl⟩
  have htargets : Leaves (fun c : Checker => c.context.ranges) (fun _ => True) (do
      (← get).context.accesses.forM (checkAccess p strict)
      (← get).context.overflowChecks.forM (checkOperation p strict)) :=
    .bind .get fun _ => .bind
      (.forM fun t => (checkAccess_leaves overlooks (fun _ _ _ _ => rfl) t).weaken fun _ _ => trivial)
      fun _ => .bind .get fun _ => .forM fun t =>
        (checkOperation_leaves overlooks (fun _ _ _ _ => rfl) t).weaken fun _ _ => trivial
  rw [← resolveEach_ranges shares hc]
  unfold checkAll
  rw [run_bind_step, run_lift_step]
  exact congrArg (·.get? loop) (htargets ((resolveLoops p).run c).2).1

end

end Checker

namespace Context

variable {p : Program} {ctx ctx' : Context} {past : Constants → Prop}

/-- The cache is faithful, and every range held for a loop is what its bounds have come to under some
constants of the past. -/
structure Recalls (p : Program) (past : Constants → Prop) (ctx : Context) : Prop where
  scans : ctx.scans.Describes p
  ranges : ∀ loop span, ctx.ranges.get? loop = some span →
    ∃ constants, past constants ∧ { ctx with constants }.currentRange? p loop = some span

lemma Recalls.mono {past' : Constants → Prop} (h : ctx.Recalls p past)
    (himp : ∀ constants, past constants → past' constants) : ctx.Recalls p past' :=
  ⟨h.scans, fun loop span hspan => (h.ranges loop span hspan).imp fun _ => .imp_left (himp _)⟩

lemma basis_replace (h : ctx.basis = ctx'.basis) (constants : Constants) :
    ({ ctx with constants } : Context).basis = ({ ctx' with constants } : Context).basis := by
  rw [basis_eq_iff] at h ⊢
  exact ⟨h.1, rfl, h.2.2⟩

lemma currentRange?_of_entered? {loop : LoopId} {span : Span} (h : ctx.entered? p loop = some span) :
    ctx.currentRange? p loop = some span := by
  unfold entered? at h
  split at h
  · exact h
  · cases h

section

variable (shares : p.SharesContents)
include shares

/-- A check of all targets enters ranges under the constants at hand. -/
lemma Recalls.checkAll (h : ctx.Recalls p past) (hnow : past ctx.constants) {strict : Bool}
    (hnew : strict = false → ctx.accessVerdicts = ∅ ∧ ctx.overflowVerdicts = ∅) :
    ((checkAll p strict).run.run ctx).2.Recalls p past := by
  have hkeep : Checker.Keeps p { context := ctx }
      ((Checker.checkAll p strict).run.run { context := ctx }).2 := by
    cases strict with
    | false =>
      obtain ⟨haccess, hoverflow⟩ := hnew rfl
      obtain ⟨r, c', hrun, hkeep, -⟩ :=
        Checker.storeAll_run shares (c := { context := ctx }) h.scans haccess hoverflow
      exact hrun ▸ hkeep
    | true =>
      obtain ⟨r, c', hrun, hkeep, -⟩ :=
        Checker.compareAll_run shares (c := { context := ctx }) h.scans
      exact hrun ▸ hkeep.toKeeps
  have hranges := Checker.checkAll_ranges shares strict (c := { context := ctx }) h.scans
  rw [Session.checkAll_run]
  dsimp only
  generalize ((Checker.checkAll p strict).run.run { context := ctx }).2 = c' at hkeep hranges
  refine ⟨hkeep.scans, fun loop span hspan => ?_⟩
  suffices hold : ∃ constants, past constants ∧
      { ctx with constants }.currentRange? p loop = some span from
    hold.imp fun constants =>
      .imp_right (currentRange?_congr (basis_replace hkeep.basis constants) loop).trans
  rw [hranges] at hspan
  split at hspan
  · rcases Option.or_eq_some_iff.mp hspan with hentry | ⟨-, hold⟩
    · exact ⟨ctx.constants, hnow, currentRange?_of_entered? hentry⟩
    · exact h.ranges loop span hold
  · exact h.ranges loop span hspan

end

/-- A loop that a check of all targets cannot resolve holds the range that it held before. -/
lemma checkAll_refreshes (shares : p.SharesContents) (strict : Bool) {r : Except Error Unit}
    (h : (checkAll p strict).run.run ctx = (r, ctx')) (hscans : ctx.scans.Describes p)
    {loop : LoopId} (hloop : loop ∈ ctx'.loops) (hsymbolic : p.Symbolic loop) :
    ctx'.ranges.get? loop = (ctx'.currentRange? p loop).or (ctx.ranges.get? loop) := by
  have hranges := Checker.checkAll_ranges shares strict (c := { context := ctx }) hscans loop
  have hbasis := (Checker.checkAll_leaves (p := p) strict { context := ctx }).1
  rw [Session.checkAll_run] at h
  obtain ⟨-, rfl⟩ := Prod.mk.inj h
  obtain ⟨-, -, hloops, -⟩ := basis_eq_iff.mp hbasis
  rw [currentRange?_congr hbasis, hranges, if_pos (hloops ▸ hloop), entered?, if_pos hsymbolic]

/-- Every symbolic loop holds the range that its bounds come to under the constants at hand, or none
if they come to none. -/
def Fresh (p : Program) (ctx : Context) : Prop :=
  ∀ loop ∈ ctx.loops, p.Symbolic loop → ctx.ranges.get? loop = ctx.currentRange? p loop

end Context

namespace Session

open Context

variable {p : Program} {n : Nat} {s s' : Session} {past : Constants → Prop}
  {out : Except Error Unit × Session} {loop : LoopId}

lemma constants_of_reset_eq {ctx ctx' : Context} (h : ctx'.reset = ctx.reset) :
    ctx'.constants = ctx.constants := by
  have hconstants := congrArg Context.constants h
  exact hconstants

section

variable (shares : p.SharesContents)
include shares

/-- Preparation starts with no ranges, whatever comes of it. -/
lemma prepare_recalls (hnow : past s.context.constants) :
    (s.prepare p).2.context.Recalls p past := by
  unfold prepare onContext
  rw [rebuild_run]
  rcases hbuild : (buildAll p).run.run s.context.reset with ⟨r, built⟩
  have hframe := buildAll_frame hbuild
  have hempty : built.Recalls p past := by
    rw [hframe]
    exact ⟨ScanCache.describes_empty p, fun _ _ hspan => by cases hspan⟩
  cases r with
  | error e => exact hempty
  | ok u =>
    refine hempty.checkAll shares ?_ fun _ => ?_
    · rw [hframe]
      exact hnow
    · rw [hframe]
      exact ⟨rfl, rfl⟩

lemma recheck_recalls (hs : s.context.Recalls p past) (hnow : past s.context.constants) :
    (s.recheck p).2.context.Recalls p past :=
  hs.checkAll shares hnow (by simp)

lemma retry_recalls {s₁ s₂ : Session} {r : Except Error Unit} (hretry : s.toRebuild? p = some s₁)
    (hprepare : s₁.prepare p = (r, s₂)) (hnow : past s.context.constants) :
    s₂.context.Recalls p past ∧ past s₂.context.constants := by
  have hconstants := constants_of_reset_eq (toRebuild?_spec hretry).1
  have hconstants₂ := constants_of_reset_eq (retry_frame hretry hprepare).1
  have hrebuilt := prepare_recalls shares (s := s₁) (hconstants ▸ hnow)
  rw [hprepare] at hrebuilt
  exact ⟨hrebuilt, hconstants₂ ▸ hnow⟩

lemma Rounds.recalls (h : Rounds p n s out) (hs : s.context.Recalls p past)
    (hnow : past s.context.constants) : out.2.context.Recalls p past := by
  induction h with
  | done _ => exact recheck_recalls shares hs hnow
  | failed hretry hprepare => exact (retry_recalls shares hretry hprepare hnow).1
  | again hretry hprepare _ ih =>
    obtain ⟨hrebuilt, hnow'⟩ := retry_recalls shares hretry hprepare hnow
    exact ih hrebuilt hnow'

/-- No request forgets where a range comes from, not even one that fails. -/
lemma serve_recalls {request : Request} (hs : s.context.Recalls p past)
    (hnow : past (s.serve p request).2.context.constants) :
    (s.serve p request).2.context.Recalls p past := by
  cases request with
  | prepare =>
    have hconstants := constants_of_reset_eq (prepare_reset (p := p) s)
    exact prepare_recalls shares (hconstants ▸ hnow)
  | instantiate constants =>
    obtain ⟨n, hrounds⟩ := instantiate_rounds (p := p) constants s
    have hconstants := constants_of_reset_eq hrounds.reset
    exact hrounds.recalls shares ⟨hs.scans, hs.ranges⟩ (hconstants ▸ hnow)

end

/-- Constants that a session has had on its way through requests. -/
def Had (initial : Constants) (requests : List Request) (constants : Constants) : Prop :=
  ∃ earlier, earlier <+: requests ∧
    constants = Analyzer.merged initial (earlier.filterMap Request.constants?)

lemma after_snoc (requests : List Request) (request : Request) (s : Session) :
    s.after p (requests ++ [request]) = ((s.after p requests).serve p request).2 := by
  simp [after]

theorem after_recalls (shares : p.SharesContents) (root : Term) (config : Config)
    (initial : Constants) (requests : List Request) :
    ((new root config initial).after p requests).context.Recalls p (Had initial requests) := by
  induction requests using List.reverseRecOn with
  | nil => exact ⟨ScanCache.describes_empty p, fun _ _ hspan => by cases hspan⟩
  | append_singleton requests request ih =>
    have hconstants := congrArg Context.constants
      (after_reset (p := p) (requests ++ [request]) (new root config initial))
    rw [after_snoc] at hconstants ⊢
    refine serve_recalls shares (ih.mono ?_) ⟨_, List.prefix_rfl, hconstants⟩
    rintro constants ⟨earlier, hearlier, rfl⟩
    exact ⟨earlier, hearlier.trans (List.prefix_append _ _), rfl⟩

section

variable (shares : p.SharesContents)
include shares

lemma recheck_ranges (hs : s.context.scans.Describes p)
    (hloop : loop ∈ (s.recheck p).2.context.loops) (hsymbolic : p.Symbolic loop) :
    (s.recheck p).2.context.ranges.get? loop =
      ((s.recheck p).2.context.currentRange? p loop).or (s.context.ranges.get? loop) :=
  checkAll_refreshes shares true rfl hs hloop hsymbolic

lemma prepare_fresh (h : s.prepare p = (.ok (), s')) : s'.context.Fresh p := by
  rw [prepare, onContext, rebuild_run] at h
  rcases hbuild : (buildAll p).run.run s.context.reset with ⟨e | _, built⟩ <;> rw [hbuild] at h
  · cases h
  · rcases hcheck : (Context.checkAll p false).run.run built with ⟨r, ctx'⟩
    dsimp only at h
    rw [hcheck] at h
    cases h
    intro loop hloop hsymbolic
    have hframe := buildAll_frame hbuild
    have hscans : built.scans.Describes p := by
      rw [hframe]
      exact ScanCache.describes_empty p
    have hnone : built.ranges.get? loop = none := by
      rw [hframe]
      rfl
    rw [checkAll_refreshes shares false hcheck hscans hloop hsymbolic, hnone, Option.or_none]

lemma recheck_fresh (hs : s.context.scans.Describes p) (hfresh : s.context.Fresh p) :
    (s.recheck p).2.context.Fresh p := by
  intro loop hloop hsymbolic
  have hbasis := (Checker.checkAll_leaves (p := p) true { context := s.context }).1
  obtain ⟨-, -, hloops, -⟩ := basis_eq_iff.mp hbasis
  have hheld : s.context.ranges.get? loop = (s.recheck p).2.context.currentRange? p loop :=
    (hfresh loop (hloops ▸ hloop) hsymbolic).trans (currentRange?_congr hbasis loop).symm
  rw [recheck_ranges shares hs hloop hsymbolic, hheld, Option.or_self]

lemma Rounds.fresh (h : Rounds p n s out) (hout : out.1 = .ok ()) (hs : s.context.scans.Describes p)
    (hfresh : 0 < n ∨ s.context.Fresh p) : out.2.context.Fresh p := by
  induction h with
  | done _ => exact recheck_fresh shares hs (hfresh.resolve_left (Nat.lt_irrefl 0))
  | failed _ _ => cases hout
  | again hretry hprepare _ ih =>
    have hrebuilt := (prepare_ok shares hprepare).1
    exact ih hout hrebuilt.scans (.inr (prepare_fresh shares hprepare))

end

lemma Rounds.eq_recheck (h : Rounds p 0 s out) : out = s.recheck p := by
  cases h with
  | done _ => rfl

/-- An instantiation that rebuilds enters all ranges anew. One that does not leaves the range that a loop
held, unless it finds a new one. -/
lemma instantiate_ranges (shares : p.SharesContents) (hs : s.context.scans.Describes p)
    {constants : Constants} (h : s.instantiate p constants = (.ok (), s'))
    (hloop : loop ∈ s'.context.loops) (hsymbolic : p.Symbolic loop) :
    s.retries < s'.retries ∧ s'.context.ranges.get? loop = s'.context.currentRange? p loop ∨
      s'.retries = s.retries ∧ s'.context.ranges.get? loop =
        (s'.context.currentRange? p loop).or (s.context.ranges.get? loop) := by
  obtain ⟨n, hrounds⟩ := instantiate_rounds (p := p) constants s
  rw [h] at hrounds
  have hretries : s'.retries = s.retries + n := hrounds.retries
  rcases Nat.eq_zero_or_pos n with rfl | hpos
  · obtain rfl : s' = ((s.withConstants constants).recheck p).2 :=
      congrArg Prod.snd hrounds.eq_recheck
    exact .inr ⟨hretries, recheck_ranges shares (s := s.withConstants constants) hs hloop hsymbolic⟩
  · have hfresh := hrounds.fresh shares rfl hs (.inl hpos)
    exact .inl ⟨by omega, hfresh loop hloop hsymbolic⟩

/-- Whatever requests a session has served, a range that it holds for a symbolic loop is one that the
loop has had under its constants so far. It is the current one, or rightly missing, unless the loop
held a range, the new constants leave it without one, and nothing made the session rebuild. -/
theorem held_range_current_iff (shares : p.SharesContents) {root : Term} {config : Config}
    {initial : Constants} {requests : List Request} {request : Request}
    (hs : (new root config initial).after p requests = s)
    (h : s.serve p request = (.ok (), s')) (hloop : loop ∈ s'.context.loops)
    (hsymbolic : p.Symbolic loop) :
    s'.context.resolvedRange p loop = s'.context.ranges.get? loop ∧
    (∀ span, s'.context.ranges.get? loop = some span → ∃ constants,
      Had initial (requests ++ [request]) constants ∧
      { s'.context with constants }.currentRange? p loop = some span) ∧
    (s'.context.ranges.get? loop = s'.context.currentRange? p loop ↔
      (s'.context.currentRange? p loop).isSome ∨ request = .prepare ∨ s.retries < s'.retries ∨
        s.context.ranges.get? loop = none) := by
  have hbefore := after_recalls shares root config initial requests
  have hafter := after_recalls shares root config initial (requests ++ [request])
  rw [after_snoc, hs, h] at hafter
  rw [hs] at hbefore
  refine ⟨resolvedRange_of_symbolic hsymbolic, hafter.ranges loop, ?_⟩
  cases request with
  | prepare =>
    have hfresh := prepare_fresh shares h loop hloop hsymbolic
    exact iff_of_true hfresh (.inr (.inl rfl))
  | instantiate constants =>
    rcases instantiate_ranges shares hbefore.scans h hloop hsymbolic with
      ⟨hrebuilt, hfresh⟩ | ⟨hretries, hheld⟩
    · exact iff_of_true hfresh (.inr (.inr (.inl hrebuilt)))
    · rw [hheld]
      cases s'.context.currentRange? p loop with
      | none => simp [hretries]
      | some span => simp

end Session

/-! An outer loop up to `n` and an inner loop from its variable up to eight. With `n` at one the outer
variable is zero, so the inner range is resolved; with `n` at five it is not, but no verdict changes. -/
namespace Growing

def outerIndex : Term := ⟨⟨0⟩, .var "i" .int none⟩
def innerIndex : Term := ⟨⟨1⟩, .var "j" .int none⟩
def count : Term := ⟨⟨2⟩, .var "n" .int none⟩
def cell : Term := ⟨⟨3⟩, .access ⟨0⟩ [innerIndex]⟩
def inner : Term := ⟨⟨4⟩, .forLoop ⟨1⟩ cell⟩
def outer : Term := ⟨⟨5⟩, .forLoop ⟨0⟩ inner⟩

def program : Program where
  terms := #[outerIndex, innerIndex, count, cell, inner, outer]
  loops := #[⟨"i", .int, .symbolic none (some ⟨2⟩) none ⟨0, 0, 1⟩⟩,
    ⟨"j", .int, .symbolic (some ⟨0⟩) none none ⟨0, 8, 1⟩⟩]
  arrays := #[⟨"A", ⟨.intArray, [10]⟩, none, false⟩]

def values (n : Int64) : Constants := .ofList [("n", n)]

/-- The session after requests, made with `n` at one. -/
def session (requests : List Request) : Session :=
  (Session.new outer {} (values 1)).after program requests

lemma serve_session {requests : List Request} {request : Request}
    (h : ((session requests).serve program request).1 = .ok ()) :
    (session requests).serve program request = (.ok (), session (requests ++ [request])) :=
  Prod.ext h (Session.after_snoc requests request _).symm

def grow : Request := .instantiate (values 5)

/-- The outer loop follows `n`, and a preparation drops the inner range that was left over. -/
theorem ranges_follow_constants :
    (∃ s', (session [.prepare]).serve program grow = (.ok (), s') ∧
      s'.context.ranges.get? ⟨0⟩ = some ⟨0, 5, 1⟩ ∧
      s'.context.ranges.get? ⟨0⟩ = s'.context.currentRange? program ⟨0⟩) ∧
    ∃ s', (session [.prepare, grow]).serve program .prepare = (.ok (), s') ∧
      s'.context.ranges.get? ⟨1⟩ = none ∧
      s'.context.ranges.get? ⟨1⟩ = s'.context.currentRange? program ⟨1⟩ := by
  have shares : program.SharesContents := by decide
  have hgrow : (session [.prepare]).serve program grow = (.ok (), session [.prepare, grow]) :=
    serve_session (by decide +kernel)
  have hagain : (session [.prepare, grow]).serve program .prepare =
      (.ok (), session [.prepare, grow, .prepare]) := serve_session (by decide +kernel)
  have houterLoop : ⟨0⟩ ∈ (session [.prepare, grow]).context.loops := by decide +kernel
  have hinnerLoop : ⟨1⟩ ∈ (session [.prepare, grow, .prepare]).context.loops := by decide +kernel
  obtain ⟨-, -, houter⟩ :=
    Session.held_range_current_iff shares rfl hgrow houterLoop (by decide +kernel)
  obtain ⟨-, -, hinner⟩ :=
    Session.held_range_current_iff shares rfl hagain hinnerLoop (by decide +kernel)
  exact ⟨⟨_, hgrow, by decide +kernel, houter.mpr (.inl (by decide +kernel))⟩,
    ⟨_, hagain, by decide +kernel, hinner.mpr (.inr (.inl rfl))⟩⟩

/-- The start of the inner loop is no literal any more, and yet its old range is held. -/
theorem inner_range_stale :
    (session [.prepare]).serve program grow = (.ok (), session [.prepare, grow]) ∧
    ⟨1⟩ ∈ (session [.prepare, grow]).context.loops ∧ program.Symbolic ⟨1⟩ ∧
    (session [.prepare, grow]).context.currentRange? program ⟨1⟩ = none ∧
    (session [.prepare, grow]).context.ranges.get? ⟨1⟩ = some ⟨0, 8, 1⟩ ∧
    (session [.prepare, grow]).context.resolvedRange program ⟨1⟩ = some ⟨0, 8, 1⟩ :=
  ⟨serve_session (by decide +kernel), by decide +kernel, by decide +kernel, by decide +kernel,
    by decide +kernel, by decide +kernel⟩

end Growing

end LoopSafety
