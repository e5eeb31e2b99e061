import Mathlib.Data.List.Find
import LoopSafety.Proofs.Histories
import LoopSafety.Proofs.Lookups
import LoopSafety.Proofs.Scoping

/-! Sessions on closed programs.

Targets, loops, stored bounds and cached contents of a session lie within its program, whatever it has
been asked for. So narrowing and checking look up nothing past the end of a table, and do the same on
every continuation of the program. -/
namespace LoopSafety

namespace Bound

lemma mem_arraysOf {id : ArrayId} {bs : List Bound} :
    id ∈ arraysOf bs ↔ ∃ b ∈ bs, id ∈ b.arrays := by
  induction bs with
  | nil => simp [arraysOf]
  | cons b bs ih => simp [arraysOf, ih]

lemma mem_paramArrays {id : ArrayId} {bs : List (String × Bound)} :
    id ∈ paramArrays bs ↔ ∃ b ∈ bs, id ∈ b.2.arrays := by
  induction bs with
  | nil => simp [paramArrays]
  | cons b bs ih => simp [paramArrays, ih]

lemma Within.arrays {p : Program} {b : Bound} (h : b.Within p) :
    ∀ id ∈ b.arrays, (p.array? id).isSome := by
  induction h with
  | literal | var | fail => simp [Bound.arrays]
  | limit _ _ ih₁ ih₂ | either _ _ ih₁ ih₂ | binary _ _ ih₁ ih₂ | builtin _ _ ih₁ ih₂ =>
    rw [Bound.arrays]
    exact List.forall_mem_append.mpr ⟨ih₁, ih₂⟩
  | range _ _ _ ih₁ ih₂ ih₃ =>
    rw [Bound.arrays]
    exact List.forall_mem_append.mpr ⟨List.forall_mem_append.mpr ⟨ih₁, ih₂⟩, ih₃⟩
  | math _ _ ih =>
    intro id hid
    obtain ⟨b, hb, hid⟩ := mem_arraysOf.mp hid
    exact ih b hb id hid
  | call _ _ _ _ ihparams ihret =>
    rw [Bound.arrays]
    refine List.forall_mem_append.mpr ⟨fun id hid => ?_, ihret⟩
    obtain ⟨b, hb, hid⟩ := mem_paramArrays.mp hid
    exact ihparams b hb id hid
  | array known => simp [Bound.arrays, known]

end Bound

/-- Every entry of a cache belongs to the storage of an array of a program. -/
def ScanCache.Within (p : Program) (c : ScanCache) : Prop :=
  ∀ i found, c.entries.get? i = some found → ∃ b ∈ p.arrays, b.identity? = some i

namespace Context

/-- All loops, targets and bounds of a context lie within a program, and what it has cached are the
contents of arrays of the program. -/
structure Closed (p : Program) (ctx : Context) : Prop where
  loops : ∀ loop ∈ ctx.loops, (p.loop? loop).isSome
  accesses : ∀ o ∈ ctx.accesses, o.Within p
  overflowChecks : ∀ o ∈ ctx.overflowChecks, o.Within p
  loopBounds : ∀ loop b, ctx.loopBounds.get? loop = some b → b.Within p
  accessBounds : ∀ node bs, ctx.accessBounds.get? node = some bs → ∀ b ∈ bs, b.Within p
  overflowBounds : ∀ node b, ctx.overflowBounds.get? node = some b → b.Within p
  scans : ctx.scans.Within p
  contents : ctx.scans.Describes p

lemma Closed.reset {p : Program} {ctx : Context} (h : ctx.Closed p) : ctx.reset.Closed p :=
  ⟨h.loops, h.accesses, h.overflowChecks, by simp [Context.reset], by simp [Context.reset],
    by simp [Context.reset], by simp [Context.reset, ScanCache.Within], ScanCache.describes_empty p⟩

end Context

lemma Occurrence.Within.loop {p : Program} {o : Occurrence} (h : o.Within p) {loop : LoopId}
    (hloop : o.loop? = some loop) : (p.loop? loop).isSome := by
  obtain ⟨⟨id, node⟩, loops⟩ := o
  cases node with
  | forLoop loop' body =>
    cases hloop
    exact h.1.loop
  | _ => cases hloop

namespace Context

lemma register_closed {p : Program} {root : Term} (hroot : root.Within p) (config : Config)
    (constants : Constants) : (({ config, constants } : Context).register root).Closed p := by
  have hall : ∀ o ∈ root.occurrences [], o.Within p := hroot.occurrences (by simp)
  refine ⟨fun loop hloop => ?_, fun o ho => ?_, fun o ho => ?_, by simp [register],
    by simp [register], by simp [register], by simp [register, ScanCache.Within],
    ScanCache.describes_empty p⟩
  · obtain ⟨o, ho, hloop⟩ := List.mem_filterMap.mp hloop
    exact (hall o ho).loop hloop
  · exact hall o (List.mem_of_mem_filter ho)
  · exact hall o (List.mem_of_mem_filter ho)

end Context

namespace Evaluation

variable {p q : Program} (hcont : p.Continues q) {ctx : Context} (hctx : ctx.Closed p)
include hcont

lemma rangeParts_eq {loop : LoopId} (hloop : (p.loop? loop).isSome) :
    rangeParts q ctx loop = rangeParts p ctx loop := by
  rw [rangeParts, rangeParts, hcont.loop?_eq hloop]

lemma loopType_eq {loop : LoopId} (hloop : (p.loop? loop).isSome) :
    loopType q loop = loopType p loop := by
  rw [loopType, loopType, hcont.loop?_eq hloop]

lemma arrayContents_eq {id : ArrayId} (hid : (p.array? id).isSome) (ty : DataType) :
    arrayContents q ctx id ty = arrayContents p ctx id ty := by
  rw [arrayContents, arrayContents, hcont.array?_eq hid]

include hctx

omit hcont in
lemma loops_known {frame : Frame} (hframe : ∀ loop ∈ frame.loops, (p.loop? loop).isSome) :
    ∀ loop ∈ frame.loops.reverse ++ ctx.loops.reverse, (p.loop? loop).isSome := by
  intro loop hloop
  rw [List.mem_append, List.mem_reverse, List.mem_reverse] at hloop
  exact hloop.elim (hframe loop) (hctx.loops loop)

lemma resolve_eq {ind ind' : Frame → LoopId → Probing Bound} {frame : Frame}
    (hframe : ∀ loop ∈ frame.loops, (p.loop? loop).isSome)
    (hind : ∀ loop, (p.loop? loop).isSome → ind frame loop = ind' frame loop) (name : String)
    (ty : DataType) : resolve p ctx ind frame name ty = resolve q ctx ind' frame name ty := by
  have hknown := loops_known hctx hframe
  have hloopOf : loopOf? q ctx frame name = loopOf? p ctx frame name :=
    List.find?_congr fun loop hloop => by rw [hcont.loop?_eq (hknown loop hloop)]
  unfold resolve
  rw [hloopOf]
  cases hloop : loopOf? p ctx frame name with
  | none => rfl
  | some loop => simp only [hind loop (hknown loop (List.mem_of_find?_eq_some hloop))]

omit hcont in
lemma rangeParts_within {loop : LoopId} {start stop step : Bound}
    (h : rangeParts p ctx loop = some (start, stop, step)) :
    start.Within p ∧ stop.Within p ∧ step.Within p := by
  unfold rangeParts at h
  split at h
  · next hbound =>
    cases h
    cases hctx.loopBounds loop _ hbound with
    | range hstart hstop hstep => exact ⟨hstart, hstop, hstep⟩
  · obtain ⟨info, -, h⟩ := Option.bind_eq_some_iff.mp h
    obtain ⟨span, -, h⟩ := Option.bind_eq_some_iff.mp h
    cases h
    exact ⟨.literal, .literal, .literal⟩

/-- In frames whose loops are in the table, narrowing looks up what is in the tables if the bounds of
loop variables do. -/
lemma narrow_eq {ind ind' : Frame → LoopId → Probing Bound}
    (hind : ∀ frame, (∀ loop ∈ frame.loops, (p.loop? loop).isSome) →
      ∀ loop, (p.loop? loop).isSome → ind frame loop = ind' frame loop)
    {frame : Frame} (hframe : ∀ loop ∈ frame.loops, (p.loop? loop).isSome) {b : Bound}
    (hb : b.Within p) : narrow p ctx ind frame b = narrow q ctx ind' frame b := by
  have hagree : Agreement p q ctx ctx ind ind'
      (fun _ frame frame' => frame' = frame ∧ ∀ loop ∈ frame.loops, (p.loop? loop).isSome)
      fun id => (p.array? id).isSome := by
    refine ⟨?_, ?_, fun id ty hid => (arrayContents_eq hcont hid ty).symm⟩
    · rintro _ _ frame ⟨rfl, hframe⟩ name ty -
      exact resolve_eq hcont hctx hframe (hind frame hframe) name ty
    · rintro _ _ frame ⟨rfl, hframe⟩ scope - -
      exact ⟨rfl, hframe⟩
  exact narrow_agrees hagree b ⟨rfl, hframe⟩ (fun _ _ (h : False) => h) hb.arrays

lemma inductionBound_eq (depth : Nat) {frame : Frame}
    (hframe : ∀ loop ∈ frame.loops, (p.loop? loop).isSome) {loop : LoopId}
    (hloop : (p.loop? loop).isSome) :
    inductionBound p ctx depth frame loop = inductionBound q ctx depth frame loop := by
  induction depth generalizing frame loop with
  | zero => rfl
  | succ depth ih =>
    rw [inductionBound, inductionBound, rangeParts_eq hcont hloop, loopType_eq hcont hloop]
    cases hparts : rangeParts p ctx loop with
    | none => rfl
    | some parts =>
      obtain ⟨start, stop, step⟩ := parts
      obtain ⟨hstart, hstop, hstep⟩ := rangeParts_within hctx hparts
      have hinner : ∀ l ∈ Frame.loops { frame with resolving := loop :: frame.resolving },
          (p.loop? l).isSome := hframe
      have hpart := fun {b : Bound} (hb : b.Within p) =>
        narrow_eq hcont hctx (fun _ hframe' _ hloop' => ih hframe' hloop') hinner hb
      simp only [hpart hstart, hpart hstop, hpart hstep]

end Evaluation

namespace Context

open Evaluation in
theorem evaluate_eq {p q : Program} (hcont : p.Continues q) {ctx : Context} (hctx : ctx.Closed p)
    {frame : Frame} (hframe : ∀ loop ∈ frame.loops, (p.loop? loop).isSome) {b : Bound}
    (hb : b.Within p) : ctx.evaluate q frame b = ctx.evaluate p frame b :=
  (narrow_eq hcont hctx (fun _ hframe' _ hloop => inductionBound_eq hcont hctx _ hframe' hloop) hframe
    hb).symm

end Context

namespace Program

/-- The program with one more array that has a storage of its own and no contents. -/
def withEmpty (p : Program) (i : Nat) : Program :=
  { p with arrays := p.arrays.push ⟨"", ⟨.intArray, []⟩, some ⟨i, []⟩, false⟩ }

variable {p : Program} {i : Nat} (fresh : ∀ b ∈ p.arrays, b.identity? ≠ some i)
include fresh

lemma continues_withEmpty : p.Continues (p.withEmpty i) := by
  refine ⟨rfl, List.prefix_refl _, List.prefix_refl _, _, Array.toList_push, ?_⟩
  intro b hb b' hb' j hj hj'
  cases List.mem_singleton.mp hb'
  cases hj'
  exact fresh b hb hj

lemma sharesContents_withEmpty (shares : p.SharesContents) : (p.withEmpty i).SharesContents := by
  intro b hb b' hb' s s' hs hs' hid
  rw [withEmpty, Array.mem_push] at hb hb'
  have hidentity : ∀ {b : Binding} {s : Storage}, b.storage = some s → b.identity? = some s.identity :=
    fun h => by rw [Binding.identity?, h]; rfl
  rcases hb with hb | rfl <;> rcases hb' with hb' | rfl
  · exact shares b hb b' hb' s s' hs hs' hid
  · cases hs'
    exact absurd ((hidentity hs).trans (congrArg some hid)) (fresh b hb)
  · cases hs
    exact absurd ((hidentity hs').trans (congrArg some hid.symm)) (fresh b' hb')
  · cases hs
    cases hs'
    rfl

omit fresh in
/-- Only an unread storage is described as one without contents. -/
lemma describes_withEmpty_iff {c : ScanCache} :
    c.Describes (p.withEmpty i) ↔ c.Describes p ∧ c.entries.get? i = none := by
  constructor
  · intro h
    refine ⟨fun b hb => h b (Array.mem_push.mpr (.inl hb)), ?_⟩
    refine Option.eq_none_iff_forall_not_mem.mpr fun found hfound => ?_
    obtain ⟨u, hu⟩ := h _ (Array.mem_push.mpr (.inr rfl)) _ rfl found hfound
    cases hu
  · rintro ⟨h, hnone⟩ b hb s hs found hfound
    rcases Array.mem_push.mp hb with hb | rfl
    · exact h b hb s hs found hfound
    · cases hs
      cases hnone.symm.trans hfound

end Program

namespace Context

variable {p : Program} {ctx : Context}

/-- Narrowing caches contents of the program's arrays and nothing else: to a storage that is not among
theirs, an array without contents could be added. -/
lemma evaluate_scans (shares : p.SharesContents) (hctx : ctx.Closed p) {frame : Frame}
    (hframe : ∀ loop ∈ frame.loops, (p.loop? loop).isSome) {b : Bound} (hb : b.Within p) (safe : Bool) :
    (((ctx.evaluate p frame b).run ⟨safe, ctx.scans⟩).2.scans).Within p ∧
      (((ctx.evaluate p frame b).run ⟨safe, ctx.scans⟩).2.scans).Describes p := by
  constructor
  · intro i found hfound
    by_contra hnone
    have fresh : ∀ b ∈ p.arrays, b.identity? ≠ some i := fun b hb hid => hnone ⟨b, hb, hid⟩
    -- in the program with an empty array of this storage the same is narrowed, and from a faithful
    -- cache to a faithful cache; no scan of that array would give an entry
    have hunread : ctx.scans.entries.get? i = none :=
      Option.eq_none_iff_forall_not_mem.mpr fun found hfound => hnone (hctx.scans i found hfound)
    obtain ⟨scans, hscans, hrun⟩ :=
      (ctx.evaluate_steady (Program.sharesContents_withEmpty fresh shares) frame b).run_eq safe
        (Program.describes_withEmpty_iff.mpr ⟨hctx.contents, hunread⟩)
    rw [evaluate_eq (Program.continues_withEmpty fresh) hctx hframe hb] at hrun
    rw [hrun] at hfound
    cases (Program.describes_withEmpty_iff.mp hscans).2.symm.trans hfound
  · obtain ⟨scans, hscans, hrun⟩ := (ctx.evaluate_steady shares frame b).run_eq safe hctx.contents
    rw [hrun]
    exact hscans

lemma Closed.withScans (h : ctx.Closed p) {scans : ScanCache} (hwithin : scans.Within p)
    (hcontents : scans.Describes p) : Closed p { ctx with scans } :=
  ⟨h.loops, h.accesses, h.overflowChecks, h.loopBounds, h.accessBounds, h.overflowBounds, hwithin,
    hcontents⟩

/-- What checks find out about targets is no handle. -/
lemma Closed.withFindings (h : ctx.Closed p) (ranges : Table LoopId Span)
    (accessVerdicts : Table NodeId (List Bool)) (overflowVerdicts : Table NodeId Bool)
    (minimum : Int64) :
    Closed p { ctx with ranges, accessVerdicts, overflowVerdicts, minimum } :=
  ⟨h.loops, h.accesses, h.overflowChecks, h.loopBounds, h.accessBounds, h.overflowBounds, h.scans,
    h.contents⟩

end Context

namespace Checker

/-- The context at hand lies within a program. -/
def Closed (p : Program) (c : Checker) : Prop := c.context.Closed p

variable {p q : Program} (hcont : p.Continues q) (shares : p.SharesContents)
include hcont shares

lemma evaluate_follows {frame : Frame} (hframe : ∀ loop ∈ frame.loops, (p.loop? loop).isSome)
    {b : Bound} (hb : b.Within p) :
    Follows (Closed p) (fun _ => True) (evaluate p frame b) (evaluate q frame b) := by
  intro c hc
  obtain ⟨hwithin, hcontents⟩ := Context.evaluate_scans shares hc hframe hb c.safe
  rw [evaluate_run, evaluate_run, Context.evaluate_eq hcont hc hframe hb]
  exact ⟨rfl, Context.Closed.withScans hc hwithin hcontents, trivial⟩

lemma check_follows {loops : List LoopId} (hloops : ∀ loop ∈ loops, (p.loop? loop).isSome) {b : Bound}
    (hb : b.Within p) : Follows (Closed p) (fun _ => True) (check p loops b) (check q loops b) :=
  .bind (.update fun _ hc => hc) fun _ _ => evaluate_follows hcont shares hloops hb

lemma literalRange_follows {start stop step : Bound} (hstart : start.Within p) (hstop : stop.Within p)
    (hstep : step.Within p) :
    Follows (Closed p) (fun _ => True) (literalRange p start stop step)
      (literalRange q start stop step) := by
  have houter : ∀ loop ∈ Frame.loops {}, (p.loop? loop).isSome := by simp
  unfold literalRange
  refine .bind (evaluate_follows hcont shares houter hstart) fun _ _ => ?_
  split
  · exact .pure trivial
  · refine .bind (evaluate_follows hcont shares houter hstop) fun _ _ => ?_
    split
    · exact .pure trivial
    · refine .bind (evaluate_follows hcont shares houter hstep) fun _ _ => ?_
      split
      · exact .pure trivial
      · exact .pure trivial

lemma resolveLoop_follows {loop : LoopId} (hloop : (p.loop? loop).isSome) :
    Follows (Closed p) (fun _ => True) (resolveLoop p loop) (resolveLoop q loop) := by
  unfold resolveLoop
  rw [hcont.loop?_eq hloop]
  split
  · exact .pure trivial
  · refine .bind .get fun c hc => ?_
    split
    · next hbound =>
      cases Context.Closed.loopBounds hc loop _ hbound with
      | range hstart hstop hstep =>
        refine .bind (.update fun _ hc => hc) fun _ _ =>
          .bind (literalRange_follows hcont shares hstart hstop hstep) fun _ _ => ?_
        split
        · exact .pure trivial
        · exact .bind (.update fun _ hc => Context.Closed.withFindings hc _ _ _ _) fun _ _ =>
            .pure trivial
    · exact .pure trivial

lemma resolveLoops_follows :
    Follows (Closed p) (fun _ => True) (resolveLoops p) (resolveLoops q) :=
  .bind .get fun _ hc => .forM fun loop hloop =>
    .bind (resolveLoop_follows hcont shares (hc.loops loop hloop)) fun _ _ => .pure trivial

omit hcont shares in
lemma noteIndex_closed {c : Checker} (hc : c.Closed p) (b : Bound) : (noteIndex b c).Closed p := by
  unfold noteIndex
  split
  · split
    · exact Context.Closed.withFindings hc _ _ _ _
    · exact hc
  · exact hc

lemma indexNeedsCheck_follows {loops : List LoopId} (hloops : ∀ loop ∈ loops, (p.loop? loop).isSome)
    {bound : Option Bound} (hbound : ∀ b ∈ bound, b.Within p) (size : Int64) :
    Follows (Closed p) (fun _ => True) (indexNeedsCheck p loops bound size)
      (indexNeedsCheck q loops bound size) := by
  unfold indexNeedsCheck
  refine .bind .get fun _ _ => ?_
  split
  · refine .bind (check_follows hcont shares hloops (hbound _ rfl)) fun _ _ => ?_
    exact .bind (.update fun _ hc => noteIndex_closed hc _) fun _ _ => .bind .get fun _ _ =>
      .pure trivial
  · exact .pure trivial

lemma accessVerdict_follows {loops : List LoopId} (hloops : ∀ loop ∈ loops, (p.loop? loop).isSome)
    (sizes : List Int64) {bounds : List (Option Bound)}
    (hbounds : ∀ bound ∈ bounds, ∀ b ∈ bound, b.Within p) :
    Follows (Closed p) (fun _ => True) (accessVerdict p loops sizes bounds)
      (accessVerdict q loops sizes bounds) := by
  induction sizes generalizing bounds with
  | nil => exact .pure trivial
  | cons size sizes ih =>
    cases bounds with
    | nil => exact .pure trivial
    | cons bound bounds =>
      obtain ⟨hbound, hbounds⟩ := List.forall_mem_cons.mp hbounds
      exact .bind (indexNeedsCheck_follows hcont shares hloops hbound size) fun _ _ =>
        .bind (ih hbounds) fun _ _ => .pure trivial

lemma operationNeedsCheck_follows {target : Occurrence} (htarget : target.Within p) :
    Follows (Closed p) (fun _ => True) (operationNeedsCheck p target)
      (operationNeedsCheck q target) := by
  unfold operationNeedsCheck
  rw [hcont.typeOf_eq htarget.1]
  refine .bind .get fun c hc => ?_
  dsimp only
  split
  · exact .pure trivial
  · next hbound =>
    refine .bind (check_follows hcont shares htarget.2 (hc.overflowBounds _ _ hbound)) fun _ _ => ?_
    exact .bind .get fun _ _ => .pure trivial
  · exact .pure trivial

lemma checkAccess_tracks (strict : Bool) {target : Occurrence} (htarget : target.Within p) :
    Tracks (Closed p) (fun _ => True) (checkAccess p strict target) (checkAccess q strict target) := by
  obtain ⟨⟨id, node⟩, loops⟩ := target
  cases node with
  | access array indices =>
    obtain ⟨binding, hbinding⟩ := Option.isSome_iff_exists.mp htarget.1.array
    simp only [checkAccess, Term.node, hcont.array?_eq htarget.1.array, hbinding,
      hcont.describe_eq htarget.1]
    split
    · exact .bind (.throw (by simp)) fun _ (h : False) => h.elim
    · refine .bind .get fun c hc => ?_
      have hbounds : ∀ bound ∈ (List.range binding.shape.dimensions.length).map
          fun d => ((c.context.accessBounds.get? id).getD [])[d]?, ∀ b ∈ bound, b.Within p := by
        intro bound hbound b hb
        obtain ⟨d, -, rfl⟩ := List.mem_map.mp hbound
        cases hstored : c.context.accessBounds.get? id with
        | none => simp [hstored] at hb
        | some bs =>
          rw [hstored] at hb
          exact hc.accessBounds id bs hstored b (List.mem_of_getElem? hb)
      refine .bind (.lift (accessVerdict_follows hcont shares htarget.2 _ hbounds)) fun _ _ => ?_
      split
      · refine .bind .get fun _ _ => ?_
        split
        · split
          · exact .throw (by simp)
          · exact .pure trivial
        · exact .pure trivial
      · exact .update fun _ hc => Context.Closed.withFindings hc _ _ _ _
  | _ => exact .pure trivial

lemma checkOperation_tracks (strict : Bool) {target : Occurrence} (htarget : target.Within p) :
    Tracks (Closed p) (fun _ => True) (checkOperation p strict target)
      (checkOperation q strict target) := by
  unfold checkOperation
  refine .bind (.lift (operationNeedsCheck_follows hcont shares htarget)) fun _ _ => ?_
  split
  · refine .bind .get fun _ _ => ?_
    split
    · exact .throw (by simp)
    · exact .pure trivial
  · exact .update fun _ hc => Context.Closed.withFindings hc _ _ _ _

theorem checkAll_tracks (strict : Bool) :
    Tracks (Closed p) (fun _ => True) (checkAll p strict) (checkAll q strict) :=
  .bind (.lift (resolveLoops_follows hcont shares)) fun _ _ =>
    .bind .get fun _ hc =>
      .bind (.forM fun o ho => checkAccess_tracks hcont shares strict (hc.accesses o ho)) fun _ _ =>
        .bind .get fun _ hc =>
          .forM fun o ho => checkOperation_tracks hcont shares strict (hc.overflowChecks o ho)

end Checker

namespace Context

variable {p q : Program} (hcont : p.Continues q)
include hcont

omit hcont in
lemma building_tracks {α : Type} {post : α → Prop} {step step' : Building α}
    (h : Tracks (Memo.Within p) post step step') {memo : Memo} (hmemo : memo.Within p) :
    Tracks (Closed p) (fun out => post out.1 ∧ out.2.Within p) (building step memo)
      (building step' memo) := by
  obtain ⟨hrun, hinv, hpost⟩ := h memo hmemo
  have hsame : (step'.run memo).run = (step.run memo).run := hrun
  unfold building
  rw [hsame]
  rcases hstep : (step.run memo).run with ⟨r, memo'⟩
  have hstep' : step.run.run memo = (r, memo') := hstep
  rw [hstep'] at hinv hpost
  cases hpost with
  | ok ha => exact .pure ⟨ha, hinv⟩
  | error he => exact .throw he

section

variable (closed : p.Closed)
include closed

lemma buildLoops_tracks {loops : List LoopId} (hloops : ∀ loop ∈ loops, (p.loop? loop).isSome)
    {memo : Memo} (hmemo : memo.Within p) :
    Tracks (Closed p) (Memo.Within p) (buildLoops p loops memo) (buildLoops q loops memo) := by
  induction loops generalizing memo with
  | nil => exact .pure hmemo
  | cons loop loops ih =>
    obtain ⟨hloop, hloops⟩ := List.forall_mem_cons.mp hloops
    refine .bind (building_tracks (p.buildRange_tracks hcont closed hloop) hmemo) fun out hout => ?_
    refine .bind (.update fun ctx hctx => ?_) fun _ _ => ih hloops hout.2
    exact { hctx with loopBounds := Table.forall_insert hctx.loopBounds hout.1 }

lemma mapM_build_tracks {ts : List Term} (hts : ∀ t ∈ ts, t.Within p) :
    Tracks (Memo.Within p) (fun bs => ∀ b ∈ bs, b.Within p) (ts.mapM p.build) (ts.mapM q.build) := by
  induction ts with
  | nil => exact .pure (by simp)
  | cons t ts ih =>
    obtain ⟨ht, hts⟩ := List.forall_mem_cons.mp hts
    rw [List.mapM_cons, List.mapM_cons]
    exact .bind (p.build_tracks hcont closed ht) fun _ hb => .bind (ih hts) fun _ hbs =>
      .pure (List.forall_mem_cons.mpr ⟨hb, hbs⟩)

lemma buildAccesses_tracks {targets : List Occurrence} (htargets : ∀ o ∈ targets, o.Within p)
    {memo : Memo} (hmemo : memo.Within p) :
    Tracks (Closed p) (Memo.Within p) (buildAccesses p targets memo) (buildAccesses q targets memo) := by
  induction targets generalizing memo with
  | nil => exact .pure hmemo
  | cons target targets ih =>
    obtain ⟨htarget, htargets⟩ := List.forall_mem_cons.mp htargets
    unfold buildAccesses
    split
    · next array indices hnode =>
      have hindices : ∀ t ∈ indices, t.Within p := fun t ht =>
        htarget.1.child (by rw [Term.children, hnode]; exact ht)
      refine .bind (building_tracks (mapM_build_tracks hcont closed hindices) hmemo) fun out hout => ?_
      refine .bind (.update fun ctx hctx => ?_) fun _ _ => ih htargets hout.2
      exact { hctx with accessBounds := Table.forall_insert hctx.accessBounds hout.1 }
    · rw [hcont.describe_eq htarget.1]
      exact .throw (by simp)

lemma buildOverflows_tracks {targets : List Occurrence} (htargets : ∀ o ∈ targets, o.Within p)
    {memo : Memo} (hmemo : memo.Within p) :
    Tracks (Closed p) (Memo.Within p) (buildOverflows p targets memo)
      (buildOverflows q targets memo) := by
  induction targets generalizing memo with
  | nil => exact .pure hmemo
  | cons target targets ih =>
    obtain ⟨htarget, htargets⟩ := List.forall_mem_cons.mp htargets
    refine .bind (building_tracks (p.build_tracks hcont closed htarget.1) hmemo) fun out hout => ?_
    refine .bind (.update fun ctx hctx => ?_) fun _ _ => ih htargets hout.2
    exact { hctx with overflowBounds := Table.forall_insert hctx.overflowBounds hout.1 }

theorem buildAll_tracks : Tracks (Closed p) (fun _ => True) (buildAll p) (buildAll q) :=
  .bind .get fun _ hctx =>
    .bind (buildLoops_tracks hcont closed hctx.loops (Memo.within_empty p)) fun _ hmemo =>
      .bind (buildAccesses_tracks hcont closed hctx.accesses hmemo) fun _ hmemo =>
        .bind (buildOverflows_tracks hcont closed hctx.overflowChecks hmemo) fun _ _ => .pure trivial

end

theorem checkAll_tracks (shares : p.SharesContents) (strict : Bool) :
    Tracks (Closed p) (fun _ => True) (checkAll p strict) (checkAll q strict) := by
  intro ctx hctx
  obtain ⟨hrun, hinv, hpost⟩ := Checker.checkAll_tracks hcont shares strict { context := ctx } hctx
  exact ⟨congrArg (fun out : Except Error Unit × Checker => (out.1, out.2.context)) hrun, hinv, hpost⟩

end Context

namespace Session

/-- The context of a session lies within a program. -/
def Closed (p : Program) (s : Session) : Prop := s.context.Closed p

/-- A new session has the targets of its region. -/
lemma new_closed {p : Program} {root : Term} (hroot : root.Within p) (config : Config)
    (constants : Constants) : (new root config constants).Closed p :=
  Context.register_closed hroot config constants

variable {p q : Program} (hcont : p.Continues q) (closed : p.Closed) (shares : p.SharesContents)
include hcont closed shares

theorem rebuild_tracks : Tracks (Context.Closed p) (fun _ => True) (rebuild p) (rebuild q) :=
  .bind (.update fun _ hctx => hctx.reset) fun _ _ =>
    .bind (Context.buildAll_tracks hcont closed) fun _ _ =>
      Context.checkAll_tracks hcont shares false

omit hcont closed shares in
lemma onContext_follows {α : Type} {post : α → Prop} {step step' : Analysis α}
    (h : Tracks (Context.Closed p) post step step') :
    Follows (Closed p) (Lands post) (onContext step) (onContext step') := by
  intro s hs
  obtain ⟨hrun, hinv, hpost⟩ := h s.context hs
  refine ⟨?_, hinv, hpost⟩
  exact congrArg (fun out : Except Error α × Context => (out.1, { s with context := out.2 : Session })) hrun

theorem prepare_follows :
    Follows (Closed p) (Lands fun _ => True) (prepare p) (prepare q) :=
  onContext_follows (rebuild_tracks hcont closed shares)

/-- A comparison that finds invalidated bounds is followed by a rebuild, which starts from the targets
alone. -/
theorem verify_follows (attempts : Nat) :
    Follows (Closed p) (Lands fun _ => True) (verify p attempts) (verify q attempts) := by
  have hcompare := onContext_follows (Context.checkAll_tracks hcont shares true)
  induction attempts with
  | zero =>
    intro s hs
    change verify q 0 s = verify p 0 s ∧ (verify p 0 s).2.Closed p ∧
      Lands (fun _ => True) (verify p 0 s).1
    rw [verify_zero, verify_zero]
    exact hcompare s hs
  | succ attempts ih =>
    intro s hs
    change verify q (attempts + 1) s = verify p (attempts + 1) s ∧
      (verify p (attempts + 1) s).2.Closed p ∧ Lands (fun _ => True) (verify p (attempts + 1) s).1
    obtain ⟨hrecheck, hended⟩ := hcompare.outcome hs
    rw [verify, verify, hrecheck]
    obtain ⟨_, s₁, hout, hs₁, -⟩ | ⟨e, s₁, hout, hs₁, he⟩ := hended
    · rw [hout]
      exact ⟨rfl, hs₁, .ok trivial⟩
    · rw [hout]
      cases e with
      | boundInvalidated =>
        dsimp only
        generalize hnext : ({ s₁ with retries := s₁.retries + 1 } : Session) = next
        have hclosed : next.Closed p := hnext ▸ hs₁
        obtain ⟨hprepare, ⟨_, s₂, hout', hs₂, -⟩ | ⟨e, s₂, hout', hs₂, he⟩⟩ :=
          (prepare_follows hcont closed shares).outcome hclosed
        · rw [hprepare, hout']
          exact ih s₂ hs₂
        · rw [hprepare, hout']
          exact ⟨rfl, hs₂, .error he⟩
      | _ => exact ⟨rfl, hs₁, .error he⟩

theorem instantiate_follows (constants : Constants) :
    Follows (Closed p) (Lands fun _ => True) (instantiate p constants) (instantiate q constants) := by
  intro s hs
  exact verify_follows hcont closed shares _ (s.withConstants constants) { hs with }

theorem serve_follows (request : Request) :
    Follows (Closed p) (Lands fun _ => True) (serve p · request) (serve q · request) := by
  cases request with
  | prepare => exact prepare_follows hcont closed shares
  | instantiate constants => exact instantiate_follows hcont closed shares constants

omit hcont in
/-- A session stays within its program, whatever it is asked for and however that ends. -/
theorem after_closed {s : Session} (hs : s.Closed p) (requests : List Request) :
    (s.after p requests).Closed p := by
  induction requests generalizing s with
  | nil => exact hs
  | cons request requests ih => exact ih (serve_follows (.refl p) closed shares request s hs).2.1

end Session

end LoopSafety
