import LoopSafety.Proofs.Conflicts
import LoopSafety.Proofs.HandleSafety
import LoopSafety.Proofs.Histories
import LoopSafety.Proofs.Occurrences
import LoopSafety.Proofs.Registration

/-! The subscripts of a nest whose ranges have been shifted.

The shift is the distance from the least index that was found to zero, and it is added to the range of
every loop. An index does not grow by this distance itself: it grows by the distance times the sum of
the coefficients of its loop variables. So an index that rises with the loops is never negative in the
nest, if its interval was right, and one that is fixed stays as low as it was; one that falls gets
lower, and may become negative though it never was. -/
namespace LoopSafety

open Nest (Memory)

lemma mul_le_self_iff {a b : Int} (hb : b ≤ 0) : a * b ≤ b ↔ 1 ≤ a ∨ b = 0 := by
  constructor
  · intro h
    by_contra hnot
    obtain ⟨ha, hne⟩ := not_or.mp hnot
    have hprod : 0 ≤ a * b := Int.mul_nonneg_of_nonpos_of_nonpos (by omega) hb
    omega
  · rintro (ha | rfl)
    · simpa using Int.mul_le_mul_of_nonpos_right ha hb
    · simp

/-- An access that can be decided has an index for each of its dimensions. -/
lemma Context.extents_of_decideAccess {p : Program} {ctx : Context} {o : Occurrence} {x : Access}
    (hx : o.access? = some x) {v : Option (List Bool)} (h : ctx.decideAccess p o = .ok v) :
    ∃ sizes, p.extents o = .ok (some sizes) ∧ x.indices.length = sizes.length := by
  have haccess : o.isAccess := by
    rw [o.isAccess_eq, hx]
    rfl
  obtain ⟨dims, rfl⟩ := exists_dims_of_isAccess haccess h
  rw [← basis_judgeAccess, judgeAccess] at h
  rcases hextents : p.extents o with e | none | sizes
  · rw [hextents] at h
    cases h
  · rw [hextents] at h
    cases h
  · obtain ⟨array, indices, binding, hnode, -, -, hlength⟩ := Program.extents_eq_some_iff.mp hextents
    rw [Occurrence.access?, hnode] at hx
    cases hx
    exact ⟨sizes, rfl, hlength⟩

namespace Session

variable {p : Program} {s s' : Session}

lemma rebuild_minimum (shares : p.SharesContents) {ctx ctx' : Context}
    (h : (rebuild p).run.run ctx = (.ok (), ctx')) :
    ctx'.minimum = (ctx'.accesses.flatMap (ctx'.basis.lowIndices p)).foldl min 0 := by
  rcases hbuild : (Context.buildAll p).run.run ctx.reset with ⟨e | _, built⟩
  · rw [rebuild_run, hbuild] at h
    cases h
  · have hframe := Context.buildAll_frame hbuild
    have hscans : built.scans.Describes p := by
      rw [hframe]
      exact ScanCache.describes_empty p
    have hzero : built.minimum = 0 := by
      rw [hframe]
      rfl
    obtain ⟨r, c', hcheck, hamid, -, hstored⟩ := Checker.storeAll_spec
      (Evaluation.arrayContents_steady shares built.basis) (ScanCache.describes_empty p)
      (c := { context := built }) ⟨rfl, hscans⟩
    rw [rebuild_run, hbuild] at h
    dsimp only at h
    rw [checkAll_run, hcheck] at h
    cases h
    obtain ⟨-, -, hminimum⟩ := hstored rfl
    have hbasis : c'.context.basis = built.basis := hamid.basis
    obtain ⟨-, -, -, haccesses, -⟩ := Context.basis_eq_iff.mp hbasis
    rw [hminimum, hzero, hbasis, haccesses]
    rfl

/-- After preparation the least index is the least literal that the checks of all accesses came upon,
or zero. -/
lemma prepare_minimum (shares : p.SharesContents) (h : s.prepare p = (.ok (), s')) :
    s'.context.minimum =
      (s'.context.accesses.flatMap (s'.context.basis.lowIndices p)).foldl min 0 := by
  unfold prepare onContext at h
  obtain ⟨hok, rfl⟩ := Prod.mk.inj h
  exact rebuild_minimum shares (Prod.ext hok rfl)

/-- The least index is not above the least literal of an index that was checked. -/
lemma minimum_le (shares : p.SharesContents) (h : s.prepare p = (.ok (), s'))
    (hcheck : s'.context.config.boundCheck = true) {o : Occurrence} (ho : o ∈ s'.context.accesses)
    {x : Access} (hx : o.access? = some x) {k : Nat} (hk : k < x.indices.length) {b : Bound}
    (hb : ((s'.context.accessBounds.get? o.term.id).getD [])[k]? = some b) {low : Int64}
    (hlow : (s'.context.narrowed p o.loops b).1.lowest? = some low) :
    s'.context.minimum.toInt ≤ low.toInt := by
  obtain ⟨hprepared, -⟩ := prepare_ok shares h
  obtain ⟨v, hv⟩ := hprepared.decided o ho
  obtain ⟨sizes, hsizes, hlength⟩ := Context.extents_of_decideAccess hx hv
  have hmem : low ∈ s'.context.basis.lowIndices p o := by
    unfold Context.lowIndices
    rw [hsizes]
    refine List.mem_filterMap.mpr ⟨some b, ?_, ?_⟩
    · exact List.mem_map.mpr ⟨k, List.mem_range.mpr (hlength ▸ hk), hb⟩
    · unfold Context.lowIndex?
      rw [show s'.context.basis.config.boundCheck = true from hcheck, if_pos rfl, Option.bind_some,
        Context.basis_checked, hlow]
  rw [prepare_minimum shares h]
  exact (Contents.foldl_min_le _ 0).2 low (List.mem_flatMap.mpr ⟨o, ho, hmem⟩)

lemma minimum_nonpos (shares : p.SharesContents) (h : s.prepare p = (.ok (), s')) :
    s'.context.minimum.toInt ≤ 0 := by
  rw [prepare_minimum shares h]
  exact (Contents.foldl_min_le _ 0).1

end Session

namespace Lowering

variable {p : Program} {ctx : Context}

/-- The loops around a subscript are entered like those of its access. -/
lemma Around.enter_eq {point : LoopId → Int} {point' : String → Int}
    (hpoint : ∀ loop, point' (loopLabel loop) = point loop) {loops : List LoopId}
    {heads : List Nest.LoopHead} (around : Around p ctx loops heads) (m : Memory Int) :
    Nest.enter point' heads m = p.enter point loops m := by
  induction around generalizing m with
  | nil => rfl
  | @cons loop head loops heads hhead _ ih =>
    obtain ⟨info, hinfo, hlabel, hinduction⟩ := loopHead_names hhead
    have hrest := ih (m.setScalar info.induction (point loop))
    simpa [Program.enter, Nest.enter, hinfo, hlabel, hinduction, hpoint loop] using hrest

lemma exprs_getElem? {ts : List Term} {es : List Nest.Expr} (h : exprs p ts = .ok es) {k : Nat}
    {t : Term} (ht : ts[k]? = some t) : ∃ e, es[k]? = some e ∧ expr p t = .ok e := by
  induction ts generalizing es k with
  | nil => cases ht
  | cons u ts ih =>
    rw [exprs] at h
    obtain ⟨e, he, h⟩ := bind_eq_ok h
    obtain ⟨es, hes, h⟩ := bind_eq_ok h
    cases h
    cases k with
    | zero =>
      cases ht
      exact ⟨e, rfl, he⟩
    | succ k => exact ih hes ht

end Lowering

namespace Nest

/-- An index of a subscript is not negative at any iteration of a nest. -/
def Nonneg (n : Nest) (R : Reading) (m : Memory Int) (x : Site) (e : Expr) : Prop :=
  ∀ point, n.IsPoint point → 0 ≤ e.value R (enter point x.heads m)

end Nest

/-- The value of an index of an access at an iteration, other scalars and all cells being as in `m`.
-/
def Access.indexAt (p : Program) (R : Reading) (m : Memory Int) (x : Access) (t : Term)
    (point : LoopId → Int) : Int :=
  t.value p R (p.enter point x.loops m)

namespace Lowering

variable {p : Program} {ctx : Context} {root : Term} {n : Nest} {x : Access} {x' : Nest.Site} {t : Term}
  {e : Nest.Expr}

/-- At an iteration of the nest an index has the value that it has in the region with all loops raised
by the shift. -/
lemma Lowers.value_eq (h : Lowers p ctx x x') (he : expr p t = .ok e) (R : Reading) (m : Memory Int)
    {point : LoopId → Int} {point' : String → Int} (hshifts : Shifts ctx point point') :
    e.value R (Nest.enter point' x'.heads m) =
      x.indexAt p R m t fun loop => point loop + (shift ctx).toInt := by
  rw [expr_value R _ he, Access.indexAt, h.around.enter_eq hshifts]

lemma nonneg_iff (hnest : nest p ctx root = .ok n)
    (hresolved : ∀ loop ∈ root.loops, (ctx.resolvedRange p loop).isSome) (hfits : Fits p ctx root)
    (h : Lowers p ctx x x') (he : expr p t = .ok e) (R : Reading) (m : Memory Int) :
    n.Nonneg R m x' e ↔ ∀ point, p.IsPoint ctx root point →
      0 ≤ x.indexAt p R m t fun loop => point loop + (shift ctx).toInt := by
  constructor
  · intro hall point hpoint
    obtain ⟨point', hshifts⟩ := exists_shifts ctx point
    rw [← h.value_eq he R m hshifts]
    exact hall point' ((isPoint_iff hnest hresolved hfits hshifts).mp hpoint)
  · intro hall point' hpoint'
    obtain ⟨point, hshifts⟩ := exists_shifts_to ctx point'
    rw [h.value_eq he R m hshifts]
    exact hall point ((isPoint_iff hnest hresolved hfits hshifts).mpr hpoint')

/-- An affine index grows by the shift times the sum of its coefficients. -/
lemma Lowers.indexAt_raised (h : Lowers p ctx x x') {R : Reading} (exact : R.Exact) {w : Int}
    (hmoves : t.Moves (p.inductions x.loops) w) (m : Memory Int) (point : LoopId → Int) :
    (x.indexAt p R m t fun loop => point loop + (shift ctx).toInt) =
      x.indexAt p R m t point + w * (shift ctx).toInt := by
  obtain ⟨point', hshifts⟩ := exists_shifts ctx point
  have hmoved := h.around.moved hshifts (Moved.refl m _)
  rw [h.around.enter_eq hshifts] at hmoved
  exact hmoves.value_eq exact hmoved

end Lowering

namespace Session

/-- A region that has been lowered from a session that was prepared with bound checks, whatever came
before, and that has resolved all ranges. Neither the shift nor an end of a shifted range leaves the
range of numbers. -/
structure Lowered (p : Program) (root : Term) (s : Session) (n : Nest) : Prop where
  prepared : ∃ config constants requests,
    ((new root config constants).after p requests).prepare p = (.ok (), s)
  checks : s.context.config.boundCheck = true
  resolved : ∀ loop ∈ root.loops, (s.context.resolvedRange p loop).isSome
  nest : Lowering.nest p s.context root = .ok n
  fits : Lowering.Fits p s.context root
  least : s.context.minimum ≠ Int64.minValue

variable {p : Program} {root : Term} {s : Session} {n : Nest}

/-- The accesses of the session are the subscripts of the nest, in order. -/
lemma Lowered.sites (shares : p.SharesContents) (h : Lowered p root s n) :
    List.Forall₂ (Lowering.LowersAt p s.context) s.context.accesses n.sites := by
  obtain ⟨config, constants, requests, hprepare⟩ := h.prepared
  have haccesses : s.context.accesses = (({} : Context).register root).accesses := by
    have hafter :=
      congrArg Context.accesses (after_reset (p := p) requests (new root config constants))
    exact (Context.targets_of_reset_eq (prepare_ok shares hprepare).2).1.trans hafter
  rw [haccesses, Context.register_accesses]
  exact forall₂_filterMap_left (Lowering.nest_sites h.nest h.resolved)

lemma Lowered.toInt_shift (shares : p.SharesContents) (h : Lowered p root s n) :
    (Lowering.shift s.context).toInt = -s.context.minimum.toInt := by
  obtain ⟨_, _, _, hprepare⟩ := h.prepared
  have hnonpos := minimum_nonpos shares hprepare
  rw [Lowering.toInt_shift h.least]
  omega

/-- Whether an index can be negative in the nest. In general this is a question about the region with
all loops raised. An affine index is negative somewhere exactly if it goes below the least index times
the sum of its coefficients; so it never is if its interval was right and the sum is positive, and it
is if the sum is not positive and the index attains the least index, unless nothing was shifted. -/
theorem lowered_index_nonneg_iff (shares : p.SharesContents) (h : Lowered p root s n) {i k : Nat}
    {o : Occurrence} {x : Access} {t : Term} {b : Bound} {low : Int64}
    (ho : s.context.accesses[i]? = some o) (hx : o.access? = some x) (ht : x.indices[k]? = some t)
    (hb : ((s.context.accessBounds.get? o.term.id).getD [])[k]? = some b)
    (hlow : (s.context.narrowed p o.loops b).1.lowest? = some low) (R : Reading) (m : Memory Int) :
    ∃ x' e, n.sites[i]? = some x' ∧ x'.indices[k]? = some e ∧
      (n.Nonneg R m x' e ↔ ∀ point, p.IsPoint s.context root point →
        0 ≤ x.indexAt p R m t fun loop => point loop - s.context.minimum.toInt) ∧
      ∀ w, R.Exact → t.Moves (p.inductions x.loops) w →
        (n.Nonneg R m x' e ↔ ∀ point, p.IsPoint s.context root point →
          w * s.context.minimum.toInt ≤ x.indexAt p R m t point) ∧
        ((∀ point, p.IsPoint s.context root point → low.toInt ≤ x.indexAt p R m t point) →
          1 ≤ w ∨ s.context.minimum = 0 → n.Nonneg R m x' e) ∧
        ((∃ point, p.IsPoint s.context root point ∧
            x.indexAt p R m t point = s.context.minimum.toInt) →
          n.Nonneg R m x' e → 1 ≤ w ∨ s.context.minimum = 0) := by
  obtain ⟨_, _, _, hprepare⟩ := h.prepared
  obtain ⟨x', hx', _, hx₁, hlowers⟩ := getElem?_of_forall₂ (h.sites shares) ho
  obtain rfl := Option.some.inj (hx.symm.trans hx₁)
  obtain ⟨e, he', he⟩ := Lowering.exprs_getElem? hlowers.indices ht
  have hiff := Lowering.nonneg_iff h.nest h.resolved h.fits hlowers he R m
  have hshift := h.toInt_shift shares
  have hnonpos := minimum_nonpos shares hprepare
  refine ⟨x', e, hx', he', ?_, fun w exact hmoves => ?_⟩
  · simpa only [hshift, ← sub_eq_add_neg] using hiff
  have haffine : n.Nonneg R m x' e ↔ ∀ point, p.IsPoint s.context root point →
      w * s.context.minimum.toInt ≤ x.indexAt p R m t point := by
    rw [hiff]
    simp only [hlowers.indexAt_raised exact hmoves m]
    simp only [hshift, mul_neg, ← sub_eq_add_neg, sub_nonneg]
  have hweight : w * s.context.minimum.toInt ≤ s.context.minimum.toInt ↔
      1 ≤ w ∨ s.context.minimum = 0 := by
    rw [mul_le_self_iff hnonpos, ← Int64.toInt_inj]
    rfl
  refine ⟨haffine, fun hright hw => ?_, fun hattained hall => ?_⟩
  · have hle : s.context.minimum.toInt ≤ low.toInt := by
      obtain ⟨hk, -⟩ := List.getElem?_eq_some_iff.mp ht
      exact minimum_le shares hprepare h.checks (List.mem_of_getElem? ho) hx hk hb hlow
    exact haffine.mpr fun point hpoint => (hweight.mpr hw).trans (hle.trans (hright point hpoint))
  · obtain ⟨point, hpoint, hvalue⟩ := hattained
    exact hweight.mp (hvalue ▸ haffine.mp hall point hpoint)

end Session

/-! A loop that copies `A` to `B`, to be read backwards: `A[i - 2]` goes to `B[9 - i]` for `i` below
ten. The least index is that of `A`, and with the loop shifted by two the last index of `B` is minus
two. -/
namespace Mirrored

def nodes : List (Node NodeId) :=
  [.var "i" .int none, .literal (.int 2), .literal (.int 9), .binary .sub ⟨0⟩ ⟨1⟩ .int,
    .binary .sub ⟨2⟩ ⟨0⟩ .int, .access ⟨0⟩ [⟨3⟩], .access ⟨1⟩ [⟨4⟩], .assign ⟨6⟩ ⟨5⟩, .forLoop ⟨0⟩ ⟨7⟩]

def loops : List LoopInfo := [⟨"i", .int, .simple ⟨0, 10, 1⟩⟩]

def arrays : List Binding :=
  [⟨"A", ⟨.intArray, [10]⟩, none, false⟩, ⟨"B", ⟨.intArray, [10]⟩, none, false⟩]

def index : Term := ⟨⟨0⟩, .var "i" .int none⟩
def two : Term := ⟨⟨1⟩, .literal (.int 2)⟩
def nine : Term := ⟨⟨2⟩, .literal (.int 9)⟩
def rising : Term := ⟨⟨3⟩, .binary .sub index two .int⟩
def falling : Term := ⟨⟨4⟩, .binary .sub nine index .int⟩
def source : Term := ⟨⟨5⟩, .access ⟨0⟩ [rising]⟩
def target : Term := ⟨⟨6⟩, .access ⟨1⟩ [falling]⟩
def statement : Term := ⟨⟨7⟩, .assign target source⟩
def region : Term := ⟨⟨8⟩, .forLoop ⟨0⟩ statement⟩

def program : Program where
  terms := #[index, two, nine, rising, falling, source, target, statement, region]
  loops := loops.toArray
  arrays := arrays.toArray

def session : Session := ((Session.new region {} ∅).prepare program).2

/-- The nest with its range shifted by `d`. -/
def shifted (d : Int64) (constants : Table String Int64) : Nest where
  root := ⟨⟨"for_L0", "i", .literal (Saturating.add 0 d), .literal (Saturating.add 10 d), .literal 1⟩,
    [.assign "S_n7" (.subscript "B" [.binary .sub (.literal 9) (.var "i")])
      (.subscript "A" [.binary .sub (.var "i") (.literal 2)])]⟩
  locals := Nest.sortedSet []
  constants

lemma nest_eq (ctx : Context) : Lowering.nest program ctx region =
    .ok (shifted (Lowering.shift ctx) ctx.constants) := rfl

lemma loops_eq : region.loops = [⟨0⟩] := rfl

lemma minimum_eq : session.context.minimum = -2 := by decide +kernel

lemma shift_eq : Lowering.shift session.context = 2 := by decide +kernel

lemma prepare_eq : (Session.new region {} ∅).prepare program = (.ok (), session) :=
  Prod.ext (eq_ok_get (by decide +kernel)) rfl

lemma accesses_eq : session.context.accesses = [⟨target, [⟨0⟩]⟩, ⟨source, [⟨0⟩]⟩] :=
  (Context.targets_of_reset_eq (Session.prepare_ok (by decide) prepare_eq).2).1

lemma lowered : session.Lowered program region (shifted 2 session.context.constants) where
  prepared := ⟨{}, ∅, [], prepare_eq⟩
  checks := by decide +kernel
  resolved := by
    rw [loops_eq, List.forall_mem_singleton]
    rfl
  nest := by rw [nest_eq, shift_eq]
  fits := by
    rw [Lowering.Fits, loops_eq, List.forall_mem_singleton, shift_eq]
    rintro span ⟨⟩
    decide
  least := by
    rw [minimum_eq]
    decide

lemma visits_one_iff {s t v : Int} : Visits s t 1 v ↔ s ≤ v ∧ v < t := by
  constructor
  · rintro ⟨k, hk, hlt, -⟩
    exact ⟨by omega, hlt one_pos⟩
  · rintro ⟨hle, hlt⟩
    refine ⟨(v - s).toNat, by omega, fun _ => hlt, ?_⟩
    intro hneg
    omega

lemma isPoint_iff {ctx : Context} {point : LoopId → Int} :
    program.IsPoint ctx region point ↔ 0 ≤ point ⟨0⟩ ∧ point ⟨0⟩ < 10 := by
  rw [Program.IsPoint, loops_eq, List.forall_mem_singleton, ← visits_one_iff]
  constructor
  · rintro ⟨span, ⟨⟩, hvisits⟩
    exact hvisits
  · intro hvisits
    exact ⟨⟨0, 10, 1⟩, rfl, hvisits⟩

/-- The index of `A` starts at minus two, and at zero in the nest. -/
theorem rising_index_raised :
    session.Lowered program region (shifted 2 session.context.constants) ∧
    session.context.minimum = -2 ∧
    ∃ x e, (shifted 2 session.context.constants).sites[1]? = some x ∧ x.indices[0]? = some e ∧
      (shifted 2 session.context.constants).Nonneg Anchored.plain .blank x e := by
  refine ⟨lowered, minimum_eq, ?_⟩
  have hbound : (((session.context.accessBounds.get? ⟨5⟩).getD [])[0]?.bind fun b =>
      (session.context.narrowed program [⟨0⟩] b).1.lowest?) = some (-2) := by decide +kernel
  obtain ⟨b, hb, hlow⟩ := Option.bind_eq_some_iff.mp hbound
  have hmoves : rising.Moves ["i"] 1 :=
    .sub (.var (List.mem_singleton_self _)) (.fixed (by simp [two, Term.names]))
  have haccess : session.context.accesses[1]? = some ⟨source, [⟨0⟩]⟩ := by
    rw [accesses_eq]
    rfl
  obtain ⟨x, e, hx, he, -, hsum⟩ := Session.lowered_index_nonneg_iff (by decide) lowered haccess
    (k := 0) (x := ⟨⟨0⟩, [rising], [⟨0⟩]⟩) rfl rfl hb hlow Anchored.plain .blank
  obtain ⟨-, hright, -⟩ := hsum 1 Anchored.plain_exact hmoves
  refine ⟨x, e, hx, he, hright (fun point hpoint => ?_) (.inl le_rfl)⟩
  obtain ⟨hle, -⟩ := isPoint_iff.mp hpoint
  change -2 ≤ point ⟨0⟩ - 2
  omega

/-- The index of `B` is never negative, and all intervals were found, but in the nest its last index
is minus two. -/
theorem falling_index_negative :
    Program.ofTables nodes loops arrays [] = .ok program ∧
    session.Lowered program region (shifted 2 session.context.constants) ∧
    (session.context.accesses.flatMap fun o =>
      ((session.context.accessBounds.get? o.term.id).getD []).map fun b =>
        ((session.context.narrowed program o.loops b).1.interval?,
          (session.context.narrowed program o.loops b).2)) =
      [(some (9, 0), true), (some (-2, 7), true)] ∧
    (∀ point, program.IsPoint session.context region point →
      0 ≤ Access.indexAt program Anchored.plain .blank ⟨⟨1⟩, [falling], [⟨0⟩]⟩ falling point) ∧
    ∃ x e, (shifted 2 session.context.constants).sites[0]? = some x ∧ x.indices[0]? = some e ∧
      ¬(shifted 2 session.context.constants).Nonneg Anchored.plain .blank x e := by
  refine ⟨rfl, lowered, by decide +kernel, ?_, _, _, rfl, rfl, ?_⟩
  · intro point hpoint
    obtain ⟨-, hlt⟩ := isPoint_iff.mp hpoint
    change 0 ≤ 9 - point ⟨0⟩
    omega
  · intro hall
    have hlast : (shifted 2 session.context.constants).IsPoint fun _ => 11 := by
      have hloops : (shifted 2 session.context.constants).loops =
        [(shifted 2 session.context.constants).root] := rfl
      rw [Nest.IsPoint, hloops, List.forall_mem_singleton]
      exact ⟨2, 12, 1, rfl, rfl, rfl, visits_one_iff.mpr (by decide)⟩
    exact absurd (hall _ hlast) (by decide)

end Mirrored

end LoopSafety
