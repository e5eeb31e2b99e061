import LoopSafety.Proofs.Enclosure
import LoopSafety.Proofs.Frames
import LoopSafety.Proofs.Occurrences

/-! Integer operations whose check is dropped do not leave the range of their type.

An overflow is seen by its traces only. Literals are folded and intervals are combined in 64 bits and
then cut to the type, and a check is dropped if no end that is left is an extreme of the type. Since
an end that was cut is such an extreme, the ends of a dropped check are exact. -/
namespace LoopSafety

/-- An integer whose nearest one is neither limit of its type lies between the limits. -/
lemma DataType.between_of_nearest_ne {ty : DataType} {lo hi : Int64} {z : Int}
    (hlimits : ty.limits = some (lo, hi)) (hlo : ty.nearest z ≠ lo.toInt)
    (hhi : ty.nearest z ≠ hi.toInt) : lo.toInt < z ∧ z < hi.toInt := by
  rw [nearest, hlimits] at hlo hhi
  dsimp only at hlo hhi
  omega

namespace Bound

/-- Neither end of an interval that avoids two extremes is one of them. -/
lemma ends_of_avoids {r : Bound} {a b lo hi : Int64} (hr : r.interval? = some (a, b))
    (havoids : r.avoids lo hi = true) : (a ≠ lo ∧ a ≠ hi) ∧ b ≠ lo ∧ b ≠ hi := by
  unfold interval? at hr
  split at hr
  · cases hr
    simpa [avoids] using havoids
  · cases hr
    simpa [avoids] using havoids
  · cases hr

theorem Brackets.between {r : Bound} {ty : DataType} {results : Int → Prop} {lo hi : Int64} {z : Int}
    (h : r.Brackets ty results) (hlimits : ty.limits = some (lo, hi))
    (havoids : r.avoids lo hi = true) (hz : results z) : lo.toInt < z ∧ z < hi.toInt := by
  obtain ⟨a, b, zlo, zhi, hr, ha, hb, hall⟩ := h
  obtain ⟨⟨halo, hahi⟩, hblo, hbhi⟩ := ends_of_avoids hr havoids
  have hlow := DataType.between_of_nearest_ne hlimits (z := zlo) (by rwa [← ha, Ne, Int64.toInt_inj])
    (by rwa [← ha, Ne, Int64.toInt_inj])
  have hhigh := DataType.between_of_nearest_ne hlimits (z := zhi)
    (by rwa [← hb, Ne, Int64.toInt_inj]) (by rwa [← hb, Ne, Int64.toInt_inj])
  have := hall z hz
  omega

lemma OrderPreserving.operands {op : BinaryOp} {l r : Bound} {ty : DataType}
    (h : OrderPreserving (.binary op l r ty)) : l.OrderPreserving ∧ r.OrderPreserving := by
  cases h with
  | add hl hr => exact ⟨hl, hr⟩
  | byLiteral hl _ => exact ⟨hl, .literal _ _⟩

/-- A folded literal brackets the one result of its operands. -/
lemma brackets_folded {p : Program} {σ : String → Int} {op : BinaryOp} {a b v : Int64} {z : Int}
    {ta tb : DataType} (ty : DataType) (hv : op.apply a b = some v)
    (hz : op.onIntegers a.toInt b.toInt = some z) :
    (literal (ty.saturate v) ty).Brackets ty (Results p σ op (literal a ta) (literal b tb)) := by
  have hend := DataType.toInt_saturate_apply ty hv hz
  refine ⟨_, _, z, z, rfl, hend, hend, ?_⟩
  rintro w ⟨_, _, ⟨⟩, ⟨⟩, hw⟩
  cases hz.symm.trans hw
  exact ⟨Int.le_refl z, Int.le_refl z⟩

end Bound

lemma Yields.narrowed {p : Program} {ctx : Context} {loops : List LoopId} {b : Bound}
    {kind : Bound → Prop} (h : Yields p (ctx.evaluate p { loops } b) kind)
    (hflag : (ctx.narrowed p loops b).2 = true) : kind (ctx.narrowed p loops b).1 := by
  obtain ⟨r, ok, hr, hrun⟩ := h
  obtain ⟨scans, -, heq⟩ := hrun true {} (ScanCache.describes_empty p)
  have hnarrowed : ctx.narrowed p loops b = (r, ok) := by
    simp only [Context.narrowed]
    rw [show (ctx.evaluate p { loops } b).run {} = _ from heq]
    rfl
  rw [hnarrowed] at hflag ⊢
  exact hr hflag

/-- Steps that, where they build an order-preserving bound from nothing, build it whatever functions
have been built before, and build no functions themselves. -/
def SelfContained (m : Building Bound) : Prop :=
  ∀ b memo', m.run.run ∅ = (.ok b, memo') → b.OrderPreserving →
    ∀ memo, m.run.run memo = (.ok b, memo)

namespace SelfContained

variable {m : Building Bound} {f : Bound → Building Bound}

theorem pure (b : Bound) : SelfContained (Pure.pure b) := by
  intro b' memo' h _ memo
  cases h
  rfl

theorem throw (e : Error) : SelfContained (MonadExcept.throw e) := by
  intro b memo' h
  cases h

/-- What an order-preserving bound is built from has to be order-preserving. -/
theorem bind (h : SelfContained m) (hf : ∀ a, SelfContained (f a))
    (hparts : ∀ {a b memo memo'}, (f a).run.run memo = (.ok b, memo') → b.OrderPreserving →
      a.OrderPreserving) : SelfContained (m >>= f) := by
  intro b memo' hrun hb memo
  obtain ⟨a, memo₁, hfirst, hsecond⟩ := run_bind_eq_ok.mp hrun
  have hm := h a memo₁ hfirst (hparts hsecond hb)
  obtain rfl : memo₁ = ∅ := congrArg Prod.snd (hfirst.symm.trans (hm ∅))
  exact run_bind_eq_ok.mpr ⟨a, memo, hm memo, hf a b memo' hsecond hb memo⟩

theorem both {n : Building Bound} {g : Bound → Bound → Building Bound} (hm : SelfContained m)
    (hn : SelfContained n) (hg : ∀ l r, SelfContained (g l r))
    (hparts : ∀ {l r b memo memo'}, (g l r).run.run memo = (.ok b, memo') → b.OrderPreserving →
      l.OrderPreserving ∧ r.OrderPreserving) : SelfContained (do g (← m) (← n)) := by
  refine .bind hm (fun l => .bind hn (hg l) fun h hb => (hparts h hb).2) fun h hb => ?_
  obtain ⟨r, _, -, h⟩ := run_bind_eq_ok.mp h
  exact (hparts h hb).1

end SelfContained

namespace Build

variable {p : Program} {call : FunctionId → Term → Building Bound}

/-- What an operation on order-preserving bounds is built to: two literals fold. -/
lemma arith_run {t : Term} {op : BinaryOp} {l r b : Bound} {ty : DataType} {memo memo' : Memo}
    (h : (arith p t op l r ty).run.run memo = (.ok b, memo')) (hl : l.OrderPreserving)
    (hr : r.OrderPreserving) :
    b = .binary op l r ty ∨ ∃ x tx y ty' v, l = .literal x tx ∧ r = .literal y ty' ∧
      op.apply x y = some v ∧ b = .literal (ty.saturate v) ty := by
  unfold arith at h
  split at h
  · cases hl
  · cases hr
  · split at h
    · next hv =>
      cases h
      exact .inr ⟨_, _, _, _, _, rfl, rfl, hv, rfl⟩
    · cases h
  · cases h
    exact .inl rfl

lemma arith_parts {t : Term} {op : BinaryOp} {l r b : Bound} {ty : DataType} {memo memo' : Memo}
    (h : (arith p t op l r ty).run.run memo = (.ok b, memo')) (hb : b.OrderPreserving) :
    l.OrderPreserving ∧ r.OrderPreserving := by
  unfold arith at h
  split at h
  · cases h
    cases hb
  · cases h
    cases hb
  · exact ⟨.literal _ _, .literal _ _⟩
  · cases h
    exact hb.operands

lemma arith_selfContained (t : Term) (op : BinaryOp) (l r : Bound) (ty : DataType) :
    SelfContained (arith p t op l r ty) := by
  unfold arith
  split
  · exact .pure _
  · exact .pure _
  · split
    · exact .pure _
    · exact .throw _
  · exact .pure _

lemma function_not_orderPreserving {id : FunctionId} {f : FunctionDef} {b : Bound} {memo memo' : Memo}
    (h : (function p call id f).run.run memo = (.ok b, memo')) : ¬b.OrderPreserving := by
  unfold function at h
  obtain ⟨joined, memo₁, -, h⟩ := run_bind_eq_ok.mp h
  dsimp only at h
  split at h
  · cases h
  · obtain ⟨ret, memo₂, -, h⟩ := run_bind_eq_ok.mp h
    cases h
    intro hb
    cases hb

/-- No call is built from nothing to an order-preserving bound. -/
lemma callBound_not_orderPreserving {depth : Nat} {active : List FunctionId} {id : FunctionId}
    {site : Term} {b : Bound} {memo' : Memo}
    (h : (callBound p depth active id site).run.run ∅ = (.ok b, memo')) : ¬b.OrderPreserving := by
  cases depth with
  | zero => cases h
  | succ depth =>
    unfold callBound at h
    rw [run_bind_step, run_get_step] at h
    simp only [Table.get?_empty] at h
    split at h
    · cases h
    · split at h
      · cases h
      · obtain ⟨bound, memo₁, hfunction, h⟩ := run_bind_eq_ok.mp h
        cases h
        exact function_not_orderPreserving hfunction

theorem term_selfContained
    (hcall : ∀ {id site b memo'}, (call id site).run.run ∅ = (.ok b, memo') → ¬b.OrderPreserving) :
    ∀ t, SelfContained (term p call t)
  | .mk _ (.literal _) => by
    rw [term]
    exact .pure _
  | .mk _ (.var _ _ (some definition)) => by
    rw [term]
    exact term_selfContained hcall definition
  | .mk _ (.var _ _ none) => by
    rw [term]
    exact .pure _
  | .mk _ (.binary _ left right _) => by
    rw [term]
    exact .both (term_selfContained hcall left) (term_selfContained hcall right)
      (fun _ _ => arith_selfContained _ _ _ _ _) arith_parts
  | .mk _ (.unary .cast operand _) => by
    rw [term]
    exact term_selfContained hcall operand
  | .mk _ (.unary .neg operand _) => by
    rw [term]
    exact .bind (term_selfContained hcall operand) (fun _ => arith_selfContained _ _ _ _ _)
      fun h hb => (arith_parts h hb).2
  | .mk _ (.access array _) => by
    rw [term]
    unfold arrayBound
    split
    · exact .pure _
    · exact .throw _
  | .mk _ (.builtin _ [left, right] _) => by
    rw [term]
    refine .both (term_selfContained hcall left) (term_selfContained hcall right) (fun _ _ => .pure _)
      fun h hb => ?_
    cases h
    cases hb with
    | builtin hl hr => exact ⟨hl, hr⟩
  | .mk _ (.builtin _ [] _) | .mk _ (.builtin _ [_] _) | .mk _ (.builtin _ (_ :: _ :: _ :: _) _) => by
    rw [term]
    · exact .throw _
    · simp
  | .mk _ (.math _ args _) => by
    rw [term]
    split
    · exact .throw _
    · intro b memo' h hb
      obtain ⟨_, _, -, h⟩ := run_bind_eq_ok.mp h
      cases h
      cases hb
  | .mk _ (.cond _ thenPart (some elsePart) _) => by
    rw [term]
    refine .both (term_selfContained hcall thenPart) (term_selfContained hcall elsePart)
      (fun _ _ => .pure _) fun h hb => ?_
    cases h
    cases hb with
    | either ht he => exact ⟨ht, he⟩
  | .mk _ (.call function _) => by
    rw [term]
    intro b memo' h hb
    exact absurd hb (hcall h)
  | .mk _ (.unary .not _ _) | .mk _ (.cond _ _ none _) | .mk _ (.forLoop ..)
  | .mk _ (.whileLoop ..) | .mk _ (.block _) | .mk _ (.assign ..) | .mk _ (.ret _)
  | .mk _ .brk => by
    rw [term]
    exact .throw _

end Build

namespace Program

variable {p : Program}

/-- The bound of a construct for itself, with no function built before. -/
def boundOf (p : Program) (t : Term) : Except Error Bound := ((p.build t).run.run ∅).1

lemma build_of_boundOf {t : Term} {b : Bound} (h : p.boundOf t = .ok b) (hb : b.OrderPreserving)
    (memo : Memo) : (p.build t).run.run memo = (.ok b, memo) :=
  Build.term_selfContained Build.callBound_not_orderPreserving t b _ (Prod.ext h rfl) hb memo

/-- An operation on order-preserving operands is built from their bounds or folded. -/
lemma build_operation {t left right : Term} {op : BinaryOp} {ty : DataType} {l r b : Bound}
    {memo memo' : Memo} (hnode : t.node = .binary op left right ty) (hl : p.boundOf left = .ok l)
    (hr : p.boundOf right = .ok r) (hlo : l.OrderPreserving) (hro : r.OrderPreserving)
    (h : (p.build t).run.run memo = (.ok b, memo')) :
    b = .binary op l r ty ∨ ∃ x tx y ty' v, l = .literal x tx ∧ r = .literal y ty' ∧
      op.apply x y = some v ∧ b = .literal (ty.saturate v) ty := by
  obtain ⟨id, node⟩ := t
  obtain rfl : node = .binary op left right ty := hnode
  rw [build, Build.term] at h
  obtain ⟨l', memo₁, hleft, hrest⟩ := run_bind_eq_ok.mp h
  cases hleft.symm.trans (build_of_boundOf hl hlo memo)
  obtain ⟨r', memo₂, hright, harith⟩ := run_bind_eq_ok.mp hrest
  cases hright.symm.trans (build_of_boundOf hr hro memo)
  exact Build.arith_run harith hlo hro

end Program

namespace Context

variable {p : Program}

lemma building_eq_ok {α : Type} {step : Building α} {memo : Memo} {r : α × Memo} {ctx ctx' : Context}
    (h : (building step memo).run.run ctx = (.ok r, ctx')) :
    step.run.run memo = (.ok r.1, r.2) ∧ ctx' = ctx := by
  unfold building at h
  split at h
  · next hrun =>
    cases h
    exact ⟨hrun, rfl⟩
  · cases h

/-- Every bound of an operation that is there after building was there before or has been built. -/
lemma buildOverflows_origin {targets : List Occurrence} {memo : Memo} {ctx ctx' : Context} {last : Memo}
    (h : (buildOverflows p targets memo).run.run ctx = (.ok last, ctx')) {node : NodeId} {b : Bound}
    (hb : ctx'.overflowBounds.get? node = some b) :
    ctx.overflowBounds.get? node = some b ∨ ∃ t ∈ targets, t.term.id = node ∧
      ∃ memo memo', (p.build t.term).run.run memo = (.ok b, memo') := by
  induction targets generalizing memo ctx with
  | nil =>
    cases h
    exact .inl hb
  | cons t targets ih =>
    unfold buildOverflows at h
    obtain ⟨⟨bound, memo₁⟩, ctx₁, hstep, hrest⟩ := run_bind_eq_ok.mp h
    obtain ⟨hbuild, rfl⟩ := building_eq_ok hstep
    obtain ⟨_, ctx₂, hstore, hrest⟩ := run_bind_eq_ok.mp hrest
    cases hstore
    rcases ih hrest with hbefore | ⟨u, hu, hid, hbuilt⟩
    · rw [Table.get?_insert] at hbefore
      split at hbefore
      · next hid =>
        cases hbefore
        exact .inr ⟨t, List.mem_cons_self, hid, memo, memo₁, hbuild⟩
      · exact .inl hbefore
    · exact .inr ⟨u, List.mem_cons_of_mem t hu, hid, hbuilt⟩

lemma Built.overflow_origin {ctx : Context} (h : ctx.Built p) {node : NodeId} {b : Bound}
    (hb : ctx.overflowBounds.get? node = some b) : ∃ t ∈ ctx.overflowChecks, t.term.id = node ∧
      ∃ memo memo', (p.build t.term).run.run memo = (.ok b, memo') := by
  obtain ⟨built, hrun, hbasis⟩ := h
  obtain ⟨-, -, -, -, -, -, -, hbounds⟩ := basis_eq_iff.mp hbasis
  unfold buildAll at hrun
  rw [run_bind_step, run_get_step] at hrun
  obtain ⟨memo₁, ctx₁, hloops, hrun⟩ := run_bind_eq_ok.mp hrun
  obtain ⟨memo₂, ctx₂, haccesses, hrun⟩ := run_bind_eq_ok.mp hrun
  obtain ⟨memo₃, ctx₃, hoverflows, hrun⟩ := run_bind_eq_ok.mp hrun
  cases hrun
  have hloops_leave : Leaves overflowBounds (·.isFatal = true) (buildLoops p ctx.reset.loops ∅) :=
    buildLoops_leaves (fun _ _ => rfl) _ _
  have haccesses_leave : Leaves overflowBounds (·.isFatal = true)
      (buildAccesses p ctx.reset.accesses memo₁) := buildAccesses_leaves (fun _ _ => rfl) _ _
  have hnone₁ := (hloops_leave ctx.reset).1
  have hnone₂ := (haccesses_leave ctx₁).1
  rw [hloops] at hnone₁
  rw [haccesses] at hnone₂
  rcases buildOverflows_origin hoverflows (hbounds ▸ hb) with hbefore | horigin
  · rw [show ctx₂.overflowBounds = ∅ from hnone₂.trans hnone₁] at hbefore
    cases hbefore
  · exact horigin

end Context

namespace Session

variable {p : Program} {s s' : Session} {result : Except Error Unit}

/-- A rebuild that fails leaves no verdict on an operation. -/
lemma rebuild_error {ctx ctx' : Context} {e : Error}
    (h : (rebuild p).run.run ctx = (.error e, ctx')) : ctx'.overflowVerdicts = ∅ := by
  rw [rebuild_run] at h
  split at h
  · next built hbuild =>
    rw [checkAll_run] at h
    obtain ⟨hresult, rfl⟩ := Prod.mk.inj h
    exact (Checker.checkAll_error (Prod.ext hresult rfl)).trans
      (congrArg Context.overflowVerdicts (Context.buildAll_frame hbuild))
  · next built hbuild =>
    cases h
    exact congrArg Context.overflowVerdicts (Context.buildAll_frame hbuild)

/-- In a rebuilt context, what is stored on an operation that is registered once is the verdict on
it, and so the verdict on a bound that has been built for it. -/
lemma prepare_unchecked (shares : p.SharesContents) (h : s.prepare p = (result, s')) {t : Occurrence}
    (once : ∀ u ∈ s.context.overflowChecks, u.term.id = t.term.id → u = t)
    (hv : s'.context.overflowVerdicts.get? t.term.id = some false) :
    s'.context.OperationSafe p t ∧ ∀ b, s'.context.overflowBounds.get? t.term.id = some b →
      ∃ memo memo', (p.build t.term).run.run memo = (.ok b, memo') := by
  obtain rfl : result = .ok () := by
    rcases hrun : (rebuild p).run.run s.context with ⟨e | _, ctx'⟩ <;> rw [prepare, onContext, hrun] at h
    · cases h
      rw [rebuild_error hrun] at hv
      cases hv
    · cases h
      rfl
  obtain ⟨hprepared, hreset⟩ := prepare_ok shares h
  rw [← (Context.targets_of_reset_eq hreset).2] at once
  rw [hprepared.overflow, Context.operationTable_safe_iff] at hv
  obtain ⟨u, hlast, hid, hsafe⟩ := hv
  obtain rfl := once u hlast.mem hid
  refine ⟨hsafe, fun b hb => ?_⟩
  obtain ⟨w, hw, hwid, hbuilt⟩ := hprepared.built.overflow_origin hb
  obtain rfl := once w hw hwid
  exact hbuilt

/-- What is stored as needing no check stays strictly inside its type: under every consistent
assignment the exact result of the operation on the values of its operands, of which every inner
operation has been cut to its own type, lies between the limits of the type. -/
theorem unchecked_operation_between_limits (shares : p.SharesContents)
    (h : s.prepare p = (result, s')) {t : Occurrence}
    (once : ∀ u ∈ s.context.overflowChecks, u.term.id = t.term.id → u = t) {op : BinaryOp}
    {left right : Term} {ty : DataType} (hnode : t.term.node = .binary op left right ty)
    {lo hi : Int64} (hlimits : ty.limits = some (lo, hi)) {l r : Bound}
    (hl : p.boundOf left = .ok l) (hr : p.boundOf right = .ok r)
    (keeps : s'.context.KeepsOrder p t.loops (.binary op l r ty))
    (unchecked : s'.context.overflowVerdicts.get? t.term.id = some false) {σ : String → Int}
    (consistent : s'.context.Consistent p t.loops (.binary op l r ty) σ) {x y z : Int}
    (hx : l.Takes p σ x) (hy : r.Takes p σ y) (hz : op.onIntegers x y = some z) :
    lo.toInt < z ∧ z < hi.toInt := by
  obtain ⟨hsafe, hbuilt⟩ := prepare_unchecked shares h once unchecked
  have htype : p.typeOf t.term = ty := by rw [Program.typeOf, hnode]
  obtain ⟨b, hb, -, hflag, havoids⟩ := hsafe lo hi (htype ▸ hlimits)
  obtain ⟨memo, memo', hbuild⟩ := hbuilt b hb
  have hparts : l.OrderPreserving ∧ r.OrderPreserving := keeps.bound.operands
  have hyields : Yields p (s'.context.evaluate p { loops := t.loops } b)
      (·.Brackets ty (Bound.Results p σ op l r)) := by
    rcases Program.build_operation hnode hl hr hparts.1 hparts.2 hbuild with
      rfl | ⟨a, _, c, _, v, rfl, rfl, hv, rfl⟩
    · exact Context.evaluate_brackets shares keeps consistent
    · cases hx
      cases hy
      rw [Context.evaluate, Evaluation.narrow]
      exact .pure (Bound.brackets_folded ty hv hz)
  exact (hyields.narrowed hflag).between hlimits havoids ⟨x, y, hx, hy, hz⟩

end Session

/-! A loop over `i` that adds three times `i` to the contents of an array, one of which lies near the
end of the type. -/
namespace NearLimit

def index : Term := ⟨⟨0⟩, .var "i" .int none⟩
def tripled : Term := ⟨⟨2⟩, .binary .mul index ⟨⟨1⟩, .literal (.int 3)⟩ .int⟩
def cell : Term := ⟨⟨3⟩, .access ⟨0⟩ [index]⟩
def sum : Term := ⟨⟨4⟩, .binary .add tripled cell .int⟩
def loop : Term := ⟨⟨5⟩, .forLoop ⟨0⟩ sum⟩

def program : Program where
  terms := #[index, ⟨⟨1⟩, .literal (.int 3)⟩, tripled, cell, sum, loop]
  loops := #[⟨"i", .int, .simple ⟨0, 10, 1⟩⟩]
  arrays := #[⟨"idx", ⟨.intArray, [10]⟩, some ⟨0, [2147483000, 5]⟩, true⟩]

def session : Session := ((Session.new loop {} ∅).prepare program).2

def operation : Bound :=
  .binary .add (.binary .mul (.var "i" .int) (.literal 3 .int) .int) (.array ⟨0⟩ "idx" .int) .int

lemma rangeOf?_eq (name : String) : session.context.rangeOf? program [⟨0⟩] name =
    if name = "i" then some (.literal 0 .int, .literal 10 .int, .literal 1 .int) else none := by
  by_cases hi : name = "i"
  · subst hi
    rfl
  · have hloop : Evaluation.loopOf? program session.context { loops := [⟨0⟩] } name = none := by
      have hloops : session.context.loops = [⟨0⟩] := rfl
      simp [Evaluation.loopOf?, hloops, Program.loop?, program, LoopId.toNat, Ne.symm hi]
    have hconst : session.context.constants.get? name = none := rfl
    simp only [Context.rangeOf?, hconst, hloop, hi, if_false, Option.bind_none]

lemma operation_keepsOrder : session.context.KeepsOrder program [⟨0⟩] operation where
  bound := .add (.byLiteral (.var _ _) (by decide : (0 : Int) ≤ (3 : Int64).toInt)) (.array _ _ _)
  ranges := by
    intro name start stop step _ h
    rw [rangeOf?_eq] at h
    split at h
    · cases h
      exact ⟨.literal _ _, .literal _ _, .literal _ _⟩
    · cases h

lemma assignment_consistent :
    session.context.Consistent program [⟨0⟩] operation fun _ => 9 where
  constant := by
    intro name value _ h
    cases h
  loopVariable := by
    intro name start stop step _ h
    rw [rangeOf?_eq] at h
    split at h
    · cases h
      exact ⟨0, 10, 1, .literal 0 .int, .literal 10 .int, .literal 1 .int, 9, by decide⟩
    · cases h

lemma program_sharesContents : program.SharesContents := by decide

/-- The sum comes within a thousand of the greatest integer of its type and keeps off it. -/
theorem sum_below_limit :
    session.context.overflowVerdicts.get? ⟨4⟩ = some false ∧
    session.context.Consistent program [⟨0⟩] operation (fun _ => 9) ∧
    (-2147483648 : Int64).toInt < (2147483027 : Int) ∧
      (2147483027 : Int) < (2147483647 : Int64).toInt := by
  have hverdict : session.context.overflowVerdicts.get? ⟨4⟩ = some false := by decide +kernel
  have htripled : (Bound.binary .mul (.var "i" .int) (.literal 3 .int) .int).Takes program
      (fun _ => 9) 27 := .binary_of_eq (.var "i" .int) (.literal 3 .int) rfl rfl
  have hcell : (Bound.array ⟨0⟩ "idx" .int).Takes program (fun _ => 9) (2147483000 : Int64).toInt :=
    .array rfl rfl (by decide : (2147483000 : Int64) ∈ [2147483000, 5])
  refine ⟨hverdict, assignment_consistent, ?_⟩
  refine Session.unchecked_operation_between_limits program_sharesContents
    (s := Session.new loop {} ∅) (t := ⟨sum, [⟨0⟩]⟩) rfl ?_ rfl rfl rfl rfl operation_keepsOrder
    hverdict assignment_consistent htripled hcell rfl
  intro u hu hid
  have htargets : (Session.new loop {} ∅).context.overflowChecks =
      [⟨sum, [⟨0⟩]⟩, ⟨tripled, [⟨0⟩]⟩] := rfl
  rw [htargets, List.mem_cons, List.mem_singleton] at hu
  rcases hu with rfl | rfl
  · rfl
  · exact absurd hid (by decide)

end NearLimit

end LoopSafety
