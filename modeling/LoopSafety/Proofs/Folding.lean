import LoopSafety.Proofs.Recursion

/-! Folding literals early or late.

Building folds an operation on two literals; without that the operation stays in the bound, and
narrowing carries it out. Both come to the same: a literal divisor that narrowing would find unsafe has
stopped the folding before. So a bound that was built narrows as the bound in which every operation is
left standing does, in every frame and with every cache. -/
namespace LoopSafety

namespace Evaluation

variable {p : Program} {ctx : Context} {ind : Frame → LoopId → Probing Bound}

/-- On two literals that fold, the ends of intervals are folded and no divisor is zero. -/
lemma binaryInterval_literals {op : BinaryOp} {a b v : Int64} (h : op.apply a b = some v)
    (ty : DataType) :
    binaryInterval (a, a) op (b, b) ty = pure (.literal (ty.saturate v) ty) := by
  have hdivisor : ¬(op.isDivision ∧ min b b ≤ 0 ∧ 0 ≤ max b b) := by
    rintro ⟨hdivision, hlo, hhi⟩
    have hzero : b = 0 := by
      rw [Int64.le_iff_toInt_le] at hlo hhi
      rw [← Int64.toInt_inj]
      simp only [Saturating.toInt_min, Saturating.toInt_max] at hlo hhi
      omega
    rw [(BinaryOp.apply_eq_none_iff op a b).mpr ⟨hdivision, hzero⟩] at h
    cases h
  have hends : applyBinary a op b = pure v := by
    rw [applyBinary, h]
  unfold binaryInterval
  dsimp only
  rw [if_neg hdivisor, hends]
  simp only [pure_bind, Bound.interval, if_true]

lemma narrowArgs_congr {frame : Frame} {bs bs' : List Bound}
    (h : List.Forall₂ (fun b b' => narrow p ctx ind frame b = narrow p ctx ind frame b') bs bs') :
    narrowArgs p ctx ind frame bs = narrowArgs p ctx ind frame bs' := by
  induction h with
  | nil => rfl
  | cons hb _ ih => rw [narrowArgs, narrowArgs, hb, ih]

lemma narrowParams_congr {frame : Frame} {bs bs' : List (String × Bound)}
    (h : List.Forall₂ (fun x y => x.1 = y.1 ∧
      narrow p ctx ind frame x.2 = narrow p ctx ind frame y.2) bs bs') (scope : Table String Bound) :
    narrowParams p ctx ind frame bs scope = narrowParams p ctx ind frame bs' scope := by
  induction h generalizing scope with
  | nil => rfl
  | @cons x y _ _ hxy _ ih =>
    obtain ⟨name, b⟩ := x
    obtain ⟨name', b'⟩ := y
    obtain ⟨rfl, hb⟩ := hxy
    rw [narrowParams, narrowParams, hb]
    simp only [ih]

end Evaluation

/-- A bound that has not failed and another one that narrows as it does, under all circumstances. -/
def Bound.NarrowsLike (p : Program) (b b' : Bound) : Prop :=
  b ≠ .fail ∧ ∀ ctx ind frame,
    Evaluation.narrow p ctx ind frame b = Evaluation.narrow p ctx ind frame b'

namespace Build

/-- Every operation stays in the bound. -/
def symbolic (_ : Term) (op : BinaryOp) (left right : Bound) (ty : DataType) : Except Error Bound :=
  .ok (.binary op left right ty)

variable {p : Program}

/-- Operands that have not failed are two literals that fold, or stay, or the divisor is zero. -/
lemma folding_cases_of_ne_fail {left right : Bound} (hleft : left ≠ .fail) (hright : right ≠ .fail)
    (t : Term) (op : BinaryOp) (ty : DataType) :
    (∃ a b v tyA tyB, left = .literal a tyA ∧ right = .literal b tyB ∧ op.apply a b = some v ∧
      folding p t op left right ty = .ok (.literal (ty.saturate v) ty)) ∨
    folding p t op left right ty = .ok (.binary op left right ty) ∨
    folding p t op left right ty = .error (.unsupported (p.describe t) .zeroDivisor) := by
  unfold folding arith
  split
  · exact absurd rfl hleft
  · exact absurd rfl hright
  · split
    · next v hv => exact .inl ⟨_, _, v, _, _, rfl, rfl, hv, rfl⟩
    · exact .inr (.inr rfl)
  · exact .inr (.inl rfl)

lemma narrowsLike_binary {l l' r r' : Bound} (op : BinaryOp) (ty : DataType)
    (hl : l.NarrowsLike p l') (hr : r.NarrowsLike p r') :
    (Bound.binary op l r ty).NarrowsLike p (.binary op l' r' ty) := by
  refine ⟨by simp, fun ctx ind frame => ?_⟩
  rw [Evaluation.narrow, Evaluation.narrow, hl.2, hr.2]

lemma narrowsLike_literals {l' r' : Bound} {op : BinaryOp} {a b v : Int64} {tyA tyB : DataType}
    (hv : op.apply a b = some v) (ty : DataType) (hl : (Bound.literal a tyA).NarrowsLike p l')
    (hr : (Bound.literal b tyB).NarrowsLike p r') :
    (Bound.literal (ty.saturate v) ty).NarrowsLike p (.binary op l' r' ty) := by
  refine ⟨by simp, fun ctx ind frame => ?_⟩
  rw [Evaluation.narrow, Evaluation.narrow, ← hl.2, ← hr.2, Evaluation.narrow, Evaluation.narrow]
  exact (Evaluation.binaryInterval_literals hv ty).symm

/-- All constructs narrow by what their parts narrow to, and folding comes to what narrowing would. -/
lemma symbolic_respects (p : Program) :
    Builder.Respects p symbolic False (Bound.NarrowsLike p) where
  literal _ _ := ⟨by simp, fun _ _ _ => rfl⟩
  var _ _ := ⟨by simp, fun _ _ _ => rfl⟩
  array _ _ _ := ⟨by simp, fun _ _ _ => rfl⟩
  either ty ht he := by
    refine ⟨by simp, fun ctx ind frame => ?_⟩
    rw [Evaluation.narrow, Evaluation.narrow, ht.2, he.2]
  builtin kind ty hl hr := by
    refine ⟨by simp, fun ctx ind frame => ?_⟩
    rw [Evaluation.narrow, Evaluation.narrow, hl.2, hr.2]
  math fn ty hbs := by
    refine ⟨by simp, fun ctx ind frame => ?_⟩
    rw [Evaluation.narrow, Evaluation.narrow,
      Evaluation.narrowArgs_congr (hbs.imp fun _ _ hb => hb.2 ctx ind frame)]
  call name ty hparams hret := by
    refine ⟨by simp, fun ctx ind frame => ?_⟩
    have hnarrow : ∀ x y : String × Bound,
        (x.1 = y.1 ∧ (x.2.NarrowsLike p y.2 ∨ x.2 = .fail ∧ y.2 = .fail)) →
          x.1 = y.1 ∧ Evaluation.narrow p ctx ind frame x.2 = Evaluation.narrow p ctx ind frame y.2 := by
      rintro x y ⟨hname, hbound | ⟨hx, hy⟩⟩
      · exact ⟨hname, hbound.2 ctx ind frame⟩
      · exact ⟨hname, by rw [hx, hy]⟩
    rw [Evaluation.narrow, Evaluation.narrow, Evaluation.narrowParams_congr (hparams.imp hnarrow)]
    simp only [hret.2]
  arith t op ty hl hr := by
    obtain ⟨a, b, v, tyA, tyB, rfl, rfl, hv, hfold⟩ | hfold | hfold :=
      folding_cases_of_ne_fail (p := p) hl.1 hr.1 t op ty
    · exact .inl ⟨_, _, hfold, rfl, narrowsLike_literals hv ty hl hr⟩
    · exact .inl ⟨_, _, hfold, rfl, narrowsLike_binary op ty hl hr⟩
    · exact .inr ⟨_, _, hfold, False.elim⟩

end Build

namespace Program

open Build

variable {p : Program}

/-- What a builder keeps after it has been asked for a number of bounds. -/
def memoAfter (p : Program) (qs : List Query) : Memo :=
  qs.foldl (fun memo q => ((p.query q).run.run memo).2) ∅

lemma memoAfter_sound (qs : List Query) : Sound p (p.memoAfter qs) := by
  induction qs using List.reverseRecOn with
  | nil => exact sound_empty p
  | append_singleton qs q ih =>
    obtain ⟨memo, hs, hrun⟩ := query_run ih q
    rw [memoAfter, List.foldl_append, List.foldl_cons, List.foldl_nil]
    change Sound p ((p.query q).run.run (p.memoAfter qs)).2
    rwa [hrun]

/-- Whenever a bound is built, it is also built with all operations left standing, with calls nested as
deep as they ever are. The two narrow to the same bound with the same flag, in every context, under all
loops and scopes and from every state of narrowing. -/
theorem folded_narrows_like_symbolic {nodes : List (Node NodeId)} {loops : List LoopInfo}
    {arrays : List Binding} {functions : List FunctionDef}
    (hp : Program.ofTables nodes loops arrays functions = .ok p) {id : NodeId} {t : Term}
    (ht : p.term? id = some t) (qs : List Query) {bound : Bound} {memo : Memo}
    (h : (p.build t).run.run (p.memoAfter qs) = (.ok bound, memo)) :
    ∀ depth, p.functions.size < depth →
      ∃ unfolded b, (Builder.build p symbolic depth t).run.run {} = some (.ok unfolded, b) ∧
        ∀ (ctx : Context) (frame : Frame) (probe : Probe),
          (ctx.evaluate p frame bound).run probe = (ctx.evaluate p frame unfolded).run probe := by
  intro depth hdepth
  have closed := Program.ofTables_closed hp
  -- what was asked before is of no consequence, so both start with nothing
  obtain ⟨memo', -, hrun⟩ := query_run (p := p) (memoAfter_sound qs) (.node id)
  simp only [query, ht] at hrun
  rw [h] at hrun
  have hnew : ((p.build t).run.run ∅).1 = .ok bound := (congrArg Prod.fst hrun).symm
  have hbuild :=
    Builder.build_accompanies (symbolic_respects p) closed (closed.term ht) [] hdepth ∅ ∅ .empty
  obtain ⟨a, unfolded, s, s', hx, hy, hnarrow, -⟩ | ⟨text, obstacle, s, hx, -⟩ := hbuild
  · change (p.build t).run.run ∅ = (.ok a, s) at hx
    rw [hx] at hnew
    cases hnew
    refine ⟨unfolded, _, hy, fun ctx frame probe => ?_⟩
    unfold Context.evaluate
    rw [hnarrow.2]
  · change (p.build t).run.run ∅ = _ at hx
    rw [hx] at hnew
    cases hnew

end Program

/-! A function that adds `2 * 3` to its argument, called with `2 * 3`. -/
namespace Product

def nodes : List (Node NodeId) :=
  [.literal (.int 2), .literal (.int 3), .binary .mul ⟨0⟩ ⟨1⟩ .int, .var "x" .int none,
    .binary .add ⟨3⟩ ⟨2⟩ .int, .call ⟨0⟩ [⟨2⟩]]

def functions : List FunctionDef := [⟨"shift", [⟨"x", .int⟩], ⟨4⟩, .int⟩]

def product : Term := ⟨⟨2⟩, .binary .mul ⟨⟨0⟩, .literal (.int 2)⟩ ⟨⟨1⟩, .literal (.int 3)⟩ .int⟩
def param : Term := ⟨⟨3⟩, .var "x" .int none⟩
def result : Term := ⟨⟨4⟩, .binary .add param product .int⟩
def call : Term := ⟨⟨5⟩, .call ⟨0⟩ [product]⟩

def program : Program where
  terms := #[⟨⟨0⟩, .literal (.int 2)⟩, ⟨⟨1⟩, .literal (.int 3)⟩, product, param, result, call]
  functions := functions.toArray

lemma ofTables_eq : Program.ofTables nodes [] [] functions = .ok program := rfl

lemma call_entry : program.term? ⟨5⟩ = some call := rfl

/-- Both products are folded, in the argument and in the result. -/
def bound : Bound :=
  .call "shift" [("x", .literal 6 .int)] (.binary .add (.var "x" .int) (.literal 6 .int) .int) .int

/-- Folded or not, the call comes to twelve. -/
theorem products_narrow_to_twelve :
    ∃ unfolded b, (Builder.build program Build.symbolic 2 call).run.run {} = some (.ok unfolded, b) ∧
      ((({} : Context).evaluate program {} bound).run {}).1 = .literal 12 .int ∧
      ((({} : Context).evaluate program {} unfolded).run {}).1 = .literal 12 .int := by
  have hbuild : (program.build call).run.run (program.memoAfter [.node ⟨2⟩]) =
      (.ok bound, ⟨[(⟨0⟩, bound)]⟩) := rfl
  obtain ⟨unfolded, b, hrun, hnarrow⟩ :=
    Program.folded_narrows_like_symbolic ofTables_eq call_entry [.node ⟨2⟩] hbuild 2 (by decide)
  have htwelve : ((({} : Context).evaluate program {} bound).run {}).1 = .literal 12 .int := by rfl
  refine ⟨unfolded, b, hrun, htwelve, ?_⟩
  rw [← hnarrow]
  exact htwelve

end Product

end LoopSafety
