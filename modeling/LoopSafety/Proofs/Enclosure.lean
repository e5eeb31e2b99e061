import LoopSafety.Proofs.Settling
import LoopSafety.Proofs.Values

/-! Intervals that enclose the values of bounds.

On bounds whose operations keep the order of their operands, the ends that narrowing computes
position by position enclose every value, through any nesting of loops whose ranges depend on other
loops. -/
namespace LoopSafety

/-- Unless it leaves the check unsafe, the probe ends with a bound of a kind. -/
def Yields (p : Program) (m : Probing Bound) (kind : Bound → Prop) : Prop :=
  Settles p m fun r ok => ok = true → kind r

namespace Yields

variable {p : Program} {l r : Probing Bound} {P Q R : Bound → Prop}

theorem pure {b : Bound} (h : P b) : Yields p (Pure.pure b) P := Settles.pure fun _ => h

theorem mono (h : Yields p l P) (himp : ∀ b, P b → Q b) : Yields p l Q :=
  Settles.mono h fun b _ hb hok => himp b (hb hok)

/-- A probe and an operation on its result. Once the probe has left the check unsafe, nothing is asked
of the operation but that it is steady. -/
theorem apply {f : Bound → Probing Bound} (hl : Yields p l P) (hsteady : ∀ b, Steady p (f b))
    (hf : ∀ b, P b → Yields p (f b) R) : Yields p (l >>= f) R := by
  refine Settles.bind hl fun b ok hb => ?_
  cases ok with
  | false => exact Settles.mono (hsteady b) fun _ _ _ hall => by simp at hall
  | true => exact Settles.mono (hf b (hb rfl)) fun _ _ hr hok => hr hok

/-- Two probes and an operation on their results. -/
theorem combine {f : Bound → Bound → Probing Bound} (hl : Yields p l P) (hr : Yields p r Q)
    (hsteady : ∀ b₁ b₂, Steady p (f b₁ b₂)) (hf : ∀ b₁ b₂, P b₁ → Q b₂ → Yields p (f b₁ b₂) R) :
    Yields p (do f (← l) (← r)) R :=
  hl.apply (fun b₁ => .bind (.of_settles hr) (hsteady b₁)) fun b₁ h₁ =>
    hr.apply (hsteady b₁) fun b₂ h₂ => hf b₁ b₂ h₁ h₂

end Yields

/-- Unless it leaves the check unsafe, the probe ends with an interval that holds the values. -/
def Surrounds (p : Program) (m : Probing Bound) (values : Int → Prop) : Prop :=
  Settles p m fun r ok => ok = true → r.Encloses values

namespace Surrounds

variable {p : Program} {l r : Probing Bound} {V W U : Int → Prop}

theorem fail : Surrounds p Evaluation.fail V := Settles.fail (by simp)

theorem pure {b : Bound} (h : b.Encloses V) : Surrounds p (Pure.pure b) V := Settles.pure fun _ => h

theorem mono (h : Surrounds p l V) (himp : ∀ x, W x → V x) : Surrounds p l W :=
  Settles.mono h fun _ _ hr hok => (hr hok).mono himp

theorem apply {f : Bound → Probing Bound} (hl : Surrounds p l V) (hsteady : ∀ b, Steady p (f b))
    (hf : ∀ b, b.Encloses V → Surrounds p (f b) U) : Surrounds p (l >>= f) U :=
  Yields.apply hl hsteady hf

theorem combine {f : Bound → Bound → Probing Bound} (hl : Surrounds p l V) (hr : Surrounds p r W)
    (hsteady : ∀ b₁ b₂, Steady p (f b₁ b₂))
    (hf : ∀ b₁ b₂, b₁.Encloses V → b₂.Encloses W → Surrounds p (f b₁ b₂) U) :
    Surrounds p (do f (← l) (← r)) U :=
  Yields.combine hl hr hsteady hf

end Surrounds

namespace Evaluation

variable {p : Program}

lemma binaryInterval_eq {a b : Int64 × Int64} {op : BinaryOp} {lo hi : Int64} (ty : DataType)
    (hlo : op.apply a.1 b.1 = some lo) (hhi : op.apply a.2 b.2 = some hi)
    (hdiv : op.isDivision = true → 0 < (min b.1 b.2).toInt) :
    binaryInterval a op b ty = pure (.interval (ty.saturate lo) (ty.saturate hi) ty) := by
  have hsign : ¬(op.isDivision = true ∧ min b.1 b.2 ≤ 0 ∧ 0 ≤ max b.1 b.2) := by
    rintro ⟨hop, hle, -⟩
    have hzero := Int64.le_iff_toInt_le.mp hle
    rw [Int64.toInt_zero] at hzero
    have := hdiv hop
    omega
  simp [binaryInterval, applyBinary, hlo, hhi, hsign]

/-- An operation on intervals brackets every result between those at its ends. -/
lemma binaryInterval_brackets {a b : Int64 × Int64} {op : BinaryOp} {zlo zhi : Int} (ty : DataType)
    (hlo : op.onIntegers a.1.toInt b.1.toInt = some zlo)
    (hhi : op.onIntegers a.2.toInt b.2.toInt = some zhi)
    (hdiv : op.isDivision = true → 0 < (min b.1 b.2).toInt) :
    Yields p (binaryInterval a op b ty) fun r => r.Brackets ty fun z => zlo ≤ z ∧ z ≤ zhi := by
  obtain ⟨lo, hlo'⟩ := BinaryOp.exists_apply hlo
  obtain ⟨hi, hhi'⟩ := BinaryOp.exists_apply hhi
  rw [binaryInterval_eq ty hlo' hhi' hdiv]
  exact .pure ⟨_, _, zlo, zhi, Bound.interval?_interval _ _ _,
    DataType.toInt_saturate_apply ty hlo' hlo, DataType.toInt_saturate_apply ty hhi' hhi, fun _ => id⟩

lemma hull_surrounds {a b : Bound} {V W : Int → Prop} (ha : a.Encloses V) (hb : b.Encloses W)
    (ty : DataType) : Surrounds p (hull a b ty) fun x => V x ∨ W x := by
  obtain ⟨lo₁, hi₁, ha, hV⟩ := ha
  obtain ⟨lo₂, hi₂, hb, hW⟩ := hb
  rw [hull, ha, hb]
  refine .pure (Bound.encloses_interval fun x hx => ?_)
  simp only [Saturating.toInt_min, Saturating.toInt_max]
  rcases hx with hx | hx
  · have := hV x hx
    omega
  · have := hW x hx
    omega

/-- Contents lie between the extremes that stand for an array. -/
lemma extremes_enclose {b : Binding} {lo hi v : Int64} {s : Storage} (h : b.extremes? = some (lo, hi))
    (hs : b.storage = some s) (hv : v ∈ s.values) : lo.toInt ≤ v.toInt ∧ v.toInt ≤ hi.toInt := by
  simp only [Binding.extremes?, hs, Option.bind_some, Option.map_eq_some_iff, Prod.mk.injEq] at h
  obtain ⟨c, hc, rfl, rfl⟩ := h
  exact Contents.scan_encloses hc hv

end Evaluation

namespace Context

/-- The range of the loop whose variable a name is, unless the name is a constant. -/
def rangeOf? (p : Program) (ctx : Context) (loops : List LoopId) (name : String) :
    Option (Bound × Bound × Bound) :=
  match ctx.constants.get? name with
  | some _ => none
  | none => (Evaluation.loopOf? p ctx { loops } name).bind (Evaluation.rangeParts p ctx)

/-- The names that narrowing a bound may come across: those that stand in it and those that stand
in the range of a loop reached by name. -/
inductive Reaches (p : Program) (ctx : Context) (loops : List LoopId) (b : Bound) : String → Prop
  | mentioned {name} (h : b.Mentions name) : Reaches p ctx loops b name
  | ranged {outer name start stop step} (h : Reaches p ctx loops b outer)
      (hr : ctx.rangeOf? p loops outer = some (start, stop, step))
      (hm : start.Mentions name ∨ stop.Mentions name ∨ step.Mentions name) :
      Reaches p ctx loops b name

/-- A bound and all ranges that it reaches by name keep the order of their operands. -/
structure KeepsOrder (p : Program) (ctx : Context) (loops : List LoopId) (b : Bound) : Prop where
  bound : b.OrderPreserving
  ranges : ∀ {name start stop step}, ctx.Reaches p loops b name →
    ctx.rangeOf? p loops name = some (start, stop, step) →
    start.OrderPreserving ∧ stop.OrderPreserving ∧ step.OrderPreserving

/-- On the names that a bound reaches, an assignment gives constants their value, and loop variables
a value that their loop visits with start, stop and step under the same assignment. -/
structure Consistent (p : Program) (ctx : Context) (loops : List LoopId) (b : Bound)
    (σ : String → Int) : Prop where
  constant : ∀ {name value}, ctx.Reaches p loops b name → ctx.constants.get? name = some value →
    σ name = value.toInt
  loopVariable : ∀ {name start stop step}, ctx.Reaches p loops b name →
    ctx.rangeOf? p loops name = some (start, stop, step) →
    ∃ s t d, start.Takes p σ s ∧ stop.Takes p σ t ∧ step.Takes p σ d ∧ Visits s t d (σ name)

end Context

namespace Evaluation

section

variable {p : Program} {ctx : Context} {loops : List LoopId} {goal : Bound} {σ : String → Int}
  {induction : Frame → LoopId → Probing Bound} {frame : Frame}

/-- The bound of a name encloses its value if the bound of its loop does. -/
lemma resolve_surrounds (consistent : ctx.Consistent p loops goal σ) (hscopes : frame.scopes = [])
    {name : String} (hreach : ctx.Reaches p loops goal name)
    (hind : ∀ loop, ctx.constants.get? name = none → loopOf? p ctx frame name = some loop →
      Surrounds p (induction frame loop) (· = σ name)) (ty : DataType) :
    Surrounds p (resolve p ctx induction frame name ty) (· = σ name) := by
  have hscope : frame.scopes.findSome? (·.get? name) = none := by simp [hscopes]
  unfold resolve
  rw [hscope]
  cases hc : ctx.constants.get? name with
  | some value =>
    rw [consistent.constant hreach hc]
    exact .pure (Bound.encloses_literal value ty)
  | none =>
    cases hl : loopOf? p ctx frame name with
    | some loop => exact hind loop hc hl
    | none => exact .fail

lemma arrayContents_surrounds (shares : p.SharesContents) (id : ArrayId) (name : String)
    (ty : DataType) :
    Surrounds p (arrayContents p ctx id ty) ((Bound.array id name ty).Takes p σ) := by
  refine Settles.mono (arrayContents_settles shares ctx id ty) fun r ok hr hok => ?_
  obtain ⟨b, lo, hi, hid, hext, rfl⟩ := hr hok
  refine Bound.encloses_interval fun x hx => ?_
  cases hx with
  | array hb hs hv =>
    obtain rfl := Option.some.inj (hid.symm.trans hb)
    exact extremes_enclose hext hs hv

lemma narrow_either_surrounds {t e : Bound} (ty : DataType)
    (ht : Surrounds p (narrow p ctx induction frame t) (t.Takes p σ))
    (he : Surrounds p (narrow p ctx induction frame e) (e.Takes p σ)) :
    Surrounds p (narrow p ctx induction frame (.either t e ty)) ((Bound.either t e ty).Takes p σ) := by
  rw [narrow]
  refine .mono (.combine ht he (fun _ _ => .of_settles (hull_settles _ _ _))
    fun _ _ h₁ h₂ => hull_surrounds h₁ h₂ ty) fun x hx => ?_
  cases hx with
  | thenPart hx => exact .inl hx
  | elsePart hx => exact .inr hx

lemma narrow_builtin_surrounds {l r : Bound} (kind : Builtin) (ty : DataType)
    (hl : Surrounds p (narrow p ctx induction frame l) (l.Takes p σ))
    (hr : Surrounds p (narrow p ctx induction frame r) (r.Takes p σ)) :
    Surrounds p (narrow p ctx induction frame (.builtin kind l r ty))
      ((Bound.builtin kind l r ty).Takes p σ) := by
  rw [narrow]
  refine .combine hl hr (fun b₁ b₂ => ?_) fun b₁ b₂ h₁ h₂ => ?_
  · split
    · exact .pure _
    · exact .fail
  · obtain ⟨lo₁, hi₁, h₁, hl⟩ := h₁
    obtain ⟨lo₂, hi₂, h₂, hr⟩ := h₂
    rw [h₁, h₂]
    refine .pure (Bound.encloses_interval fun w hw => ?_)
    rw [Builtin.toInt_apply, Builtin.toInt_apply]
    cases hw with
    | builtin hx hy =>
      exact ⟨kind.onIntegers_mono (hl _ hx).1 (hr _ hy).1, kind.onIntegers_mono (hl _ hx).2 (hr _ hy).2⟩

lemma binary_steady (op : BinaryOp) (ty : DataType) (b₁ b₂ : Bound) :
    Steady p (match b₁.interval?, b₂.interval? with
      | some a, some b => binaryInterval a op b ty
      | _, _ => fail) := by
  split
  · exact binaryInterval_steady _ _ _ _
  · exact .fail

lemma narrow_add_brackets {l r : Bound} (ty : DataType)
    (hl : Surrounds p (narrow p ctx induction frame l) (l.Takes p σ))
    (hr : Surrounds p (narrow p ctx induction frame r) (r.Takes p σ)) :
    Yields p (narrow p ctx induction frame (.binary .add l r ty))
      (·.Brackets ty (Bound.Results p σ .add l r)) := by
  rw [narrow]
  refine Yields.combine hl hr (binary_steady .add ty) fun b₁ b₂ h₁ h₂ => ?_
  obtain ⟨lo₁, hi₁, h₁, hl⟩ := h₁
  obtain ⟨lo₂, hi₂, h₂, hr⟩ := h₂
  rw [h₁, h₂]
  have hdiv : BinaryOp.add.isDivision = true → 0 < (min lo₂ hi₂).toInt := by simp [BinaryOp.isDivision]
  refine .mono (binaryInterval_brackets ty rfl rfl hdiv) fun _ hb => hb.mono ?_
  rintro _ ⟨x, y, hx, hy, ⟨⟩⟩
  have hx := hl x hx
  have hy := hr y hy
  dsimp only
  omega

lemma narrow_byLiteral_brackets {l : Bound} {op : BinaryOp} {value : Int64} (t ty : DataType)
    (hop : op.GrowsBy value) (hl : Surrounds p (narrow p ctx induction frame l) (l.Takes p σ)) :
    Yields p (narrow p ctx induction frame (.binary op l (.literal value t) ty))
      (·.Brackets ty (Bound.Results p σ op l (.literal value t))) := by
  rw [narrow, narrow]
  simp only [pure_bind]
  refine Yields.apply hl (fun b => binary_steady op ty b _) fun b h => ?_
  obtain ⟨lo, hi, h, hl⟩ := h
  obtain ⟨zlo, hzlo⟩ := BinaryOp.exists_onIntegers hop lo.toInt
  obtain ⟨zhi, hzhi⟩ := BinaryOp.exists_onIntegers hop hi.toInt
  have hdiv : op.isDivision = true → 0 < (min value value).toInt := by
    intro hdiv
    have hpos : 0 < value.toInt := by
      cases op <;> simp [BinaryOp.isDivision, BinaryOp.GrowsBy] at hdiv hop
      exact hop
    simpa using hpos
  rw [h]
  refine .mono (binaryInterval_brackets (b := (value, value)) ty hzlo hzhi hdiv) fun _ hb => hb.mono ?_
  rintro z ⟨x, _, hx, ⟨⟩, hz⟩
  exact ⟨BinaryOp.onIntegers_mono hop (hl x hx).1 hzlo hz,
    BinaryOp.onIntegers_mono hop (hl x hx).2 hz hzhi⟩

/-- What brackets the exact results of an operation encloses its values. -/
lemma narrow_binary_surrounds {op : BinaryOp} {l r : Bound} {ty : DataType}
    (h : Yields p (narrow p ctx induction frame (.binary op l r ty))
      (·.Brackets ty (Bound.Results p σ op l r))) :
    Surrounds p (narrow p ctx induction frame (.binary op l r ty))
      ((Bound.binary op l r ty).Takes p σ) :=
  h.mono fun _ hb => hb.encloses.mono fun _ => Bound.Takes.exists_results

/-- Narrowing encloses the values of an order-preserving bound if it does so for the loop variables
that the bound reaches. -/
theorem narrow_surrounds (shares : p.SharesContents) (consistent : ctx.Consistent p loops goal σ)
    (hscopes : frame.scopes = [])
    (hind : ∀ name loop, ctx.Reaches p loops goal name → ctx.constants.get? name = none →
      loopOf? p ctx frame name = some loop → Surrounds p (induction frame loop) (· = σ name))
    {b : Bound} (hb : b.OrderPreserving)
    (hm : ∀ name, b.Mentions name → ctx.Reaches p loops goal name) :
    Surrounds p (narrow p ctx induction frame b) (b.Takes p σ) := by
  induction hb with
  | literal value ty =>
    rw [narrow]
    refine .mono (.pure (Bound.encloses_literal value ty)) fun x hx => ?_
    cases hx
    rfl
  | var name ty =>
    rw [narrow]
    have hreach := hm name (.var ty)
    refine .mono (resolve_surrounds consistent hscopes hreach (hind name · hreach) ty) fun x hx => ?_
    cases hx
    rfl
  | array id name ty =>
    rw [narrow]
    exact arrayContents_surrounds shares id name ty
  | @either _ _ ty _ _ iht ihe =>
    exact narrow_either_surrounds ty (iht fun name h => hm name (.thenPart h))
      (ihe fun name h => hm name (.elsePart h))
  | @builtin kind _ _ ty _ _ ihl ihr =>
    exact narrow_builtin_surrounds kind ty (ihl fun name h => hm name (.builtinLeft h))
      (ihr fun name h => hm name (.builtinRight h))
  | @add _ _ ty _ _ ihl ihr =>
    exact narrow_binary_surrounds (narrow_add_brackets ty
      (ihl fun name h => hm name (.binaryLeft h)) (ihr fun name h => hm name (.binaryRight h)))
  | @byLiteral _ _ _ t ty _ hop ihl =>
    exact narrow_binary_surrounds (narrow_byLiteral_brackets t ty hop
      (ihl fun name h => hm name (.binaryLeft h)))

end

variable {p : Program} {ctx : Context} {loops : List LoopId} {goal : Bound} {σ : String → Int}

/-- The interval of a loop variable encloses the value that the assignment gives it. -/
lemma inductionInterval_surrounds {start stop step : Bound} {s t d v : Int} (ty : DataType)
    (hs : start.Encloses (· = s)) (ht : stop.Encloses (· = t)) (hd : step.Encloses (· = d))
    (hv : Visits s t d v) :
    Surrounds p (inductionInterval start.interval? stop.interval? step.interval? ty) (· = v) := by
  obtain ⟨s₁, s₂, hstart, hs⟩ := hs
  obtain ⟨t₁, t₂, hstop, ht⟩ := ht
  obtain ⟨d₁, d₂, hstep, hd⟩ := hd
  have hs := hs s rfl
  have ht := ht t rfl
  have hd := hd d rfl
  refine Settles.mono (inductionInterval_settles _ _ _ ty) fun r ok hr hok => ?_
  obtain ⟨_, _, _, hstart', hstop', hstep', hr⟩ := hr hok
  rw [hstart, Option.some.injEq] at hstart'
  rw [hstop, Option.some.injEq] at hstop'
  rw [hstep, Option.some.injEq] at hstep'
  subst hstart' hstop' hstep'
  obtain ⟨hpos, rfl⟩ | ⟨hneg, rfl⟩ := hr
  · refine Bound.encloses_interval fun x hx => ?_
    subst hx
    exact hv.ascending hs.1 ht.2 hd.1 hpos
  · refine Bound.encloses_interval fun x hx => ?_
    subst hx
    exact hv.descending hs.2 ht.1 hd.2 hneg

/-- The bound of a loop variable encloses its value, through any chain of loops whose ranges depend on
each other. -/
theorem inductionBound_surrounds (shares : p.SharesContents) (keeps : ctx.KeepsOrder p loops goal)
    (consistent : ctx.Consistent p loops goal σ) (depth : Nat) {frame : Frame}
    (hloops : frame.loops = loops) (hscopes : frame.scopes = []) {name : String} {loop : LoopId}
    (hreach : ctx.Reaches p loops goal name) (hconst : ctx.constants.get? name = none)
    (hloop : loopOf? p ctx frame name = some loop) :
    Surrounds p (inductionBound p ctx depth frame loop) (· = σ name) := by
  induction depth generalizing frame name loop with
  | zero => exact .fail
  | succ depth ih =>
    rw [inductionBound]
    split
    · exact .fail
    · split
      · exact .fail
      · next start stop step hparts =>
        subst hloops
        have hrange : ctx.rangeOf? p frame.loops name = some (start, stop, step) := by
          have hloop' : loopOf? p ctx { loops := frame.loops } name = some loop := hloop
          simp only [Context.rangeOf?, hconst, hloop', Option.bind_some, hparts]
        -- the parts of the range are narrowed with one loop less to resolve
        have hinner {b : Bound} (hb : b.OrderPreserving)
            (hm : ∀ n, b.Mentions n → start.Mentions n ∨ stop.Mentions n ∨ step.Mentions n) :
            Surrounds p (narrow p ctx (inductionBound p ctx depth)
              { frame with resolving := loop :: frame.resolving } b) (b.Takes p σ) := by
          refine narrow_surrounds shares consistent ?_ ?_ hb fun n hn => .ranged hreach hrange (hm n hn)
          · exact hscopes
          · intro name' loop' hreach' hconst' hloop'
            refine ih ?_ ?_ hreach' hconst' hloop'
            · rfl
            · exact hscopes
        have hsteady := inductionBound_steady shares ctx depth
        obtain ⟨hstart, hstop, hstep⟩ := keeps.ranges hreach hrange
        obtain ⟨s, t, d, hs, ht, hd, hv⟩ := consistent.loopVariable hreach hrange
        refine (hinner hstart fun _ hn => .inl hn).apply (fun _ => .bind (narrow_steady ctx shares hsteady _ _)
          fun _ => .bind (narrow_steady ctx shares hsteady _ _)
            fun _ => .of_settles (inductionInterval_settles _ _ _ _)) fun b₁ h₁ => ?_
        refine (hinner hstop fun _ hn => .inr (.inl hn)).combine (hinner hstep fun _ hn => .inr (.inr hn))
          (fun _ _ => .of_settles (inductionInterval_settles _ _ _ _)) fun b₂ b₃ h₂ h₃ => ?_
        exact inductionInterval_surrounds _ (h₁.mono fun x hx => hx ▸ hs) (h₂.mono fun x hx => hx ▸ ht)
          (h₃.mono fun x hx => hx ▸ hd) hv

end Evaluation

namespace Context

variable {p : Program} (shares : p.SharesContents) {ctx : Context} {loops : List LoopId}
  {σ : String → Int}
include shares

/-- Narrowing encloses the values of every order-preserving part of a bound. -/
lemma narrow_part_surrounds {goal b : Bound} (keeps : ctx.KeepsOrder p loops goal)
    (consistent : ctx.Consistent p loops goal σ) (hb : b.OrderPreserving)
    (hm : ∀ name, b.Mentions name → goal.Mentions name) (depth : Nat) :
    Surrounds p (Evaluation.narrow p ctx (Evaluation.inductionBound p ctx depth) { loops } b)
      (b.Takes p σ) :=
  Evaluation.narrow_surrounds shares consistent rfl
    (fun _ _ hreach hconst hloop =>
      Evaluation.inductionBound_surrounds shares keeps consistent _ rfl rfl hreach hconst hloop)
    hb fun name hn => .mentioned (hm name hn)

/-- Narrowing encloses every value that an order-preserving bound takes under a consistent
assignment. -/
theorem evaluate_surrounds {b : Bound} (keeps : ctx.KeepsOrder p loops b)
    (consistent : ctx.Consistent p loops b σ) :
    Surrounds p (ctx.evaluate p { loops } b) (b.Takes p σ) :=
  narrow_part_surrounds shares keeps consistent keeps.bound (fun _ => id) _

/-- Narrowing brackets every exact result of an order-preserving operation under a consistent
assignment. -/
theorem evaluate_brackets {op : BinaryOp} {l r : Bound} {ty : DataType}
    (keeps : ctx.KeepsOrder p loops (.binary op l r ty))
    (consistent : ctx.Consistent p loops (.binary op l r ty) σ) :
    Yields p (ctx.evaluate p { loops } (.binary op l r ty))
      (·.Brackets ty (Bound.Results p σ op l r)) := by
  cases keeps.bound with
  | add hl hr =>
    exact Evaluation.narrow_add_brackets ty
      (narrow_part_surrounds shares keeps consistent hl (fun _ => .binaryLeft) _)
      (narrow_part_surrounds shares keeps consistent hr (fun _ => .binaryRight) _)
  | @byLiteral _ _ _ t _ hl hop =>
    exact Evaluation.narrow_byLiteral_brackets t ty hop
      (narrow_part_surrounds shares keeps consistent hl (fun _ => .binaryLeft) _)

end Context

end LoopSafety
