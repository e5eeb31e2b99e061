import LoopSafety.Proofs.Scanning
import LoopSafety.Session.Evaluation

/-! What narrowing comes to, whatever has been scanned before.

A probe settles on a value and on a flag if it arrives at both from every faithful cache. Probes
that settle compose, so a property of the value and the flag is shown construct by construct
without a word on the cache. That narrowing comes to one value at all needs no faithful cache: it is
enough that reading an array comes to one. -/
namespace LoopSafety

lemma run_bind_of_run {σ α β : Type} {x : StateM σ α} {s s' : σ} {a : α} (h : x.run s = (a, s'))
    (f : α → StateM σ β) : (x >>= f).run s = (f a).run s' := by
  rw [StateT.run_bind, h]
  rfl

/-- From every faithful cache the probe ends with one value and one effect on the flag, with the
stated property, and leaves a faithful cache. -/
def Settles (p : Program) {α : Type} (m : Probing α) (post : α → Bool → Prop) : Prop :=
  ∃ a ok, post a ok ∧ ∀ safe scans, ScanCache.Describes p scans →
    ∃ scans', ScanCache.Describes p scans' ∧ m.run ⟨safe, scans⟩ = (a, ⟨safe && ok, scans'⟩)

namespace Settles

variable {p : Program} {α β : Type} {m : Probing α} {f : α → Probing β}

theorem mono {post post' : α → Bool → Prop} (h : Settles p m post)
    (himp : ∀ a ok, post a ok → post' a ok) : Settles p m post' := by
  obtain ⟨a, ok, hpost, hrun⟩ := h
  exact ⟨a, ok, himp a ok hpost, hrun⟩

theorem pure {post : α → Bool → Prop} {a : α} (h : post a true) :
    Settles p (Pure.pure a : Probing α) post := by
  refine ⟨a, true, h, fun safe scans hs => ⟨scans, hs, ?_⟩⟩
  rw [Bool.and_true]
  rfl

theorem bind {mid : α → Bool → Prop} {post : β → Bool → Prop} (h : Settles p m mid)
    (hf : ∀ a ok, mid a ok → Settles p (f a) fun b ok' => post b (ok && ok')) :
    Settles p (m >>= f) post := by
  obtain ⟨a, ok, hmid, hrun⟩ := h
  obtain ⟨b, ok', hpost, hrun'⟩ := hf a ok hmid
  refine ⟨b, ok && ok', hpost, fun safe scans hs => ?_⟩
  obtain ⟨scans₁, hs₁, heq₁⟩ := hrun safe scans hs
  obtain ⟨scans₂, hs₂, heq₂⟩ := hrun' (safe && ok) scans₁ hs₁
  refine ⟨scans₂, hs₂, ?_⟩
  rw [StateT.run_bind, heq₁, ← Bool.and_assoc]
  exact heq₂

theorem fail {post : Bound → Bool → Prop} (h : post .fail false) :
    Settles p Evaluation.fail post := by
  refine ⟨.fail, false, h, fun safe scans hs => ⟨scans, hs, ?_⟩⟩
  rw [Bool.and_false]
  rfl

end Settles

/-- The probe comes to the same from every faithful cache. -/
def Steady (p : Program) {α : Type} (m : Probing α) : Prop := Settles p m fun _ _ => True

namespace Steady

variable {p : Program} {α β : Type} {m : Probing α} {f : α → Probing β}

theorem of_settles {post : α → Bool → Prop} (h : Settles p m post) : Steady p m :=
  h.mono fun _ _ _ => trivial

theorem pure (a : α) : Steady p (Pure.pure a : Probing α) := Settles.pure trivial

theorem fail : Steady p Evaluation.fail := Settles.fail trivial

theorem bind (h : Steady p m) (hf : ∀ a, Steady p (f a)) : Steady p (m >>= f) :=
  Settles.bind h fun a _ _ => hf a

/-- A run from a faithful cache differs from the run from no cache in the cache alone. -/
theorem run_eq (h : Steady p m) (safe : Bool) {scans : ScanCache} (hs : scans.Describes p) :
    ∃ scans', ScanCache.Describes p scans' ∧
      m.run ⟨safe, scans⟩ = ((m.run {}).1, ⟨safe && (m.run {}).2.safe, scans'⟩) := by
  obtain ⟨a, ok, -, hrun⟩ := h
  obtain ⟨scans₀, -, heq₀⟩ := hrun true {} (ScanCache.describes_empty p)
  obtain ⟨scans', hs', heq⟩ := hrun safe scans hs
  refine ⟨scans', hs', ?_⟩
  have hempty : m.run {} = (a, ⟨true && ok, scans₀⟩) := heq₀
  rw [heq, hempty, Bool.true_and]

end Steady

/-- The probe comes to the same from every cache of a class, and leaves a cache of the class. -/
def SteadyOn (known : ScanCache → Prop) {α : Type} (m : Probing α) : Prop :=
  ∃ a ok, ∀ safe scans, known scans →
    ∃ scans', known scans' ∧ m.run ⟨safe, scans⟩ = (a, ⟨safe && ok, scans'⟩)

lemma steady_iff {p : Program} {α : Type} {m : Probing α} :
    Steady p m ↔ SteadyOn (ScanCache.Describes p) m := by
  simp only [Steady, Settles, SteadyOn, true_and]

namespace SteadyOn

variable {known : ScanCache → Prop} {α β : Type} {m : Probing α} {f : α → Probing β}

theorem pure (a : α) : SteadyOn known (Pure.pure a : Probing α) :=
  ⟨a, true, fun safe scans hs => ⟨scans, hs, by rw [Bool.and_true]; rfl⟩⟩

theorem markUnsafe : SteadyOn known Evaluation.markUnsafe :=
  ⟨(), false, fun safe scans hs => ⟨scans, hs, by rw [Bool.and_false]; rfl⟩⟩

theorem bind (h : SteadyOn known m) (hf : ∀ a, SteadyOn known (f a)) : SteadyOn known (m >>= f) := by
  obtain ⟨a, ok, hrun⟩ := h
  obtain ⟨b, ok', hrun'⟩ := hf a
  refine ⟨b, ok && ok', fun safe scans hs => ?_⟩
  obtain ⟨scans₁, hs₁, heq₁⟩ := hrun safe scans hs
  obtain ⟨scans₂, hs₂, heq₂⟩ := hrun' (safe && ok) scans₁ hs₁
  refine ⟨scans₂, hs₂, ?_⟩
  rw [run_bind_of_run heq₁, heq₂, Bool.and_assoc]

theorem fail : SteadyOn known Evaluation.fail := bind markUnsafe fun _ => pure _

end SteadyOn

namespace Evaluation

variable {p : Program}

lemma hull_settles (a b : Bound) (ty : DataType) :
    Settles p (hull a b ty) fun r ok => ok = true → ∃ a₁ a₂ b₁ b₂,
      a.interval? = some (a₁, a₂) ∧ b.interval? = some (b₁, b₂) ∧
      r = .interval (min (min (min a₁ a₂) b₁) b₂) (max (max (max a₁ a₂) b₁) b₂) ty := by
  unfold hull
  split
  · next a₁ a₂ b₁ b₂ ha hb => exact .pure fun _ => ⟨a₁, a₂, b₁, b₂, ha, hb, rfl⟩
  · exact .fail (by simp)

lemma applyBinary_steadyOn {known : ScanCache → Prop} (a : Int64) (op : BinaryOp) (b : Int64) :
    SteadyOn known (applyBinary a op b) := by
  unfold applyBinary
  split
  · exact .pure _
  · exact .bind .markUnsafe fun _ => .pure _

lemma binaryInterval_steadyOn {known : ScanCache → Prop} (a : Int64 × Int64) (op : BinaryOp)
    (b : Int64 × Int64) (ty : DataType) : SteadyOn known (binaryInterval a op b ty) := by
  have hends : SteadyOn known (do
      let lo ← applyBinary a.1 op b.1
      let hi ← applyBinary a.2 op b.2
      return Bound.interval (ty.saturate lo) (ty.saturate hi) ty) :=
    .bind (applyBinary_steadyOn _ _ _) fun _ => .bind (applyBinary_steadyOn _ _ _) fun _ => .pure _
  unfold binaryInterval
  split
  · exact .bind .markUnsafe fun _ => hends
  · exact hends

lemma binaryInterval_steady (a : Int64 × Int64) (op : BinaryOp) (b : Int64 × Int64)
    (ty : DataType) : Steady p (binaryInterval a op b ty) :=
  steady_iff.mpr (binaryInterval_steadyOn a op b ty)

/-- The variable of a loop runs between start and stop, upward or downward as the step says. -/
lemma inductionInterval_settles (start stop step : Option (Int64 × Int64)) (ty : DataType) :
    Settles p (inductionInterval start stop step ty) fun r ok => ok = true →
      ∃ s t d : Int64 × Int64, start = some s ∧ stop = some t ∧ step = some d ∧
        (0 < d.1 ∧ r = .interval s.1 (Saturating.sub t.2 1) ty ∨
          d.2 < 0 ∧ r = .interval (Saturating.add t.1 1) s.2 ty) := by
  unfold inductionInterval
  split
  · split
    · next hpos => exact .pure fun _ => ⟨_, _, _, rfl, rfl, rfl, .inl ⟨hpos, rfl⟩⟩
    · split
      · next hneg => exact .pure fun _ => ⟨_, _, _, rfl, rfl, rfl, .inr ⟨hneg, rfl⟩⟩
      · exact .fail (by simp)
  · exact .fail (by simp)

/-- An array stands for the extremes of its contents. -/
lemma arrayContents_settles (shares : p.SharesContents) (ctx : Context) (id : ArrayId)
    (ty : DataType) :
    Settles p (arrayContents p ctx id ty) fun r ok => ok = true → ∃ b lo hi,
      p.array? id = some b ∧ b.extremes? = some (lo, hi) ∧ r = .interval lo hi ty := by
  unfold arrayContents
  split
  · exact .fail (by simp)
  · next b hfilter =>
    obtain ⟨hid, -⟩ := Option.filter_eq_some_iff.mp hfilter
    have hb := Program.mem_arrays hid
    split
    · cases hext : b.extremes? with
      | some ends =>
        refine ⟨.interval ends.1 ends.2 ty, true, fun _ => ⟨b, ends.1, ends.2, hid, hext, rfl⟩, ?_⟩
        intro safe scans hs
        have hfound := ScanCache.getOrScan_extremes hs hb ctx.config.scanUniqueness
        refine ⟨_, ScanCache.describes_getOrScan shares hs hb ctx.config.scanUniqueness, ?_⟩
        rw [hext] at hfound
        obtain ⟨found, hsome, rfl⟩ := Option.map_eq_some_iff.mp hfound
        simp only [StateT.run_bind, StateT.run_get, pure_bind, hsome, Bool.and_true]
        rfl
      | none =>
        refine ⟨.fail, false, by simp, ?_⟩
        intro safe scans hs
        have hfound := ScanCache.getOrScan_extremes hs hb ctx.config.scanUniqueness
        refine ⟨_, ScanCache.describes_getOrScan shares hs hb ctx.config.scanUniqueness, ?_⟩
        rw [hext, Option.map_eq_none_iff] at hfound
        simp only [StateT.run_bind, StateT.run_get, pure_bind, hfound, Bool.and_false]
        rfl
    · exact .fail (by simp)

section

variable {known : ScanCache → Prop}

lemma hull_steadyOn (a b : Bound) (ty : DataType) : SteadyOn known (hull a b ty) := by
  unfold hull
  split
  · exact .pure _
  · exact .fail

lemma inductionInterval_steadyOn (start stop step : Option (Int64 × Int64)) (ty : DataType) :
    SteadyOn known (inductionInterval start stop step ty) := by
  unfold inductionInterval
  split
  · split
    · exact .pure _
    · split
      · exact .pure _
      · exact .fail
  · exact .fail

lemma mathInterval_steadyOn (fn : MathFn) (args : List (Int64 × Int64)) (ty : DataType) :
    SteadyOn known (mathInterval fn args ty) := by
  unfold mathInterval
  split
  · exact .pure _
  · exact .fail

variable (ctx : Context) {induction : Frame → LoopId → Probing Bound}

lemma resolve_steadyOn (hi : ∀ frame loop, SteadyOn known (induction frame loop)) (frame : Frame)
    (name : String) (ty : DataType) : SteadyOn known (resolve p ctx induction frame name ty) := by
  unfold resolve
  split
  · exact .pure _
  · split
    · exact .pure _
    · split
      · exact hi frame _
      · exact .fail

mutual

/-- Narrowing is steady if the contents of arrays and the bounds of loop variables are. -/
theorem narrow_steadyOn (harray : ∀ id ty, SteadyOn known (arrayContents p ctx id ty))
    (hi : ∀ frame loop, SteadyOn known (induction frame loop)) :
    ∀ (frame : Frame) (b : Bound), SteadyOn known (narrow p ctx induction frame b)
  | _, .literal _ _ => by
    rw [narrow]
    exact .pure _
  | frame, .limit lo hi' ty => by
    rw [narrow]
    exact .bind (narrow_steadyOn harray hi frame lo) fun _ =>
      .bind (narrow_steadyOn harray hi frame hi') fun _ => hull_steadyOn _ _ _
  | frame, .either t e ty => by
    rw [narrow]
    exact .bind (narrow_steadyOn harray hi frame t) fun _ =>
      .bind (narrow_steadyOn harray hi frame e) fun _ => hull_steadyOn _ _ _
  | frame, .range start stop step => by
    rw [narrow]
    exact .bind (narrow_steadyOn harray hi frame start) fun _ =>
      .bind (narrow_steadyOn harray hi frame stop) fun _ =>
        .bind (narrow_steadyOn harray hi frame step) fun _ => .pure _
  | frame, .var name ty => by
    rw [narrow]
    exact resolve_steadyOn ctx hi frame name ty
  | frame, .binary op left right ty => by
    rw [narrow]
    refine .bind (narrow_steadyOn harray hi frame left) fun l =>
      .bind (narrow_steadyOn harray hi frame right) fun r => ?_
    split
    · exact binaryInterval_steadyOn _ _ _ _
    · exact .fail
  | frame, .builtin kind left right ty => by
    rw [narrow]
    refine .bind (narrow_steadyOn harray hi frame left) fun l =>
      .bind (narrow_steadyOn harray hi frame right) fun r => ?_
    split
    · exact .pure _
    · exact .fail
  | frame, .math fn args ty => by
    rw [narrow]
    refine .bind (narrowArgs_steadyOn harray hi frame args) fun intervals => ?_
    split
    · exact mathInterval_steadyOn _ _ _
    · exact .fail
  | frame, .call name params ret ty => by
    rw [narrow]
    exact .bind (narrowParams_steadyOn harray hi frame params ∅) fun _ =>
      narrow_steadyOn harray hi _ ret
  | _, .array id _ ty => by
    rw [narrow]
    exact harray id ty
  | _, .fail => by
    rw [narrow]
    exact .fail

theorem narrowArgs_steadyOn (harray : ∀ id ty, SteadyOn known (arrayContents p ctx id ty))
    (hi : ∀ frame loop, SteadyOn known (induction frame loop)) :
    ∀ (frame : Frame) (bs : List Bound), SteadyOn known (narrowArgs p ctx induction frame bs)
  | _, [] => by
    rw [narrowArgs]
    exact .pure _
  | frame, b :: bs => by
    rw [narrowArgs]
    refine .bind (narrow_steadyOn harray hi frame b) fun r => ?_
    split
    · exact .pure _
    · exact .bind (narrowArgs_steadyOn harray hi frame bs) fun _ => .pure _

theorem narrowParams_steadyOn (harray : ∀ id ty, SteadyOn known (arrayContents p ctx id ty))
    (hi : ∀ frame loop, SteadyOn known (induction frame loop)) :
    ∀ (frame : Frame) (bs : List (String × Bound)) (scope : Table String Bound),
      SteadyOn known (narrowParams p ctx induction frame bs scope)
  | _, [], scope => by
    rw [narrowParams]
    exact .pure _
  | frame, (name, b) :: bs, scope => by
    rw [narrowParams]
    exact .bind (narrow_steadyOn harray hi frame b) fun _ =>
      narrowParams_steadyOn harray hi frame bs _

end

variable {ctx}

/-- The bounds of loop variables are steady if the contents of arrays are. -/
theorem inductionBound_steadyOn (harray : ∀ id ty, SteadyOn known (arrayContents p ctx id ty))
    (depth : Nat) (frame : Frame) (loop : LoopId) :
    SteadyOn known (inductionBound p ctx depth frame loop) := by
  induction depth generalizing frame loop with
  | zero => exact .fail
  | succ depth ih =>
    rw [inductionBound]
    split
    · exact .fail
    · split
      · exact .fail
      · next start stop step _ =>
        exact .bind (narrow_steadyOn ctx harray ih _ start) fun _ =>
          .bind (narrow_steadyOn ctx harray ih _ stop) fun _ =>
            .bind (narrow_steadyOn ctx harray ih _ step) fun _ => inductionInterval_steadyOn _ _ _ _

end

lemma arrayContents_steady (shares : p.SharesContents) (ctx : Context) (id : ArrayId)
    (ty : DataType) : SteadyOn (ScanCache.Describes p) (arrayContents p ctx id ty) :=
  steady_iff.mp (.of_settles (arrayContents_settles shares ctx id ty))

/-- Narrowing is steady if the bounds of loop variables are. -/
theorem narrow_steady (ctx : Context) {induction : Frame → LoopId → Probing Bound}
    (shares : p.SharesContents) (hi : ∀ frame loop, Steady p (induction frame loop)) (frame : Frame)
    (b : Bound) : Steady p (narrow p ctx induction frame b) :=
  steady_iff.mpr (narrow_steadyOn ctx (arrayContents_steady shares ctx)
    (fun frame loop => steady_iff.mp (hi frame loop)) frame b)

/-- The bound of a loop variable does not depend on what has been scanned. -/
theorem inductionBound_steady (shares : p.SharesContents) (ctx : Context) (depth : Nat)
    (frame : Frame) (loop : LoopId) : Steady p (inductionBound p ctx depth frame loop) :=
  steady_iff.mpr (inductionBound_steadyOn (arrayContents_steady shares ctx) depth frame loop)

end Evaluation

theorem Context.evaluate_steadyOn {p : Program} {ctx : Context} {known : ScanCache → Prop}
    (harray : ∀ id ty, SteadyOn known (Evaluation.arrayContents p ctx id ty)) (frame : Frame)
    (b : Bound) : SteadyOn known (ctx.evaluate p frame b) :=
  Evaluation.narrow_steadyOn ctx harray (Evaluation.inductionBound_steadyOn harray _) frame b

/-- What a bound narrows to does not depend on what has been scanned. -/
theorem Context.evaluate_steady {p : Program} (shares : p.SharesContents) (ctx : Context)
    (frame : Frame) (b : Bound) : Steady p (ctx.evaluate p frame b) :=
  steady_iff.mpr (evaluate_steadyOn (Evaluation.arrayContents_steady shares ctx) frame b)

end LoopSafety
