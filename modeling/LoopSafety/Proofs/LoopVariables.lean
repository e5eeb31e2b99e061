import LoopSafety.Proofs.Privatization

/-! Loops that write their own variable.

The subscript test tells iterations apart by an index that is the loop variable. It asks of the loop
variable what it asks of every scalar, that it is not carried: a body that reads the variable may not
write it later, but one that is sure to write it first may, and then the index is no longer the number
of the iteration. -/
namespace LoopSafety

namespace Nest

variable {x : String}

mutual

/-- An access to a cell comes with reads of the scalars among its indices. -/
theorem Expr.index_read {conditional : Bool} {label : String} {array : String} {is : List Expr}
    {write : Bool} {site : String} : ∀ {e : Expr},
    Effect.cell array is write site ∈ e.effects conditional label → .var x ∈ is →
      Effect.scalar x false conditional ∈ e.effects conditional label
  | .var _, h, _ | .literal _, h, _ => by simp [Expr.effects] at h
  | .binary _ lhs rhs, h, hx => by
    rw [Expr.effects, List.mem_append] at h ⊢
    exact h.imp (fun h => Expr.index_read h hx) fun h => Expr.index_read h hx
  | .unary _ operand, h, hx => Expr.index_read (e := operand) h hx
  | .subscript array' indices, h, hx => by
    rw [Expr.effects, List.mem_append] at h ⊢
    rcases h with h | h
    · exact .inl (Expr.index_readOf h hx)
    · cases List.mem_singleton.mp h
      exact .inl (Expr.var_readOf hx)
  | .ternary c t e, h, hx => by
    rw [Expr.effects, List.mem_append, List.mem_append] at h ⊢
    exact h.imp (Or.imp (fun h => Expr.index_read h hx) fun h => Expr.index_read h hx)
      fun h => Expr.index_read h hx
  | .intrinsic _ args, h, hx => by
    rw [Expr.effects] at h ⊢
    exact Expr.index_readOf h hx
  | .call _ args, h, hx => by
    rw [Expr.effects, List.mem_cons] at h ⊢
    rcases h with h | h
    · cases h
    · exact .inr (Expr.index_readOf h hx)

theorem Expr.index_readOf {conditional : Bool} {label : String} {array : String} {is : List Expr}
    {write : Bool} {site : String} : ∀ {es : List Expr},
    Effect.cell array is write site ∈ Expr.effectsOf conditional label es → .var x ∈ is →
      Effect.scalar x false conditional ∈ Expr.effectsOf conditional label es
  | [], h, _ => by simp [Expr.effectsOf] at h
  | e :: es, h, hx => by
    rw [Expr.effectsOf, List.mem_append] at h ⊢
    exact h.imp (fun h => Expr.index_read h hx) fun h => Expr.index_readOf h hx

theorem Expr.var_readOf {conditional : Bool} {label : String} : ∀ {es : List Expr},
    .var x ∈ es → Effect.scalar x false conditional ∈ Expr.effectsOf conditional label es
  | [], h => by simp at h
  | e :: es, h => by
    rw [Expr.effectsOf, List.mem_append]
    rcases List.mem_cons.mp h with rfl | h
    · exact .inl List.mem_cons_self
    · exact .inr (Expr.var_readOf h)

end

lemma Expr.target_index_read {conditional : Bool} {label array site : String} {is : List Expr}
    {write : Bool} {target : Expr}
    (h : Effect.cell array is write site ∈ target.targetEffects conditional label)
    (hx : .var x ∈ is) :
    Effect.scalar x false conditional ∈ target.targetEffects conditional label := by
  cases target with
  | var y => simp [Expr.targetEffects] at h
  | subscript array' indices =>
    rw [Expr.targetEffects, List.mem_append] at h ⊢
    rcases h with h | h
    · exact .inl (Expr.index_readOf h hx)
    · cases List.mem_singleton.mp h
      exact .inl (Expr.var_readOf hx)
  | _ => exact Expr.index_read h hx

lemma LoopHead.index_read {conditional : Bool} {array site : String} {is : List Expr} {write : Bool}
    {head : LoopHead} (h : Effect.cell array is write site ∈ head.effects conditional)
    (hx : .var x ∈ is) : Effect.scalar x false conditional ∈ head.effects conditional := by
  simp only [LoopHead.effects, List.mem_append, List.mem_singleton] at h ⊢
  rcases h with ((h | h) | h) | h
  · exact .inl (.inl (.inl (Expr.index_read h hx)))
  · exact .inl (.inl (.inr (Expr.index_read h hx)))
  · exact .inl (.inr (Expr.index_read h hx))
  · cases h

mutual

theorem Stmt.index_read {array site : String} {is : List Expr} {write : Bool} :
    ∀ {s : Stmt} {conditional : Bool}, Effect.cell array is write site ∈ s.effects conditional →
      .var x ∈ is → ∃ c, Effect.scalar x false c ∈ s.effects conditional
  | .assign label target value, conditional, h, hx => by
    rw [Stmt.effects, List.mem_append] at h
    refine ⟨conditional, ?_⟩
    rw [Stmt.effects, List.mem_append]
    exact h.imp (fun h => Expr.index_read h hx) fun h => Expr.target_index_read h hx
  | .expr label e, conditional, h, hx => ⟨conditional, Expr.index_read (e := e) h hx⟩
  | .cond label c thenPart elsePart, conditional, h, hx => by
    rw [Stmt.effects, List.mem_append, List.mem_append] at h
    rcases h with (h | h) | h
    · exact ⟨conditional, by simp [Stmt.effects, Expr.index_read h hx]⟩
    · obtain ⟨c', hc⟩ := Stmt.index_readOf h hx
      exact ⟨c', by simp [Stmt.effects, hc]⟩
    · obtain ⟨c', hc⟩ := Stmt.index_readOf h hx
      exact ⟨c', by simp [Stmt.effects, hc]⟩
  | .loop head body, conditional, h, hx => by
    rw [Stmt.effects, List.mem_append] at h
    rcases h with h | h
    · exact ⟨conditional, by simp [Stmt.effects, LoopHead.index_read h hx]⟩
    · obtain ⟨c', hc⟩ := Stmt.index_readOf h hx
      exact ⟨c', by simp [Stmt.effects, hc]⟩
  | .brk _, _, h, _ => by simp [Stmt.effects] at h

theorem Stmt.index_readOf {array site : String} {is : List Expr} {write : Bool} :
    ∀ {ss : List Stmt} {conditional : Bool},
      Effect.cell array is write site ∈ Stmt.effectsOf conditional ss → .var x ∈ is →
        ∃ c, Effect.scalar x false c ∈ Stmt.effectsOf conditional ss
  | [], _, h, _ => by simp [Stmt.effectsOf] at h
  | s :: ss, conditional, h, hx => by
    rw [Stmt.effectsOf, List.mem_append] at h
    rcases h with h | h
    · obtain ⟨c, hc⟩ := Stmt.index_read h hx
      exact ⟨c, by simp [Stmt.effectsOf, hc]⟩
    · obtain ⟨c, hc⟩ := Stmt.index_readOf h hx
      exact ⟨c, by simp [Stmt.effectsOf, hc]⟩

end

namespace Loop

variable {l : Loop} {array : String}

/-- An independent loop that writes an array reads its variable. -/
lemma variable_read (hind : l.isIndependent) (harray : array ∈ Stmt.storedOf l.body) :
    ∃ c, Effect.scalar l.head.induction false c ∈ l.effects := by
  obtain ⟨indices, label, hwrite⟩ := Stmt.storedOf_effect false harray
  have hpasses := isIndependent_iff.mp hind
  exact Stmt.index_readOf hwrite (hpasses.separated array indices label hwrite).1

/-- In an independent loop that leaves its variable alone, the cells of a written array have the value
of the variable among their indices. -/
lemma variable_mem_indices {α : Type} {M : Meaning α} {s s' : Memory α} {t : List (Event α)}
    {exit : Exit} {vs : List α} (hind : l.isIndependent) (harray : array ∈ Stmt.storedOf l.body)
    (hkept : ¬Stmt.Writes l.head.induction l.body) (hrun : ExecList M s l.body t s' exit)
    (htouch : Touches t array vs) : s.scalars l.head.induction ∈ vs := by
  have hpasses := isIndependent_iff.mp hind
  have quiet : Quiet l.head.induction l.effects :=
    ⟨hpasses.known, fun c hc => hkept (Stmt.writes_iff.mpr ⟨c, hc⟩)⟩
  obtain ⟨write, hevent⟩ := htouch
  obtain ⟨indices, label, heffect, hpinned⟩ :=
    (hrun.keeps quiet (List.Subset.refl _)).2 _ hevent
  obtain ⟨expected, label', hwrite⟩ := Stmt.storedOf_effect false harray
  obtain ⟨hvar, hsame⟩ := hpasses.separated array expected label' hwrite
  obtain rfl := hsame indices write label heffect
  obtain ⟨k, hk⟩ := List.mem_iff_getElem?.mp hvar
  exact List.mem_of_getElem? (hpinned k hk)

end Loop

/-- A loop that the subscript test reports and that writes an array also writes its own variable
exactly if it is sure to do so before any read. Where it does not, every cell that an iteration touches
in the array has the value of the variable among its indices. -/
theorem reported_variable_written_iff {n : Nest} (hlabels : n.loopLabels.Nodup) {l : Loop}
    (hl : l ∈ n.loops) (hreported : l.head.label ∈ n.subscriptTest.independent) {array : String}
    (harray : array ∈ Stmt.storedOf l.body) :
    (Stmt.Writes l.head.induction l.body ↔ WrittenFirst l.head.induction l.effects) ∧
      (¬WrittenFirst l.head.induction l.effects →
        ∀ {α : Type} (M : Meaning α) (s s' : Memory α) (t : List (Event α)) (exit : Exit),
          ExecList M s l.body t s' exit → ∀ vs, Touches t array vs →
            s.scalars l.head.induction ∈ vs) := by
  have hind := (mem_independent_iff hlabels hl).mp hreported
  have hiff : Stmt.Writes l.head.induction l.body ↔ WrittenFirst l.head.induction l.effects := by
    constructor
    · intro hwrites
      obtain ⟨c, hwrite⟩ := Stmt.writes_iff.mp hwrites
      rcases Loop.find?_of_uncarried (Loop.uncarried_of_isIndependent hind hwrite) with h | h
      · obtain ⟨c', hread⟩ := Loop.variable_read hind harray
        exact absurd hread ((unread_of_find?_eq_none (Loop.unknown_not_mem hind) h).unread c')
      · exact h
    · exact fun h => Stmt.writes_iff.mpr ⟨false, h.mem⟩
  refine ⟨hiff, fun hfirst α M s s' t exit hrun vs htouch => ?_⟩
  exact Loop.variable_mem_indices hind harray (fun hwrites => hfirst (hiff.mp hwrites)) hrun htouch

end Nest

/-! `A[i] = 0` in a loop over `i`, with or without `i = 5` before it. -/
namespace Pinning

open Nest

def pin : Stmt := .assign "S1" (.var "i") (.literal 5)
def clear : Stmt := .assign "S2" (.subscript "A" [.var "i"]) (.literal 0)

def loop (pinned : Bool) : Loop :=
  ⟨⟨"L", "i", .literal 0, .literal 10, .literal 1⟩, if pinned then [pin, clear] else [clear]⟩

def nest (pinned : Bool) : Nest := ⟨loop pinned, [], ∅⟩

lemma labels_nodup (pinned : Bool) : (nest pinned).loopLabels.Nodup := by
  cases pinned <;> decide +kernel

lemma reported (pinned : Bool) : "L" ∈ (nest pinned).subscriptTest.independent :=
  (mem_independent_iff (labels_nodup pinned) (l := loop pinned) List.mem_cons_self).mpr
    (by cases pinned <;> decide +kernel)

lemma stored (pinned : Bool) : "A" ∈ Stmt.storedOf (loop pinned).body := by
  cases pinned <;> decide +kernel

/-- An iteration without the assignment touches the cell of its number. -/
lemma clear_run (i : Int) : ∃ t s', ExecList .adding (.iteration i) (loop false).body t s' .normal ∧
    Touches t "A" [i] := by
  refine ⟨_, _, .cons (.assignCell (.literal _ _) (.cons (.var _ _) (.nil _))) (.nil _), true, ?_⟩
  simp [Memory.iteration]

/-- An iteration with the assignment touches the cell at 5, whatever its number. -/
lemma pinned_run (i : Int) : ∃ t s', ExecList .adding (.iteration i) (loop true).body t s' .normal ∧
    Touches t "A" [5] := by
  refine ⟨_, _, .cons (.assignScalar (.literal _ _)) (.cons (.assignCell (.literal _ _)
    (.cons (.var _ _) (.nil _))) (.nil _)), true, ?_⟩
  simp [Meaning.adding, Memory.setScalar]

/-- Without the assignment the variable is kept, and iteration 3 touches the cell at 3. -/
theorem kept_variable_indexes :
    (nest false).loopLabels.Nodup ∧ "L" ∈ (nest false).subscriptTest.independent ∧
    "A" ∈ Stmt.storedOf (loop false).body ∧ ¬WrittenFirst "i" (loop false).effects ∧
    ¬Stmt.Writes "i" (loop false).body ∧
    ∃ t s', ExecList .adding (.iteration 3) (loop false).body t s' .normal ∧ Touches t "A" [3] ∧
      ∀ vs, Touches t "A" vs → 3 ∈ vs := by
  have hspec := reported_variable_written_iff (labels_nodup false) (l := loop false)
    List.mem_cons_self (reported false) (stored false)
  have hwrites : ¬Stmt.Writes "i" (loop false).body := by decide +kernel
  have hfirst : ¬WrittenFirst "i" (loop false).effects := fun h => hwrites (hspec.1.mpr h)
  obtain ⟨t, s', hrun, htouch⟩ := clear_run 3
  exact ⟨labels_nodup false, reported false, stored false, hfirst, hwrites, t, s', hrun, htouch,
    fun vs h => hspec.2 hfirst .adding _ _ _ _ hrun vs h⟩

/-- With the assignment the loop is reported all the same, and all iterations write one cell. -/
theorem overwritten_variable_reported :
    (nest true).loopLabels.Nodup ∧ loop true ∈ (nest true).loops ∧
    "L" ∈ (nest true).subscriptTest.independent ∧ "A" ∈ Stmt.storedOf (loop true).body ∧
    "i" ∈ Stmt.assignedOf (loop true).body ∧
    ∃ t₁ t₂ s₁ s₂, ExecList .adding (.iteration 0) (loop true).body t₁ s₁ .normal ∧
      ExecList .adding (.iteration 1) (loop true).body t₂ s₂ .normal ∧ Touches t₁ "A" [5] ∧
      Touches t₂ "A" [5] := by
  obtain ⟨t₁, s₁, hrun₁, htouch₁⟩ := pinned_run 0
  obtain ⟨t₂, s₂, hrun₂, htouch₂⟩ := pinned_run 1
  exact ⟨labels_nodup true, List.mem_cons_self, reported true, stored true, by decide +kernel,
    t₁, t₂, s₁, s₂, hrun₁, hrun₂, htouch₁, htouch₂⟩

end Pinning

end LoopSafety
