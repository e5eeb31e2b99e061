import Mathlib.Data.List.Nodup
import LoopSafety.Nest.Subscript
import LoopSafety.Proofs.Execution

/-! Independent loops keep their iterations apart.

Every access of a run is among the effects that the subscript test collects, in whatever position of
a statement it stands. Where an index is a scalar that nothing writes, the accessed cell has the value
of that scalar there; so one tuple of indices that holds the loop variable leads to different cells in
different iterations. -/
namespace LoopSafety

namespace Nest

variable {α : Type}

/-- Where an index is the scalar `x`, its value is `v`. -/
def Pinned (x : String) (v : α) (indices : List Expr) (vs : List α) : Prop :=
  ∀ k : Nat, indices[k]? = some (.var x) → vs[k]? = some v

/-- An access to a cell is one of the effects, and its indices are pinned by the scalar `x`. -/
def Accounts (x : String) (v : α) (effects : List Effect) : Event α → Prop
  | .scalar _ _ => True
  | .cell array vs write => ∃ indices label, Effect.cell array indices write label ∈ effects ∧
      Pinned x v indices vs

/-- A piece of a run that leaves a scalar alone and that some effects account for. -/
def Keeps (x : String) (effects : List Effect) (s : Memory α) (trace : List (Event α))
    (s' : Memory α) : Prop :=
  s'.scalars x = s.scalars x ∧ ∀ e ∈ trace, Accounts x (s.scalars x) effects e

section

variable {x : String} {effects : List Effect} {s s₁ s₂ : Memory α} {t t₁ t₂ : List (Event α)}

lemma Keeps.refl (s : Memory α) : Keeps x effects s [] s := ⟨rfl, by simp⟩

lemma Keeps.trans (h₁ : Keeps x effects s t₁ s₁) (h₂ : Keeps x effects s₁ t₂ s₂) :
    Keeps x effects s (t₁ ++ t₂) s₂ := by
  refine ⟨h₂.1.trans h₁.1, List.forall_mem_append.mpr ⟨h₁.2, ?_⟩⟩
  rw [← h₁.1]
  exact h₂.2

/-- A read or write of a scalar, of another one if it is a write. -/
lemma Keeps.scalar (name : String) (write : Bool) (h : s₁.scalars x = s.scalars x) :
    Keeps x effects s [.scalar name write] s₁ := ⟨h, List.forall_mem_singleton.mpr trivial⟩

lemma Keeps.cell {array : String} {indices : List Expr} {vs : List α} {write : Bool}
    {label : String} (h : s₁.scalars x = s.scalars x)
    (heffect : Effect.cell array indices write label ∈ effects)
    (hpinned : Pinned x (s.scalars x) indices vs) : Keeps x effects s [.cell array vs write] s₁ :=
  ⟨h, List.forall_mem_singleton.mpr ⟨indices, label, heffect, hpinned⟩⟩

end

/-- Effects that leave a scalar alone: no calls, no breaks, and no write of it. -/
structure Quiet (x : String) (effects : List Effect) : Prop where
  known : Effect.unknown ∉ effects
  unwritten : ∀ conditional, Effect.scalar x true conditional ∉ effects

variable {M : Meaning α} {x : String} {effects : List Effect}

mutual

theorem Eval.keeps (quiet : Quiet x effects) {conditional : Bool} {label : String} :
    ∀ {s s' : Memory α} {e : Expr} {v : α} {t : List (Event α)}, Eval M s e v t s' →
      e.effects conditional label ⊆ effects → Keeps x effects s t s'
  | _, _, _, _, _, .var s y, _ => .scalar y false rfl
  | _, _, _, _, _, .literal s n, _ => .refl s
  | _, _, _, _, _, .binary first second, h => by
    rw [Expr.effects, List.append_subset] at h
    exact (first.keeps quiet h.1).trans (second.keeps quiet h.2)
  | _, _, _, _, _, .settled _ first, h => by
    rw [Expr.effects, List.append_subset] at h
    exact first.keeps quiet h.1
  | _, _, _, _, _, .unary operand, h => operand.keeps quiet h
  | _, _, _, _, _, .subscript place, h => by
    rw [Expr.effects, List.append_subset, List.cons_subset] at h
    obtain ⟨hread, hcell, -⟩ := h
    obtain ⟨hkeeps, hpinned⟩ := place.keeps quiet hread
    refine hkeeps.trans (.cell rfl hcell ?_)
    rwa [hkeeps.1]
  | _, _, _, _, _, .ternaryThen condition taken, h => by
    rw [Expr.effects, List.append_subset, List.append_subset] at h
    exact (condition.keeps quiet h.1.1).trans (taken.keeps quiet h.1.2)
  | _, _, _, _, _, .ternaryElse condition taken, h => by
    rw [Expr.effects, List.append_subset, List.append_subset] at h
    exact (condition.keeps quiet h.1.1).trans (taken.keeps quiet h.2)
  | _, _, _, _, _, .intrinsic operands, h => (operands.keeps quiet h).1
  | _, _, _, _, _, .call _, h => absurd (h List.mem_cons_self) quiet.known

theorem EvalList.keeps (quiet : Quiet x effects) {conditional : Bool} {label : String} :
    ∀ {s s' : Memory α} {es : List Expr} {vs : List α} {t : List (Event α)},
      EvalList M s es vs t s' → Expr.effectsOf conditional label es ⊆ effects →
        Keeps x effects s t s' ∧ Pinned x (s.scalars x) es vs
  | _, _, _, _, _, .nil s, _ => ⟨.refl s, by simp [Pinned]⟩
  | _, _, _, _, _, .cons head tail, h => by
    rw [Expr.effectsOf, List.append_subset] at h
    have hhead := head.keeps quiet h.1
    have htail := tail.keeps quiet h.2
    refine ⟨hhead.trans htail.1, fun k hk => ?_⟩
    cases k with
    | zero =>
      obtain rfl := Option.some.inj hk
      cases head
      rfl
    | succ k =>
      rw [← hhead.1]
      exact htail.2 k hk

end

/-- The effects of a target that is neither a scalar nor an array cell are its reads. -/
lemma Expr.targetEffects_other {target : Expr} (hscalar : ∀ x, target ≠ .var x)
    (hcell : ∀ array indices, target ≠ .subscript array indices) (conditional : Bool)
    (label : String) : target.targetEffects conditional label = target.effects conditional label := by
  cases target with
  | var y => exact absurd rfl (hscalar y)
  | subscript array indices => exact absurd rfl (hcell array indices)
  | _ => rfl

lemma Quiet.ne_of_mem (quiet : Quiet x effects) {y : String} {conditional : Bool}
    (h : Effect.scalar y true conditional ∈ effects) : x ≠ y := by
  rintro rfl
  exact quiet.unwritten conditional h

mutual

theorem Exec.keeps (quiet : Quiet x effects) {conditional : Bool} :
    ∀ {s s' : Memory α} {stmt : Stmt} {t : List (Event α)} {exit : Exit},
      Exec M s stmt t s' exit → stmt.effects conditional ⊆ effects → Keeps x effects s t s'
  | _, _, _, _, _, .assignScalar evaluated, h => by
    rw [Stmt.effects, Expr.targetEffects, List.append_subset, List.cons_subset] at h
    obtain ⟨hvalue, hwrite, -⟩ := h
    refine (evaluated.keeps quiet hvalue).trans (.scalar _ true ?_)
    rw [Memory.setScalar_scalars, if_neg (quiet.ne_of_mem hwrite)]
  | _, _, _, _, _, .assignCell evaluated place, h => by
    rw [Stmt.effects, Expr.targetEffects, List.append_subset, List.append_subset,
      List.cons_subset] at h
    obtain ⟨hvalue, hread, hcell, -⟩ := h
    have hfirst := evaluated.keeps quiet hvalue
    obtain ⟨hkeeps, hpinned⟩ := place.keeps quiet hread
    refine (hfirst.trans hkeeps).trans (.cell rfl hcell ?_)
    rwa [hkeeps.1]
  | _, _, _, _, _, .assignOther hscalar hcell evaluated place, h => by
    rw [Stmt.effects, Expr.targetEffects_other hscalar hcell, List.append_subset] at h
    exact (evaluated.keeps quiet h.1).trans (place.keeps quiet h.2)
  | _, _, _, _, _, .expr evaluated, h => evaluated.keeps quiet h
  | _, _, _, _, _, .condThen condition taken, h => by
    rw [Stmt.effects, List.append_subset, List.append_subset] at h
    exact (condition.keeps quiet h.1.1).trans (taken.keeps quiet h.1.2)
  | _, _, _, _, _, .condElse condition taken, h => by
    rw [Stmt.effects, List.append_subset, List.append_subset] at h
    exact (condition.keeps quiet h.1.1).trans (taken.keeps quiet h.2)
  | _, _, _, _, _, .loop start stop step trips, h => by
    rw [Stmt.effects, LoopHead.effects, List.append_subset, List.append_subset, List.append_subset,
      List.append_subset, List.cons_subset] at h
    obtain ⟨⟨⟨⟨hstart, hstop⟩, hstep⟩, hvar, -⟩, hbody⟩ := h
    have hne := quiet.ne_of_mem hvar
    refine ((((start.keeps quiet hstart).trans (stop.keeps quiet hstop)).trans
      (step.keeps quiet hstep)).trans (.scalar _ true ?_)).trans (trips.keeps quiet hne hbody)
    rw [Memory.setScalar_scalars, if_neg hne]
  | _, _, _, _, _, .brk s label, h => absurd (h List.mem_cons_self) quiet.known

theorem ExecList.keeps (quiet : Quiet x effects) {conditional : Bool} :
    ∀ {s s' : Memory α} {stmts : List Stmt} {t : List (Event α)} {exit : Exit},
      ExecList M s stmts t s' exit → Stmt.effectsOf conditional stmts ⊆ effects →
        Keeps x effects s t s'
  | _, _, _, _, _, .nil s, _ => .refl s
  | _, _, _, _, _, .cons first rest, h => by
    rw [Stmt.effectsOf, List.append_subset] at h
    exact (first.keeps quiet h.1).trans (rest.keeps quiet h.2)
  | _, _, _, _, _, .stop first, h => by
    rw [Stmt.effectsOf, List.append_subset] at h
    exact first.keeps quiet h.1

theorem Trips.keeps (quiet : Quiet x effects) {conditional : Bool} :
    ∀ {s s' : Memory α} {y : String} {body : List Stmt} {t : List (Event α)},
      Trips M s y body t s' → x ≠ y → Stmt.effectsOf conditional body ⊆ effects →
        Keeps x effects s t s'
  | _, _, _, _, _, .done s _ _, _, _ => .refl s
  | _, _, _, _, _, .next trip rest, hne, h => by
    refine ((trip.keeps quiet h).trans (.scalar _ true ?_)).trans (rest.keeps quiet hne h)
    rw [Memory.setScalar_scalars, if_neg hne]
  | _, _, _, _, _, .broken trip, _, h => trip.keeps quiet h

end

mutual

/-- Expressions write no scalars. -/
theorem Expr.not_written (conditional : Bool) (label : String) (c : Bool) :
    ∀ e : Expr, Effect.scalar x true c ∉ e.effects conditional label
  | .var _ | .literal _ => by simp [Expr.effects]
  | .binary _ lhs rhs => by
    simp [Expr.effects, lhs.not_written conditional label c, rhs.not_written conditional label c]
  | .unary _ operand => by
    rw [Expr.effects]
    exact operand.not_written conditional label c
  | .subscript _ indices => by simp [Expr.effects, Expr.not_writtenOf conditional label c indices]
  | .ternary p t e => by
    simp [Expr.effects, p.not_written conditional label c, t.not_written conditional label c,
      e.not_written conditional label c]
  | .intrinsic _ args => by
    rw [Expr.effects]
    exact Expr.not_writtenOf conditional label c args
  | .call _ args => by simp [Expr.effects, Expr.not_writtenOf conditional label c args]

theorem Expr.not_writtenOf (conditional : Bool) (label : String) (c : Bool) :
    ∀ es : List Expr, Effect.scalar x true c ∉ Expr.effectsOf conditional label es
  | [] => by simp [Expr.effectsOf]
  | e :: es => by
    simp [Expr.effectsOf, e.not_written conditional label c,
      Expr.not_writtenOf conditional label c es]

end

lemma Expr.written_target {target : Expr} {conditional : Bool} {label : String} {c : Bool}
    (h : Effect.scalar x true c ∈ target.targetEffects conditional label) : target = .var x := by
  cases target with
  | var y =>
    simp only [Expr.targetEffects, List.mem_singleton, Effect.scalar.injEq] at h
    rw [h.1]
  | subscript array indices =>
    simp [Expr.targetEffects, Expr.not_writtenOf conditional label c indices] at h
  | _ => exact absurd h (Expr.not_written conditional label c _)

namespace Stmt

/-- The variables of the loops inside statements. -/
def inductionsOf (stmts : List Stmt) : List String := (loopsOf stmts).map (·.head.induction)

mutual

/-- A scalar that a statement writes is assigned in it or the variable of a loop in it. -/
theorem written {c : Bool} : ∀ {stmt : Stmt} {conditional : Bool},
    Effect.scalar x true c ∈ stmt.effects conditional →
      x ∈ stmt.assigned ∨ x ∈ stmt.loops.map (·.head.induction)
  | assign label target value, conditional, h => by
    rw [effects, List.mem_append] at h
    rcases h with h | h
    · exact absurd h (value.not_written conditional label c)
    · obtain rfl := Expr.written_target h
      exact .inl (by simp [assigned])
  | expr label e, conditional, h => absurd h (e.not_written conditional label c)
  | cond label condition thenPart elsePart, conditional, h => by
    rw [effects, List.mem_append, List.mem_append] at h
    simp only [assigned, loops, List.mem_append, List.map_append]
    rcases h with (h | h) | h
    · exact absurd h (condition.not_written conditional label c)
    · exact (writtenOf h).imp .inl .inl
    · exact (writtenOf h).imp .inr .inr
  | loop head body, conditional, h => by
    simp only [effects, LoopHead.effects, List.mem_append, List.mem_singleton] at h
    simp only [assigned, loops, List.map_cons, List.mem_cons]
    rcases h with (((h | h) | h) | h) | h
    · exact absurd h (head.start.not_written conditional head.label c)
    · exact absurd h (head.stop.not_written conditional head.label c)
    · exact absurd h (head.step.not_written conditional head.label c)
    · cases h
      exact .inr (.inl rfl)
    · exact (writtenOf h).imp_right .inr
  | brk label, _, h => by simp [effects] at h

theorem writtenOf {c : Bool} : ∀ {stmts : List Stmt} {conditional : Bool},
    Effect.scalar x true c ∈ effectsOf conditional stmts →
      x ∈ assignedOf stmts ∨ x ∈ inductionsOf stmts
  | [], _, h => by simp [effectsOf] at h
  | s :: ss, conditional, h => by
    rw [effectsOf, List.mem_append] at h
    simp only [assignedOf, inductionsOf, loopsOf, List.mem_append, List.map_append]
    rcases h with h | h
    · exact (written h).imp .inl .inl
    · exact (writtenOf h).imp .inr .inr

end

mutual

/-- The arrays that statements assign to. -/
def stored : Stmt → List String
  | assign _ (.subscript array _) _ => [array]
  | assign .. | expr .. | brk _ => []
  | cond _ _ thenPart elsePart => storedOf thenPart ++ storedOf elsePart
  | loop _ body => storedOf body

def storedOf : List Stmt → List String
  | [] => []
  | s :: ss => s.stored ++ storedOf ss

end

mutual

theorem stored_effect {array : String} : ∀ {stmt : Stmt} (conditional : Bool),
    array ∈ stmt.stored →
      ∃ indices label, Effect.cell array indices true label ∈ stmt.effects conditional
  | assign label target value, conditional, h => by
    cases target with
    | subscript a indices =>
      obtain rfl := List.mem_singleton.mp h
      exact ⟨indices, label, by simp [effects, Expr.targetEffects]⟩
    | _ => simp [stored] at h
  | expr .., _, h | brk _, _, h => by simp [stored] at h
  | cond _ _ thenPart elsePart, conditional, h => by
    rw [stored, List.mem_append] at h
    rcases h with h | h
    · obtain ⟨indices, label, he⟩ := storedOf_effect true h
      exact ⟨indices, label, by simp [effects, he]⟩
    · obtain ⟨indices, label, he⟩ := storedOf_effect true h
      exact ⟨indices, label, by simp [effects, he]⟩
  | loop _ body, _, h => by
    obtain ⟨indices, label, he⟩ := storedOf_effect true h
    exact ⟨indices, label, by simp [effects, he]⟩

theorem storedOf_effect {array : String} : ∀ {stmts : List Stmt} (conditional : Bool),
    array ∈ storedOf stmts →
      ∃ indices label, Effect.cell array indices true label ∈ effectsOf conditional stmts
  | [], _, h => by simp [storedOf] at h
  | s :: ss, conditional, h => by
    rw [storedOf, List.mem_append] at h
    rcases h with h | h
    · obtain ⟨indices, label, he⟩ := stored_effect conditional h
      exact ⟨indices, label, by simp [effectsOf, he]⟩
    · obtain ⟨indices, label, he⟩ := storedOf_effect conditional h
      exact ⟨indices, label, by simp [effectsOf, he]⟩

end

end Stmt

namespace Loop

variable {l : Loop}

lemma unknown_not_mem (h : l.isIndependent) : Effect.unknown ∉ l.effects := by
  unfold isIndependent at h
  simp only [Bool.and_eq_true, Bool.not_eq_true', List.any_eq_false] at h
  exact fun hmem => h.1.1 _ hmem rfl

lemma mem_cells {effects : List Effect} {array : String} {e : Effect} :
    e ∈ cells effects array ↔ e ∈ effects ∧ e.array? = some array := by
  simp [cells]

/-- The effects on an array that an independent loop writes are separated. -/
lemma separates_of_isIndependent (h : l.isIndependent) {array : String} {indices : List Expr}
    {label : String} (hwrite : Effect.cell array indices true label ∈ l.effects) :
    separates l.head.induction (cells l.effects array) := by
  unfold isIndependent at h
  simp only [Bool.and_eq_true, List.isEmpty_iff] at h
  have hnone := h.2
  unfold conflicts at hnone
  rw [List.filter_eq_nil_iff] at hnone
  have harray : cells l.effects array ∈
      ((l.effects.filterMap Effect.array?).eraseDups.map (cells l.effects)) :=
    List.mem_map_of_mem (List.mem_eraseDups.mpr (List.mem_filterMap.mpr ⟨_, hwrite, rfl⟩))
  have hwritten : (cells l.effects array).any (!·.isRead) :=
    List.any_eq_true.mpr ⟨_, mem_cells.mpr ⟨hwrite, rfl⟩, rfl⟩
  have hkept := hnone _ harray
  rw [hwritten, Bool.true_and] at hkept
  simpa using hkept

/-- Separated effects have one tuple of indices, and the loop variable is one of them. -/
lemma indices_of_separates {effects : List Effect} {array x : String}
    (h : separates x (cells effects array)) {e : Effect} (he : e ∈ cells effects array) :
    (∃ k : Nat, e.indices[k]? = some (.var x)) ∧
      ∀ e' ∈ cells effects array, e'.indices = e.indices := by
  unfold separates at h
  split at h
  · next hnil =>
    rw [hnil] at he
    cases he
  · next first rest hcells =>
    simp only [Bool.and_eq_true, List.all_eq_true, decide_eq_true_eq, List.any_eq_true] at h
    obtain ⟨hsame, _, hvar, rfl⟩ := h
    refine ⟨?_, fun e' he' => (hsame e' he').trans (hsame e he).symm⟩
    rw [hsame e he]
    exact List.mem_iff_getElem?.mp hvar

end Loop

/-- A loop whose label only it has is reported exactly if it passes the test. -/
lemma mem_independent_iff {n : Nest} (hlabels : n.loopLabels.Nodup) {l : Loop} (hl : l ∈ n.loops) :
    l.head.label ∈ n.subscriptTest.independent ↔ l.isIndependent := by
  rw [subscriptTest, mem_sortedSet, List.mem_map]
  constructor
  · rintro ⟨l', hl', hlabel⟩
    obtain ⟨hmem, hind⟩ := List.mem_filter.mp hl'
    rwa [← List.inj_on_of_nodup_map hlabels hmem hl hlabel]
  · exact fun hind => ⟨l, List.mem_filter.mpr ⟨hl, hind⟩, rfl⟩

/-- Two iterations of a loop that the subscript test reports touch no common cell of an array that
the body writes, if nothing in the body writes the loop variable. -/
theorem independent_iterations_disjoint {n : Nest} (hlabels : n.loopLabels.Nodup) {l : Loop}
    (hl : l ∈ n.loops) (hreported : l.head.label ∈ n.subscriptTest.independent)
    (hassigned : l.head.induction ∉ Stmt.assignedOf l.body)
    (hinner : ∀ inner ∈ Stmt.loopsOf l.body, inner.head.induction ≠ l.head.induction)
    (M : Meaning α) {s₁ s₂ s₁' s₂' : Memory α} {t₁ t₂ : List (Event α)} {exit₁ exit₂ : Exit}
    (hrun₁ : ExecList M s₁ l.body t₁ s₁' exit₁) (hrun₂ : ExecList M s₂ l.body t₂ s₂' exit₂)
    (hvalues : s₁.scalars l.head.induction ≠ s₂.scalars l.head.induction)
    {array : String} (harray : array ∈ Stmt.storedOf l.body) (indices : List α) :
    ¬(Touches t₁ array indices ∧ Touches t₂ array indices) := by
  have hind := (mem_independent_iff hlabels hl).mp hreported
  have quiet : Quiet l.head.induction l.effects := by
    refine ⟨Loop.unknown_not_mem hind, fun conditional hwrite => ?_⟩
    rcases Stmt.writtenOf hwrite with h | h
    · exact hassigned h
    · obtain ⟨inner, hmem, heq⟩ := List.mem_map.mp h
      exact hinner inner hmem heq
  obtain ⟨expected, label, hwrite⟩ := Stmt.storedOf_effect false harray
  obtain ⟨⟨k, hk⟩, hsame⟩ := Loop.indices_of_separates (Loop.separates_of_isIndependent hind hwrite)
    (Loop.mem_cells.mpr ⟨hwrite, rfl⟩)
  -- in each iteration the cell has the value of the loop variable at position `k`
  have hpin : ∀ {s s' : Memory α} {t : List (Event α)} {exit : Exit},
      ExecList M s l.body t s' exit → Touches t array indices →
        indices[k]? = some (s.scalars l.head.induction) := by
    rintro s s' t exit hrun ⟨write, hevent⟩
    obtain ⟨is, label', heffect, hpinned⟩ := (hrun.keeps quiet (List.Subset.refl _)).2 _ hevent
    have his : is = expected := hsame _ (Loop.mem_cells.mpr ⟨heffect, rfl⟩)
    exact hpinned k (his ▸ hk)
  rintro ⟨h₁, h₂⟩
  exact hvalues (Option.some.inj ((hpin hrun₁ h₁).symm.trans (hpin hrun₂ h₂)))

end Nest

/-! `A[i][j] = A[i][j] + B[j]` under a loop over `i` and, for every `j` below `B[i]`, one over `j`. -/
namespace RowUpdate

open Nest

def cell (array : String) (names : List String) : Expr := .subscript array (names.map .var)

def update : Stmt :=
  .assign "S" (cell "A" ["i", "j"]) (.binary .add (cell "A" ["i", "j"]) (cell "B" ["j"]))

def inner : LoopHead := ⟨"columns", "j", .literal 0, cell "B" ["i"], .literal 1⟩

def rows : Loop := ⟨⟨"rows", "i", .literal 0, .literal 4, .literal 1⟩, [.loop inner [update]]⟩

def nest : Nest := ⟨rows, [], ∅⟩

/-- An iteration in which the inner loop runs once. -/
lemma exists_iteration (s : Memory Int) :
    ∃ t s', ExecList .adding s rows.body t s' .normal ∧ Touches t "A" [s.scalars "i", 0] := by
  refine ⟨_, _, .cons (.loop (v := 0) (.literal _ _) (.subscript (.cons (.var _ _) (.nil _)))
    (.literal _ _) (.next (v := 1) (.cons (.assignCell (.binary
      (.subscript (.cons (.var _ _) (.cons (.var _ _) (.nil _))))
      (.subscript (.cons (.var _ _) (.nil _))))
      (.cons (.var _ _) (.cons (.var _ _) (.nil _)))) (.nil _)) (.done _ _ _))) (.nil _), true, ?_⟩
  simp [inner]

/-- The first two rows are updated in different cells. -/
theorem rows_disjoint :
    nest.loopLabels.Nodup ∧ "rows" ∈ nest.subscriptTest.independent ∧
    ∃ t₁ t₂ s₁ s₂, ExecList .adding (.iteration 0) rows.body t₁ s₁ .normal ∧
      ExecList .adding (.iteration 1) rows.body t₂ s₂ .normal ∧ Touches t₁ "A" [0, 0] ∧
      Touches t₂ "A" [1, 0] ∧ ∀ indices, ¬(Touches t₁ "A" indices ∧ Touches t₂ "A" indices) := by
  have hlabels : nest.loopLabels.Nodup := by decide +kernel
  have hreported : "rows" ∈ nest.subscriptTest.independent :=
    (mem_independent_iff hlabels List.mem_cons_self).mpr (by decide +kernel)
  obtain ⟨t₁, s₁, hrun₁, htouch₁⟩ := exists_iteration (.iteration 0)
  obtain ⟨t₂, s₂, hrun₂, htouch₂⟩ := exists_iteration (.iteration 1)
  refine ⟨hlabels, hreported, t₁, t₂, s₁, s₂, hrun₁, hrun₂, htouch₁, htouch₂, fun indices => ?_⟩
  refine independent_iterations_disjoint hlabels List.mem_cons_self hreported (by decide +kernel)
    ?_ .adding hrun₁ hrun₂ (by decide) (by decide +kernel) indices
  intro l hl
  obtain rfl := List.mem_singleton.mp hl
  decide

end RowUpdate

end LoopSafety
