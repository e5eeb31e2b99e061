import LoopSafety.Proofs.Enclosure
import LoopSafety.Proofs.Verdicts

/-! Indices whose check is dropped stay inside their dimension. -/
namespace LoopSafety

namespace Checker

/-- An index whose check is dropped is inside its dimension: if narrowing an order-preserving bound
under the given loops leaves the check safe, and what it narrows to lies below a size, then so does
every value of the bound under every consistent assignment. -/
theorem proved_index_in_bounds {p : Program} (shares : p.SharesContents) {c c' : Checker}
    (cache : c.context.scans.Reached p) {loops : List LoopId} {bound result : Bound} {size : Int64}
    (keeps : c.context.KeepsOrder p loops bound) (run : (check p loops bound).run c = (result, c'))
    (safe : c'.safe = true) (below : result.within size = true) {σ : String → Int}
    (consistent : c.context.Consistent p loops bound σ) {x : Int} (takes : bound.Takes p σ x) :
    0 ≤ x ∧ x < size.toInt := by
  obtain ⟨r, ok, hr, hrun⟩ := c.context.evaluate_surrounds shares keeps consistent
  obtain ⟨scans, -, heq⟩ := hrun true c.context.scans (cache.describes shares)
  rw [check_run, evaluate_run, heq] at run
  cases run
  exact (hr safe).within below takes

end Checker

/-! A loop over `j` whose range grows with the variable `i` of the loop around it, and an index that
adds both to the contents of an array. -/
namespace Triangle

def program : Program where
  loops := #[⟨"i", .int, .simple ⟨0, 4, 1⟩⟩, ⟨"j", .int, .symbolic none (some ⟨0⟩) none ⟨0, 0, 1⟩⟩]
  arrays := #[⟨"idx", ⟨.intArray, [3]⟩, some ⟨0, [1, 0, 2]⟩, true⟩]

def reach : Bound := .binary .add (.var "i" .int) (.var "n" .int) .int

def context : Context where
  constants := .ofList [("n", 2)]
  loops := [⟨0⟩, ⟨1⟩]
  loopBounds := .ofList [
    (⟨0⟩, .range (.literal 0 .int) (.literal 4 .int) (.literal 1 .int)),
    (⟨1⟩, .range (.literal 0 .int) reach (.literal 1 .int))]

def index : Bound :=
  .binary .add (.binary .add (.var "i" .int) (.var "j" .int) .int) (.array ⟨0⟩ "idx" .int) .int

def assignment (name : String) : Int := if name = "i" then 3 else if name = "j" then 4 else 2

lemma rangeOf?_eq (name : String) :
    context.rangeOf? program [⟨0⟩, ⟨1⟩] name =
      if name = "n" then none
      else if name = "j" then some (.literal 0 .int, reach, .literal 1 .int)
      else if name = "i" then some (.literal 0 .int, .literal 4 .int, .literal 1 .int)
      else none := by
  by_cases hn : name = "n"
  · subst hn
    rfl
  · have hc : context.constants.get? name = none := by
      change (if "n" = name then some 2 else none) = none
      rw [if_neg (Ne.symm hn)]
    by_cases hj : name = "j"
    · subst hj
      rfl
    · by_cases hi : name = "i"
      · subst hi
        rfl
      · simp only [Context.rangeOf?, hc, hn, hj, hi, if_false]
        have h : Evaluation.loopOf? program context { loops := [⟨0⟩, ⟨1⟩] } name = none := by
          simp [Evaluation.loopOf?, context, Program.loop?, program, LoopId.toNat, Ne.symm hj, Ne.symm hi]
        rw [h]
        rfl

lemma index_keepsOrder : context.KeepsOrder program [⟨0⟩, ⟨1⟩] index where
  bound := .add (.add (.var _ _) (.var _ _)) (.array _ _ _)
  ranges := by
    intro name start stop step _ h
    rw [rangeOf?_eq] at h
    split at h
    · cases h
    · split at h
      · cases h
        exact ⟨.literal _ _, .add (.var _ _) (.var _ _), .literal _ _⟩
      · split at h
        · cases h
          exact ⟨.literal _ _, .literal _ _, .literal _ _⟩
        · cases h

lemma assignment_consistent : context.Consistent program [⟨0⟩, ⟨1⟩] index assignment where
  constant := by
    intro name value _ h
    change (if "n" = name then some 2 else none) = some value at h
    split at h
    · next hn =>
      subst hn
      cases h
      rfl
    · cases h
  loopVariable := by
    intro name start stop step _ h
    rw [rangeOf?_eq] at h
    split at h
    · cases h
    · split at h
      · next hj =>
        subst hj
        cases h
        have hstop : reach.Takes program assignment 5 :=
          .binary_of_eq (.var "i" .int) (.var "n" .int) rfl rfl
        exact ⟨0, 5, 1, .literal 0 .int, hstop, .literal 1 .int, 4, by decide⟩
      · split at h
        · next hi =>
          subst hi
          cases h
          exact ⟨0, 4, 1, .literal 0 .int, .literal 4 .int, .literal 1 .int, 3, by decide⟩
        · cases h

lemma index_takes : index.Takes program assignment 9 := by
  have hsum : (Bound.binary .add (.var "i" .int) (.var "j" .int) .int).Takes program assignment 7 :=
    .binary_of_eq (.var "i" .int) (.var "j" .int) rfl rfl
  have hcell : (Bound.array ⟨0⟩ "idx" .int).Takes program assignment (2 : Int64).toInt :=
    .array rfl rfl (by decide : (2 : Int64) ∈ [1, 0, 2])
  exact .binary_of_eq hsum hcell rfl rfl

lemma program_sharesContents : program.SharesContents := by decide

/-- The index reaches its greatest value, the last cell of ten. -/
theorem last_cell_in_bounds :
    context.Consistent program [⟨0⟩, ⟨1⟩] index assignment ∧ index.Takes program assignment 9 ∧
      (0 ≤ (9 : Int) ∧ (9 : Int) < (10 : Int64).toInt) :=
  ⟨assignment_consistent, index_takes,
    Checker.proved_index_in_bounds program_sharesContents (c := { context }) .empty index_keepsOrder rfl
      (by decide) (by decide) assignment_consistent index_takes⟩

end Triangle

end LoopSafety
