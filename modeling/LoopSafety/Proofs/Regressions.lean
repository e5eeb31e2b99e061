import LoopSafety.Proofs.Isolation

/-! Comparing verdicts with stored ones.

A comparison fails exactly on a regression: a target stored as safe that is not proved under the
constants at hand. Whether it fails or not, it leaves verdicts, bounds, targets and settings alone. -/
namespace LoopSafety

namespace Context

variable {p : Program} {ctx ctx' : Context} {t : Occurrence}

/-- Some access is stored as safe in a dimension in which it is not proved now, or some integer
operation is stored as safe and not proved now. -/
def Regressed (p : Program) (ctx : Context) : Prop :=
  (∃ t ∈ ctx.accesses, ∃ sizes d, t.Indexes p sizes ∧ d < sizes.length ∧
    SafeIndex ctx.accessVerdicts t.term.id d ∧ ¬ctx.IndexProved p t d) ∨
  ∃ t ∈ ctx.overflowChecks, ctx.overflowVerdicts.get? t.term.id = some false ∧
    ¬ctx.OperationProved p t

lemma eq_of_basis_eq (hbasis : ctx'.basis = ctx.basis)
    (haccess : ctx'.accessVerdicts = ctx.accessVerdicts)
    (hoverflow : ctx'.overflowVerdicts = ctx.overflowVerdicts) :
    ctx' = { ctx with ranges := ctx'.ranges, scans := ctx'.scans, minimum := ctx'.minimum } := by
  obtain ⟨h₁, h₂, h₃, h₄, h₅, h₆, h₇, h₈⟩ := basis_eq_iff.mp hbasis
  cases ctx'
  cases ctx
  simp_all

lemma judgeAccess_of_not_isAccess (ht : ¬t.isAccess) : ctx.judgeAccess p t = .ok none := by
  unfold judgeAccess Program.extents
  unfold Occurrence.isAccess at ht
  cases hnode : t.term.node with
  | access array indices => simp [hnode] at ht
  | _ => rfl

/-- An access upholds what is stored unless it has lost a dimension. -/
lemma upholds_iff {sizes : List Int64} (ht : t.Indexes p sizes) :
    Checker.Upholds (ctx.accessVerdicts.get? t.term.id) (ctx.judgeAccess p t) ↔
      ∀ d < sizes.length, SafeIndex ctx.accessVerdicts t.term.id d → ctx.IndexProved p t d := by
  obtain ⟨dims, hjudge, hlength⟩ := judgeAccess_of_indexes ctx ht
  have hproved := judgeAccess_safe_iff hjudge
  rw [hjudge]
  constructor
  · rintro ⟨_, ⟨⟩, hupholds⟩ d hd ⟨stored, hstored, hsafe⟩
    have hkept := hupholds dims rfl
    rw [hstored, Option.any_some, Checker.regressed_iff] at hkept
    rw [← hproved, List.getElem?_eq_getElem (hlength ▸ hd), Option.some.injEq]
    by_contra hlost
    refine hkept ⟨d, hsafe, ?_⟩
    rw [List.getElem?_eq_getElem (hlength ▸ hd), eq_true_of_ne_false hlost]
  · intro h
    refine ⟨_, rfl, ?_⟩
    rintro _ ⟨⟩ hregressed
    obtain ⟨stored, hstored, hregressed⟩ := (Option.any_eq_true _ _).mp hregressed
    obtain ⟨d, hsafe, hlost⟩ := Checker.regressed_iff.mp hregressed
    obtain ⟨hd, -⟩ := List.getElem?_eq_some_iff.mp hlost
    have hkept := (hproved d).mpr (h d (hlength ▸ hd) ⟨stored, hstored, hsafe⟩)
    cases hlost.symm.trans hkept

section

variable (hindexed : ∀ t ∈ ctx.accesses, t.isAccess → ∃ sizes, t.Indexes p sizes)
include hindexed

/-- No access is left out for its rank. -/
lemma judgeAccess_ok (ht : t ∈ ctx.accesses) : ∃ verdict, ctx.judgeAccess p t = .ok verdict := by
  by_cases haccess : t.isAccess
  · obtain ⟨sizes, hsizes⟩ := hindexed t ht haccess
    obtain ⟨dims, hjudge, -⟩ := judgeAccess_of_indexes ctx hsizes
    exact ⟨_, hjudge⟩
  · exact ⟨none, judgeAccess_of_not_isAccess haccess⟩

lemma accesses_uphold_iff :
    (∀ t ∈ ctx.accesses,
      Checker.Upholds (ctx.accessVerdicts.get? t.term.id) (ctx.judgeAccess p t)) ↔
    ¬∃ t ∈ ctx.accesses, ∃ sizes d, t.Indexes p sizes ∧ d < sizes.length ∧
      SafeIndex ctx.accessVerdicts t.term.id d ∧ ¬ctx.IndexProved p t d := by
  constructor
  · rintro h ⟨t, ht, sizes, d, hsizes, hd, hsafe, hlost⟩
    exact hlost ((upholds_iff hsizes).mp (h t ht) d hd hsafe)
  · intro h t ht
    by_cases haccess : t.isAccess
    · obtain ⟨sizes, hsizes⟩ := hindexed t ht haccess
      refine (upholds_iff hsizes).mpr fun d hd hsafe => ?_
      by_contra hlost
      exact h ⟨t, ht, sizes, d, hsizes, hd, hsafe, hlost⟩
    · exact ⟨none, judgeAccess_of_not_isAccess haccess, by simp⟩

/-- Nothing is lost exactly if there is no regression. -/
lemma upheld_iff_not_regressed :
    ((∀ t ∈ ctx.accesses,
        Checker.Upholds (ctx.accessVerdicts.get? t.term.id) (ctx.judgeAccess p t)) ∧
      ∀ t ∈ ctx.overflowChecks,
        ¬(ctx.overflowVerdicts.get? t.term.id = some false ∧ ctx.judgeOperation p t = true)) ↔
    ¬ctx.Regressed p := by
  rw [Regressed, not_or, accesses_uphold_iff hindexed]
  refine and_congr_right fun _ => ?_
  simp only [← judgeOperation_eq_false_iff, Bool.not_eq_false, not_exists, not_and]

end

/-- A comparison fails exactly on a regression, with one error. What it writes are the ranges of loops,
the cache and the least index. -/
theorem comparison_fails_iff_regressed (shares : p.SharesContents)
    (hindexed : ∀ t ∈ ctx.accesses, t.isAccess → ∃ sizes, t.Indexes p sizes) :
    ∃ r ctx', (checkAll p true).run.run ctx = (r, ctx') ∧
      (r = .error .boundInvalidated ↔ ctx.Regressed p) ∧ (r = .ok () ↔ ¬ctx.Regressed p) ∧
      ctx' = { ctx with ranges := ctx'.ranges, scans := ctx'.scans, minimum := ctx'.minimum } := by
  obtain ⟨r, c', hrun, ⟨lows, hnotes⟩, hgood, herror⟩ := Checker.compareAll_spec
    (Evaluation.arrayContents_steadyOn shares ctx ctx.scans) (.refl ctx.scans)
    (c := { context := ctx }) ⟨rfl, .refl ctx.scans⟩
  have hok : r = .ok () ↔ ¬ctx.Regressed p := hgood.trans (upheld_iff_not_regressed hindexed)
  refine ⟨r, c'.context, ?_, ?_, hok, eq_of_basis_eq hnotes.basis hnotes.access hnotes.overflow⟩
  · rw [Session.checkAll_run, hrun]
  · cases r with
    | ok u => exact ⟨by simp, fun h => absurd h (hok.mp rfl)⟩
    | error e =>
      have hlost : ctx.Regressed p := by
        by_contra h
        cases hok.mpr h
      obtain rfl | ⟨t, ht, hjudge⟩ := herror e rfl
      · exact ⟨fun _ => hlost, fun _ => rfl⟩
      · obtain ⟨verdict, hverdict⟩ := judgeAccess_ok hindexed ht
        cases hjudge.symm.trans hverdict

end Context

namespace Resized

lemma prepared_indexes (n : Int64) :
    ∀ t ∈ ((prepared 5).withConstants (values n)).context.accesses, t.isAccess →
      ∃ sizes, t.Indexes program sizes := by
  have haccesses : ((prepared 5).withConstants (values n)).context.accesses =
      [⟨narrowCell, [⟨0⟩]⟩, ⟨wideCell, [⟨0⟩]⟩] := rfl
  rw [haccesses]
  simp only [List.forall_mem_cons]
  exact ⟨fun _ => ⟨[10], _, _, _, rfl, rfl, rfl, rfl⟩, fun _ => ⟨[100], _, _, _, rfl, rfl, rfl, rfl⟩,
    List.forall_mem_nil _⟩

/-- With `n` of twenty the smaller array has lost what was stored for five; with eight it has not. -/
theorem twenty_regresses_eight_does_not :
    ((prepared 5).withConstants (values 20)).context.Regressed program ∧
    ¬((prepared 5).withConstants (values 8)).context.Regressed program := by
  obtain ⟨r, ctx', hrun, hregressed, -⟩ :=
    Context.comparison_fails_iff_regressed program_sharesContents (prepared_indexes 20)
  obtain ⟨r', ctx'', hrun', -, hupheld, -⟩ :=
    Context.comparison_fails_iff_regressed program_sharesContents (prepared_indexes 8)
  refine ⟨hregressed.mp ?_, hupheld.mp ?_⟩
  · have hr : ((Context.checkAll program true).run.run
        ((prepared 5).withConstants (values 20)).context).1 = .error .boundInvalidated := by
      decide +kernel
    rwa [hrun] at hr
  · have hr : ((Context.checkAll program true).run.run
        ((prepared 5).withConstants (values 8)).context).1 = .ok () := by
      decide +kernel
    rwa [hrun'] at hr

end Resized

end LoopSafety
