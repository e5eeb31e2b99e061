import LoopSafety.Proofs.Subscripts

/-! Registration and lowering see the same loops and accesses.

Registration walks through all parts of a region, whatever they are. Lowering takes the region apart
by kind: blocks dissolve, a choice is a statement in one place and a value in another, and what a
nest cannot say is turned down. Where it succeeds, both meet the same loops and the same accesses, in
the same order. -/
namespace LoopSafety

lemma Occurrence.isAccess_eq (o : Occurrence) : o.isAccess = o.access?.isSome := by
  unfold isAccess access?
  cases o.term.node <;> rfl

/-- What is related to the values of a partial function is related to where it has values. -/
lemma forall₂_filterMap_left {α β γ : Type} {f : α → Option β} {r : β → γ → Prop} {as : List α}
    {cs : List γ} (h : List.Forall₂ r (as.filterMap f) cs) :
    List.Forall₂ (fun a c => ∃ b, f a = some b ∧ r b c) (as.filter fun a => (f a).isSome) cs := by
  induction as generalizing cs with
  | nil =>
    cases h
    exact .nil
  | cons a as ih =>
    cases hf : f a with
    | none =>
      rw [List.filterMap_cons_none hf] at h
      rw [List.filter_cons_of_neg (by simp [hf])]
      exact ih h
    | some b =>
      rw [List.filterMap_cons_some hf] at h
      rw [List.filter_cons_of_pos (by simp [hf])]
      cases h with
      | cons hbc hrest => exact .cons ⟨b, hf, hbc⟩ (ih hrest)

namespace Context

lemma register_loops (root : Term) : (({} : Context).register root).loops = root.loops := rfl

lemma register_accesses (root : Term) : (({} : Context).register root).accesses =
    (root.occurrences []).filter fun o => o.access?.isSome :=
  List.filter_congr fun o _ => o.isAccess_eq

end Context

namespace Lowering

/-- An occurrence of an access and the subscript that it is lowered to. -/
def LowersAt (p : Program) (ctx : Context) (o : Occurrence) (s : Nest.Site) : Prop :=
  ∃ a, o.access? = some a ∧ Lowers p ctx a s

end Lowering

namespace Program

variable {p : Program} {ctx : Context} {root : Term} {n : Nest}

/-- Where a region can be lowered, the loops registered for it are those of the verdicts, and the
accesses registered for it are the subscripts of its nest outside the ranges of loops. -/
theorem registration_agrees_with_lowering (h : Lowering.nest p ctx root = .ok n)
    (oracle : Oracle) :
    ∃ d, p.dependences ctx oracle root = .ok d ∧
      d.loops.map (·.loop) = (({} : Context).register root).loops ∧
      List.Forall₂ (Lowering.LowersAt p ctx) (({} : Context).register root).accesses
        n.bodySites := by
  refine ⟨_, dependences_eq h oracle, ?_, ?_⟩
  · rw [Context.register_loops]
    exact verdicts_loops h _
  · rw [Context.register_accesses]
    exact forall₂_filterMap_left (Lowering.nest_bodySites h)

end Program

/-! A loop over `i`, in it one over `j` below `size[i]`, and in that `if size[i]` the assignment
`A[idx[j]] = idx[j] ? A[i] : 0`. The two places of `size[i]` are one node, and so are those of
`idx[j]`. -/
namespace Buckets

def row : Term := ⟨⟨0⟩, .var "i" .int none⟩
def column : Term := ⟨⟨1⟩, .var "j" .int none⟩
def size : Term := ⟨⟨2⟩, .access ⟨0⟩ [row]⟩
def entry : Term := ⟨⟨3⟩, .access ⟨1⟩ [column]⟩
def target : Term := ⟨⟨4⟩, .access ⟨2⟩ [entry]⟩
def zero : Term := ⟨⟨5⟩, .literal (.int 0)⟩
def source : Term := ⟨⟨6⟩, .access ⟨2⟩ [row]⟩
def value : Term := ⟨⟨7⟩, .cond entry source (some zero) .int⟩
def store : Term := ⟨⟨8⟩, .assign target value⟩
def guarded : Term := ⟨⟨9⟩, .cond size store none .int⟩
def inner : Term := ⟨⟨10⟩, .forLoop ⟨1⟩ guarded⟩
def region : Term := ⟨⟨11⟩, .forLoop ⟨0⟩ inner⟩

def program : Program where
  terms := #[row, column, size, entry, target, zero, source, value, store, guarded, inner, region]
  loops := #[⟨"i", .int, .simple ⟨0, 4, 1⟩⟩, ⟨"j", .int, .symbolic none (some ⟨2⟩) none ⟨0, 0, 1⟩⟩]
  arrays := #[⟨"size", ⟨.intArray, [4]⟩, none, false⟩, ⟨"idx", ⟨.intArray, [9]⟩, none, false⟩,
    ⟨"A", ⟨.intArray, [9]⟩, none, false⟩]

lemma nest_isSome : (Lowering.nest program {} region).toOption.isSome := by decide +kernel

def nest : Nest := (Lowering.nest program {} region).toOption.get nest_isSome

/-- The range of the inner loop has one more subscript, which is not registered. -/
theorem all_but_range_registered :
    Lowering.nest program {} region = .ok nest ∧
    nest.bodySites.map (·.array) = ["size", "A", "idx", "idx", "A"] ∧ nest.sites.length = 6 ∧
    ∃ d, program.dependences {} .subscript region = .ok d ∧ d.loops.map (·.loop) = [⟨0⟩, ⟨1⟩] ∧
      List.Forall₂ (Lowering.LowersAt program {})
        [⟨size, [⟨0⟩, ⟨1⟩]⟩, ⟨target, [⟨0⟩, ⟨1⟩]⟩, ⟨entry, [⟨0⟩, ⟨1⟩]⟩, ⟨entry, [⟨0⟩, ⟨1⟩]⟩,
          ⟨source, [⟨0⟩, ⟨1⟩]⟩] nest.bodySites := by
  have hnest : Lowering.nest program {} region = .ok nest := eq_ok_get nest_isSome
  obtain ⟨d, hd, hloops, haccesses⟩ := Program.registration_agrees_with_lowering hnest .subscript
  exact ⟨hnest, by decide +kernel, by decide +kernel, d, hd, hloops, haccesses⟩

end Buckets

end LoopSafety
