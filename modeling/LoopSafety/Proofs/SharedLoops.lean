import LoopSafety.Proofs.Parallel
import LoopSafety.Proofs.Separation

/-! Loops that stand in several places of a region.

A loop takes its label from its entry in the table of loops, and so do all other loops with this
entry. The subscript test looks at each of them on its own but answers with labels: one that passes
vouches for all. The verdicts cover every place of a loop exactly if its places pass or fail
together. -/
namespace LoopSafety

namespace Nest

lemma Effect.exists_cell {e : Effect} {array : String} (h : e.array? = some array) :
    ∃ indices write label, e = .cell array indices write label := by
  cases e with
  | cell array' indices write label =>
    cases h
    exact ⟨indices, write, label, rfl⟩
  | scalar name write conditional => cases h
  | unknown => cases h

lemma Effect.exists_scalar {e : Effect} {name : String} (h : e.written? = some name) :
    ∃ conditional, e = .scalar name true conditional := by
  cases e with
  | scalar name' write conditional =>
    cases write with
    | true =>
      cases h
      exact ⟨conditional, rfl⟩
    | false => cases h
  | cell array indices write label => cases h
  | unknown => cases h

namespace Loop

variable {l : Loop}

/-- What the subscript test asks of a loop: no calls or breaks, no scalar that is written and carried,
and for every array that is written one tuple of indices, among them the loop variable. -/
structure Passes (l : Loop) : Prop where
  known : Effect.unknown ∉ l.effects
  uncarried : ∀ name conditional, Effect.scalar name true conditional ∈ l.effects →
    ¬carries l.effects name
  separated : ∀ array indices label, Effect.cell array indices true label ∈ l.effects →
    .var l.head.induction ∈ indices ∧ ∀ indices' write label',
      Effect.cell array indices' write label' ∈ l.effects → indices' = indices

lemma uncarried_of_isIndependent (h : l.isIndependent) {name : String} {conditional : Bool}
    (hwrite : Effect.scalar name true conditional ∈ l.effects) : ¬carries l.effects name := by
  unfold isIndependent at h
  simp only [Bool.and_eq_true, List.all_eq_true, Bool.not_eq_true'] at h
  have hcarries := h.1.2 name (List.mem_filterMap.mpr ⟨_, hwrite, rfl⟩)
  rw [hcarries]
  exact Bool.false_ne_true

lemma Passes.separates (h : l.Passes) {array : String} {indices : List Expr} {label : String}
    (hwrite : Effect.cell array indices true label ∈ l.effects) :
    separates l.head.induction (cells l.effects array) := by
  obtain ⟨hvar, hsame⟩ := h.separated array indices label hwrite
  have hall : ∀ e ∈ cells l.effects array, e.indices = indices := by
    intro e he
    obtain ⟨he, harray⟩ := mem_cells.mp he
    obtain ⟨indices', write, label', rfl⟩ := Effect.exists_cell harray
    exact hsame indices' write label' he
  unfold Loop.separates
  split
  · rfl
  · next first rest hcells =>
    have hfirst := hall first (by rw [hcells]; exact List.mem_cons_self)
    rw [Bool.and_eq_true, List.all_eq_true, List.any_eq_true, hfirst]
    exact ⟨fun e he => decide_eq_true (hall e he), _, hvar, decide_eq_true rfl⟩

lemma Passes.conflicts_eq_nil (h : l.Passes) : l.conflicts = [] := by
  unfold conflicts
  rw [List.filter_eq_nil_iff]
  intro cs hcs hconflict
  obtain ⟨array, -, rfl⟩ := List.mem_map.mp hcs
  rw [Bool.and_eq_true, List.any_eq_true] at hconflict
  obtain ⟨⟨e, he, hwrite⟩, hseparates⟩ := hconflict
  obtain ⟨he, harray⟩ := mem_cells.mp he
  obtain ⟨indices, write, label, rfl⟩ := Effect.exists_cell harray
  cases write with
  | false => cases hwrite
  | true => simp [h.separates he] at hseparates

theorem isIndependent_iff : l.isIndependent ↔ l.Passes := by
  constructor
  · intro h
    refine ⟨unknown_not_mem h, fun _ _ => uncarried_of_isIndependent h, ?_⟩
    intro array indices label hwrite
    obtain ⟨⟨k, hk⟩, hsame⟩ := indices_of_separates (separates_of_isIndependent h hwrite)
      (mem_cells.mpr ⟨hwrite, rfl⟩)
    exact ⟨List.mem_of_getElem? hk, fun indices' write label' he =>
      hsame _ (mem_cells.mpr ⟨he, rfl⟩)⟩
  · intro h
    unfold isIndependent
    simp only [Bool.and_eq_true, Bool.not_eq_true', List.any_eq_false, List.all_eq_true,
      List.isEmpty_iff]
    refine ⟨⟨?_, ?_⟩, h.conflicts_eq_nil⟩
    · intro e he hunknown
      cases e with
      | unknown => exact h.known he
      | scalar name write conditional => cases hunknown
      | cell array indices write label => cases hunknown
    · intro name hname
      obtain ⟨e, he, hwritten⟩ := List.mem_filterMap.mp hname
      obtain ⟨conditional, rfl⟩ := Effect.exists_scalar hwritten
      exact Bool.eq_false_iff.mpr (h.uncarried name conditional he)

end Loop

lemma mem_independent_label_iff {n : Nest} {label : String} :
    label ∈ n.subscriptTest.independent ↔ ∃ l ∈ n.loops, l.head.label = label ∧ l.Passes := by
  rw [subscriptTest, mem_sortedSet, List.mem_map]
  constructor
  · rintro ⟨l, hl, hlabel⟩
    obtain ⟨hl, hpasses⟩ := List.mem_filter.mp hl
    exact ⟨l, hl, hlabel, Loop.isIndependent_iff.mp hpasses⟩
  · rintro ⟨l, hl, hlabel, hpasses⟩
    exact ⟨l, List.mem_filter.mpr ⟨hl, Loop.isIndependent_iff.mpr hpasses⟩, hlabel⟩

end Nest

lemma Occurrence.loopBody?_eq_some {o : Occurrence} {loop : LoopId} {body : Term} :
    o.loopBody? = some (loop, body) ↔ o.term.node = .forLoop loop body := by
  unfold loopBody?
  cases o.term.node <;> simp

namespace Program

variable {p : Program} {ctx : Context} {root : Term} {n : Nest}

/-- A loop that passes the subscript test when it is lowered on its own. -/
def LoopPasses (p : Program) (ctx : Context) (t : Term) : Prop :=
  ∃ m, Lowering.nest p ctx t = .ok m ∧ m.root.Passes

lemma loopPasses_iff_any {t : Term} : p.LoopPasses ctx t ↔
    (Lowering.nest p ctx t).toOption.any fun m => m.root.isIndependent := by
  unfold LoopPasses
  cases Lowering.nest p ctx t with
  | error e => simp [Except.toOption]
  | ok m => simp [Except.toOption, Nest.Loop.isIndependent_iff]

instance (t : Term) : Decidable (p.LoopPasses ctx t) := decidable_of_iff _ loopPasses_iff_any.symm

/-- Loops with one entry in the table pass or fail together. -/
def LoopsAgree (p : Program) (ctx : Context) (root : Term) : Prop :=
  ∀ loop, ∀ o ∈ root.occurrences [], o.loop? = some loop → ∀ o' ∈ root.occurrences [],
    o'.loop? = some loop → p.LoopPasses ctx o.term → p.LoopPasses ctx o'.term

/-- The nest of a loop that has been lowered as part of a region. -/
lemma nest_of_parts {t : Term} {loop : LoopId} {body : Term} {l : Nest.Loop}
    (ht : t.node = .forLoop loop body) (hhead : Lowering.loopHead p ctx loop = .ok l.head)
    (hbody : Lowering.block p ctx body = .ok l.body) :
    ∃ m, Lowering.nest p ctx t = .ok m ∧ m.root = l := by
  obtain ⟨id, node⟩ := t
  obtain rfl : node = .forLoop loop body := ht
  rw [Lowering.nest_forLoop, hhead, hbody]
  exact ⟨_, rfl, rfl⟩

lemma loopPasses_iff {t : Term} {loop : LoopId} {body : Term} {l : Nest.Loop}
    (ht : t.node = .forLoop loop body) (hhead : Lowering.loopHead p ctx loop = .ok l.head)
    (hbody : Lowering.block p ctx body = .ok l.body) : p.LoopPasses ctx t ↔ l.Passes := by
  obtain ⟨m, hm, rfl⟩ := nest_of_parts ht hhead hbody
  simp [LoopPasses, hm]

/-- The label of a loop is reported if the loop passes in one of its places. -/
lemma loopLabel_mem_independent_iff (h : Lowering.nest p ctx root = .ok n) {loop : LoopId} :
    Lowering.loopLabel loop ∈ n.subscriptTest.independent ↔
      ∃ o ∈ root.occurrences [], o.loop? = some loop ∧ p.LoopPasses ctx o.term := by
  rw [Nest.mem_independent_label_iff]
  constructor
  · rintro ⟨l, hl, hlabel, hpasses⟩
    obtain ⟨⟨loop', body⟩, hmem, hhead, hbody⟩ := exists_mem_of_forall₂ (Lowering.nest_kept h) hl
    obtain ⟨o, ho, hloop⟩ := List.mem_filterMap.mp hmem
    obtain rfl : loop' = loop :=
      Lowering.loopLabel_injective ((Lowering.loopHead_label hhead).symm.trans hlabel)
    refine ⟨o, ho, by rw [o.loop?_eq, hloop]; rfl, ?_⟩
    exact (loopPasses_iff (Occurrence.loopBody?_eq_some.mp hloop) hhead hbody).mpr hpasses
  · rintro ⟨o, ho, hloop, hpasses⟩
    rw [o.loop?_eq] at hloop
    obtain ⟨⟨loop', body⟩, hbody?, rfl⟩ := Option.map_eq_some_iff.mp hloop
    obtain ⟨l, hl, hhead, hbody⟩ := exists_mem_of_forall₂ (List.Forall₂.flip (Lowering.nest_kept h))
      (List.mem_filterMap.mpr ⟨o, ho, hbody?⟩)
    refine ⟨l, hl, Lowering.loopHead_label hhead, ?_⟩
    exact (loopPasses_iff (Occurrence.loopBody?_eq_some.mp hbody?) hhead hbody).mp hpasses

/-- By the subscript test a loop may run in parallel if it passes in one of its places, and nothing
else stands against it. All its places then pass exactly if the places of loops agree. -/
theorem parallel_in_all_places_iff (h : Lowering.nest p ctx root = .ok n) :
    ∃ d, p.dependences ctx .subscript root = .ok d ∧
      (∀ v ∈ d.loops, v.safe ↔
        (∃ o ∈ root.occurrences [], o.loop? = some v.loop ∧ p.LoopPasses ctx o.term) ∧
          p.collision? root = none ∧ d.cyclic = false) ∧
      ((∀ v ∈ d.loops, v.safe → ∀ o ∈ root.occurrences [], o.loop? = some v.loop →
          p.LoopPasses ctx o.term) ↔
        (p.collision? root = none → d.cyclic = false → p.LoopsAgree ctx root)) := by
  have hsafe : ∀ v ∈ n.loopLabels.filterMap (p.verdictOn root (Oracle.subscript.answer n)),
      v.safe ↔ (∃ o ∈ root.occurrences [], o.loop? = some v.loop ∧ p.LoopPasses ctx o.term) ∧
        p.collision? root = none ∧
          (Digraph.ofEdges (Oracle.subscript.answer n).flows).findCycle.isSome = false := by
    intro v hv
    obtain ⟨label, -, hv⟩ := List.mem_filterMap.mp hv
    obtain ⟨-, hloop, hiff⟩ := verdictOn_eq_some hv
    rw [hiff, ← hloop, ← Digraph.ofEdges_findCycle_eq_none_iff, Option.isSome_eq_false_iff,
      Option.isNone_iff_eq_none, ← loopLabel_mem_independent_iff h]
    rfl
  refine ⟨_, dependences_eq h .subscript, hsafe, ?_⟩
  constructor
  · intro hcovers hcollision hcyclic loop o ho hloop o' ho' hloop' hpasses
    have hverdict : loop ∈
        (n.loopLabels.filterMap (p.verdictOn root (Oracle.subscript.answer n))).map (·.loop) := by
      rw [verdicts_loops h]
      exact List.mem_filterMap.mpr ⟨o, ho, hloop⟩
    obtain ⟨v, hv, rfl⟩ := List.mem_map.mp hverdict
    exact hcovers v hv ((hsafe v hv).mpr ⟨⟨o, ho, hloop, hpasses⟩, hcollision, hcyclic⟩) o' ho' hloop'
  · intro hagree v hv hvsafe o' ho' hloop'
    obtain ⟨⟨o, ho, hloop, hpasses⟩, hcollision, hcyclic⟩ := (hsafe v hv).mp hvsafe
    exact hagree hcollision hcyclic v.loop o ho hloop o' ho' hloop' hpasses

end Program

/-! A loop over `j`, and in it two loops over `i` with one entry in the table: `A[i] = 0` and
`t = s + i`, where `t` is the scalar `s` or the cell `B[i]`. -/
namespace Accumulation

def arrays : List ArrayDecl :=
  [⟨"A", .intArray, [10], none, false, none⟩, ⟨"B", .intArray, [10], none, false, none⟩]

def loops : List LoopInfo := [⟨"i", .int, .simple ⟨0, 10, 1⟩⟩, ⟨"j", .int, .simple ⟨0, 4, 1⟩⟩]

def file (scalar : Bool) : KernelFile where
  arrays := arrays
  nodes :=
    [.var "i" .int none, .literal (.int 0), .access ⟨0⟩ [⟨0⟩], .assign ⟨2⟩ ⟨1⟩, .forLoop ⟨0⟩ ⟨3⟩,
      .var "s" .int none, .binary .add ⟨5⟩ ⟨0⟩ .int, .access ⟨1⟩ [⟨0⟩],
      .assign (if scalar then ⟨5⟩ else ⟨7⟩) ⟨6⟩, .forLoop ⟨0⟩ ⟨8⟩, .block [⟨4⟩, ⟨9⟩],
      .forLoop ⟨1⟩ ⟨10⟩]
  loops := loops
  functions := []
  regions := [⟨11⟩]
  constants := []
  instantiations := []

def index : Term := ⟨⟨0⟩, .var "i" .int none⟩
def zero : Term := ⟨⟨1⟩, .literal (.int 0)⟩
def cell : Term := ⟨⟨2⟩, .access ⟨0⟩ [index]⟩
def clear : Term := ⟨⟨3⟩, .assign cell zero⟩
def first : Term := ⟨⟨4⟩, .forLoop ⟨0⟩ clear⟩
def total : Term := ⟨⟨5⟩, .var "s" .int none⟩
def sum : Term := ⟨⟨6⟩, .binary .add total index .int⟩
def kept : Term := ⟨⟨7⟩, .access ⟨1⟩ [index]⟩
def store (scalar : Bool) : Term := ⟨⟨8⟩, .assign (if scalar then total else kept) sum⟩
def second (scalar : Bool) : Term := ⟨⟨9⟩, .forLoop ⟨0⟩ (store scalar)⟩
def body (scalar : Bool) : Term := ⟨⟨10⟩, .block [first, second scalar]⟩
def region (scalar : Bool) : Term := ⟨⟨11⟩, .forLoop ⟨1⟩ (body scalar)⟩

def program (scalar : Bool) : Program where
  terms := #[index, zero, cell, clear, first, total, sum, kept, store scalar, second scalar,
    body scalar, region scalar]
  loops := loops.toArray
  arrays := #[⟨"A", ⟨.intArray, [10]⟩, none, false⟩, ⟨"B", ⟨.intArray, [10]⟩, none, false⟩]

def kernel (scalar : Bool) : Kernel where
  program := program scalar
  regions := [⟨11⟩]
  constants := ∅
  instantiations := []

lemma toKernel_eq (scalar : Bool) : (file scalar).toKernel = .ok (kernel scalar) := by
  cases scalar <;> rfl

lemma nest_isSome : (Lowering.nest (program false) {} (region false)).toOption.isSome := by
  decide +kernel

def nest : Nest := (Lowering.nest (program false) {} (region false)).toOption.get nest_isSome

lemma dependences_isSome (scalar : Bool) :
    ((program scalar).dependences {} .subscript (region scalar)).toOption.isSome := by
  cases scalar <;> decide +kernel

def dependences (scalar : Bool) : Dependences :=
  ((program scalar).dependences {} .subscript (region scalar)).toOption.get (dependences_isSome scalar)

lemma dependences_eq (scalar : Bool) :
    (program scalar).dependences {} .subscript (region scalar) = .ok (dependences scalar) :=
  eq_ok_get (dependences_isSome scalar)

lemma cells_agree : (program false).LoopsAgree {} (region false) := by
  have hagree : ∀ o ∈ (region false).occurrences [], ∀ o' ∈ (region false).occurrences [],
      o.loop? = o'.loop? → (program false).LoopPasses {} o.term →
        (program false).LoopPasses {} o'.term := by decide +kernel
  intro loop o ho hloop o' ho' hloop'
  exact hagree o ho o' ho' (hloop.trans hloop'.symm)

/-- With a cell as target both loops over `i` pass, so both may run in parallel. -/
theorem cells_parallel_in_both_places :
    Lowering.nest (program false) {} (region false) = .ok nest ∧
    (program false).dependences {} .subscript (region false) = .ok (dependences false) ∧
    (∃ v ∈ (dependences false).loops, v.loop = ⟨0⟩ ∧ v.safe) ∧
    ∀ o ∈ (region false).occurrences [], o.loop? = some ⟨0⟩ →
      (program false).LoopPasses {} o.term := by
  have hnest : Lowering.nest (program false) {} (region false) = .ok nest := eq_ok_get nest_isSome
  obtain ⟨d, hd, hsafe, hcovers⟩ := Program.parallel_in_all_places_iff hnest
  obtain rfl : dependences false = d := Except.ok.inj ((dependences_eq false).symm.trans hd)
  have hverdict : ∃ v ∈ (dependences false).loops, v.loop = ⟨0⟩ := by decide +kernel
  have hpasses : ∃ o ∈ (region false).occurrences [], o.loop? = some ⟨0⟩ ∧
      (program false).LoopPasses {} o.term := by decide +kernel
  obtain ⟨v, hv, hloop⟩ := hverdict
  have hvsafe : v.safe :=
    (hsafe v hv).mpr ⟨hloop ▸ hpasses, by decide +kernel, by decide +kernel⟩
  refine ⟨hnest, hd, ⟨v, hv, hloop, hvsafe⟩, ?_⟩
  rw [← hloop]
  exact hcovers.mpr (fun _ _ => cells_agree) v hv hvsafe

/-- With a scalar as target every iteration of the second loop needs the one before, and it may still
run in parallel because the first loop may. -/
theorem carried_scalar_reported_safe :
    (file true).toKernel = .ok (kernel true) ∧ (kernel true).regions = [⟨11⟩] ∧
    (kernel true).program.term? ⟨11⟩ = some (region true) ∧
    (kernel true).program.dependences {} .subscript (region true) = .ok (dependences true) ∧
    ∃ v ∈ (dependences true).loops, v.safe ∧ ∃ o ∈ (region true).occurrences [],
      o.loop? = some v.loop ∧ ¬(kernel true).program.LoopPasses {} o.term := by
  refine ⟨toKernel_eq true, rfl, rfl, dependences_eq true, ?_⟩
  decide +kernel

end Accumulation

end LoopSafety
