import LoopSafety.Dependence
import LoopSafety.Proofs.Scanning

/-! The tables of labels that lowering fills.

The statements that a construct becomes do not depend on the tables, and the entries that it makes do
not depend on what it becomes. So lowering is two functions of a construct side by side, and the tables
hold the entries of the whole region: every loop of the nest under its label, and nothing under the
label of another. -/
namespace LoopSafety.Lowering

open Nest (Stmt)

section

variable (p : Program) (ctx : Context)

mutual

/-- The statements of a construct, without the tables. -/
def block : Term → Except Error (List Stmt)
  | .mk _ (.block statements) => blocks statements
  | .mk _ (.forLoop loop body) => do
    let head ← loopHead p ctx loop
    return [.loop head (← block body)]
  | .mk id (.assign target value) => do
    let target ← expr p target
    let value ← expr p value
    return [.assign (statementLabel id) target value]
  | .mk id (.cond condition thenPart none _) => do
    let c ← expr p condition
    let t ← block thenPart
    return [.cond (statementLabel id) c t []]
  | .mk id (.cond condition thenPart (some elsePart) _) => do
    let c ← expr p condition
    let t ← block thenPart
    let e ← block elsePart
    return [.cond (statementLabel id) c t e]
  | .mk id .brk => return [.brk (statementLabel id)]
  | t@(.mk _ (.whileLoop ..)) | t@(.mk _ (.ret _)) =>
    throw (.unsupported (p.describe t) .notAStatement)
  | t@(.mk id (.literal _)) | t@(.mk id (.var ..)) | t@(.mk id (.binary ..))
  | t@(.mk id (.unary ..)) | t@(.mk id (.access ..)) | t@(.mk id (.builtin ..))
  | t@(.mk id (.math ..)) | t@(.mk id (.call ..)) => do
    return [.expr (statementLabel id) (← expr p t)]

def blocks : List Term → Except Error (List Stmt)
  | [] => return []
  | t :: ts => do
    let first ← block t
    return first ++ (← blocks ts)

end

end

def targetEntries : Term → List Entry
  | .mk _ (.var name ..) => [.assigned name]
  | _ => []

mutual

/-- What a construct enters into the tables. -/
def entries : Term → List Entry
  | .mk _ (.block statements) => entriesOf statements
  | .mk _ (.forLoop loop body) => .loop loop :: entries body
  | t@(.mk _ (.assign target _)) => targetEntries target ++ [.statement t]
  | t@(.mk _ (.cond _ thenPart none _)) => .statement t :: entries thenPart
  | t@(.mk _ (.cond _ thenPart (some elsePart) _)) =>
    .statement t :: (entries thenPart ++ entries elsePart)
  | .mk _ (.whileLoop ..) | .mk _ (.ret _) => []
  | t@(.mk _ .brk) | t@(.mk _ (.literal _)) | t@(.mk _ (.var ..)) | t@(.mk _ (.binary ..))
  | t@(.mk _ (.unary ..)) | t@(.mk _ (.access ..)) | t@(.mk _ (.builtin ..))
  | t@(.mk _ (.math ..)) | t@(.mk _ (.call ..)) => [.statement t]

def entriesOf : List Term → List Entry
  | [] => []
  | t :: ts => entries t ++ entriesOf ts

end

lemma mem_entriesOf {ts : List Term} {entry : Entry} :
    entry ∈ entriesOf ts ↔ ∃ t ∈ ts, entry ∈ entries t := by
  induction ts with
  | nil => simp [entriesOf]
  | cons t ts ih => simp [entriesOf, ih]

def Labels.enterAll (labels : Labels) (entries : List Entry) : Labels := entries.foldl enter labels

lemma Labels.enterAll_append (labels : Labels) (first rest : List Entry) :
    labels.enterAll (first ++ rest) = (labels.enterAll first).enterAll rest := List.foldl_append

/-- Lowering comes to a result and makes entries, whatever the tables hold. -/
def Makes {α : Type} (x : Labelling α) (result : Except Error α) (made : List Entry) : Prop :=
  ∀ labels, x.run labels = result.map fun a => (a, labels.enterAll made)

namespace Makes

variable {α β : Type} {x : Labelling α} {f : α → Labelling β} {result : Except Error α}
  {result' : α → Except Error β} {made made' : List Entry}

lemma pure (a : α) : Makes (Pure.pure a) (.ok a) [] := fun _ => rfl

lemma throw (e : Error) (made : List Entry) :
    Makes (MonadExcept.throw e : Labelling α) (.error e) made := fun _ => rfl

/-- Results follow on each other, and the later entries come after the earlier. -/
lemma bind (hx : Makes x result made) (hf : ∀ a, Makes (f a) (result' a) made') :
    Makes (x >>= f) (result >>= result') (made ++ made') := by
  intro labels
  rw [StateT.run_bind, hx labels, Labels.enterAll_append]
  cases result with
  | error e => rfl
  | ok a => exact hf a _

lemma bind_pure (hx : Makes x result made) (g : α → β) :
    Makes (x >>= fun a => Pure.pure (g a)) (result >>= fun a => Pure.pure (g a)) made := by
  have h := hx.bind fun a => pure (g a)
  rw [List.append_nil] at h
  exact h

/-- A step that makes no entries. -/
lemma lift_bind (y : Except Error α) (hf : ∀ a, Makes (f a) (result' a) made') :
    Makes (liftM y >>= f) (y >>= result') made' := by
  have hy : Makes (liftM y : Labelling α) y [] := by
    intro labels
    cases y <;> rfl
  exact hy.bind hf

/-- A step that only makes entries. -/
lemma enter_bind (entry : Entry) (hx : Makes x result made) :
    Makes (enter entry >>= fun _ => x) result (entry :: made) := fun labels => hx (labels.enter entry)

lemma enterTarget_bind (t : Term) (hx : Makes x result made) :
    Makes (enterTarget t >>= fun _ => x) result (targetEntries t ++ made) := by
  obtain ⟨id, node⟩ := t
  cases node with
  | var name ty definition => exact enter_bind _ hx
  | _ => exact hx

end Makes

variable {p : Program} {ctx : Context}

mutual

/-- Lowering is a translation beside a list of entries. -/
theorem lowerBlock_makes : ∀ t : Term, Makes (lowerBlock p ctx t) (block p ctx t) (entries t)
  | .mk _ (.block statements) => by
    rw [lowerBlock, block, entries]
    exact lowerBlocks_makes statements
  | .mk _ (.forLoop loop body) => by
    rw [lowerBlock, block, entries]
    exact .enter_bind _ (.lift_bind _ fun _ => (lowerBlock_makes body).bind_pure _)
  | .mk _ (.assign target value) => by
    rw [lowerBlock, block, entries]
    refine .enterTarget_bind _ (.enter_bind _ ?_)
    exact .lift_bind _ fun _ => .lift_bind _ fun _ => .pure _
  | .mk _ (.cond _ thenPart none _) => by
    rw [lowerBlock, block, entries]
    exact .enter_bind _ (.lift_bind _ fun _ => (lowerBlock_makes thenPart).bind_pure _)
  | .mk _ (.cond _ thenPart (some elsePart) _) => by
    rw [lowerBlock, block, entries]
    refine .enter_bind _ (.lift_bind _ fun _ => ?_)
    exact (lowerBlock_makes thenPart).bind fun _ => (lowerBlock_makes elsePart).bind_pure _
  | .mk _ .brk => by
    rw [lowerBlock, block, entries]
    exact .enter_bind _ (.pure _)
  | .mk _ (.whileLoop ..) | .mk _ (.ret _) => by
    rw [lowerBlock, block]
    exact .throw _ _
  | .mk _ (.literal _) | .mk _ (.var ..) | .mk _ (.binary ..) | .mk _ (.unary ..)
  | .mk _ (.access ..) | .mk _ (.builtin ..) | .mk _ (.math ..) | .mk _ (.call ..) => by
    rw [lowerBlock, block, entries]
    exact .enter_bind _ (.lift_bind _ fun _ => .pure _)

theorem lowerBlocks_makes : ∀ ts : List Term,
    Makes (lowerBlocks p ctx ts) (blocks p ctx ts) (entriesOf ts)
  | [] => by
    rw [lowerBlocks, blocks, entriesOf]
    exact .pure []
  | t :: ts => by
    rw [lowerBlocks, blocks, entriesOf]
    exact (lowerBlock_makes t).bind fun _ => (lowerBlocks_makes ts).bind_pure _

end

/-- The names of a lowered loop, whether its range is resolved or not. -/
lemma loopHead_names {loop : LoopId} {head : Nest.LoopHead} (h : loopHead p ctx loop = .ok head) :
    ∃ info, p.loop? loop = some info ∧ head.label = loopLabel loop ∧
      head.induction = info.induction := by
  unfold loopHead at h
  split at h
  · cases h
  · rename_i info hinfo
    refine ⟨info, hinfo, ?_⟩
    dsimp only at h
    split at h
    · cases h
      exact ⟨rfl, rfl⟩
    · obtain ⟨_, -, h⟩ := bind_eq_ok h
      obtain ⟨_, -, h⟩ := bind_eq_ok h
      obtain ⟨_, -, h⟩ := bind_eq_ok h
      cases h
      exact ⟨rfl, rfl⟩
    · cases h
      exact ⟨rfl, rfl⟩

lemma loopHead_label {loop : LoopId} {head : Nest.LoopHead} (h : loopHead p ctx loop = .ok head) :
    head.label = loopLabel loop := by
  obtain ⟨_, -, hlabel, -⟩ := loopHead_names h
  exact hlabel

def Entry.loop? : Entry → Option LoopId
  | loop l => some l
  | _ => none

def Entry.assigned? : Entry → Option String
  | assigned name => some name
  | _ => none

lemma loopsOf_append (first rest : List Stmt) :
    Stmt.loopsOf (first ++ rest) = Stmt.loopsOf first ++ Stmt.loopsOf rest := by
  induction first with
  | nil => rfl
  | cons s first ih =>
    rw [List.cons_append, Stmt.loopsOf, Stmt.loopsOf, ih, List.append_assoc]

lemma assignedOf_append (first rest : List Stmt) :
    Stmt.assignedOf (first ++ rest) = Stmt.assignedOf first ++ Stmt.assignedOf rest := by
  induction first with
  | nil => rfl
  | cons s first ih =>
    rw [List.cons_append, Stmt.assignedOf, Stmt.assignedOf, ih, List.append_assoc]

/-- Entries can be read off statements: the labels of their loops and the scalars that they assign, in
the same order. -/
structure Shown (made : List Entry) (stmts : List Stmt) : Prop where
  loops : (made.filterMap Entry.loop?).map loopLabel = (Stmt.loopsOf stmts).map (·.head.label)
  assigned : made.filterMap Entry.assigned? = Stmt.assignedOf stmts

namespace Shown

variable {made made' : List Entry} {stmts stmts' : List Stmt}

lemma append (h : Shown made stmts) (h' : Shown made' stmts') :
    Shown (made ++ made') (stmts ++ stmts') where
  loops := by
    rw [List.filterMap_append, List.map_append, h.loops, h'.loops, loopsOf_append, List.map_append]
  assigned := by rw [List.filterMap_append, h.assigned, h'.assigned, assignedOf_append]

lemma statement (h : Shown made stmts) (t : Term) : Shown (.statement t :: made) stmts :=
  ⟨h.loops, h.assigned⟩

lemma loop {loop : LoopId} {head : Nest.LoopHead} (hhead : loopHead p ctx loop = .ok head)
    (h : Shown made stmts) : Shown (.loop loop :: made) [.loop head stmts] where
  loops := by
    have hentry : Entry.loop? (.loop loop) = some loop := rfl
    rw [List.filterMap_cons_some hentry, List.map_cons, h.loops, ← loopHead_label hhead]
    simp [Stmt.loopsOf, Stmt.loops]
  assigned := by
    rw [List.filterMap_cons_none rfl, h.assigned]
    simp [Stmt.assignedOf, Stmt.assigned]

lemma cond (h : Shown made stmts) (h' : Shown made' stmts') (label : String) (c : Nest.Expr) :
    Shown (made ++ made') [.cond label c stmts stmts'] where
  loops := by
    rw [(h.append h').loops, loopsOf_append]
    simp [Stmt.loopsOf, Stmt.loops]
  assigned := by
    rw [(h.append h').assigned, assignedOf_append]
    simp [Stmt.assignedOf, Stmt.assigned]

/-- Only a variable becomes a variable. -/
lemma target {t : Term} {e : Nest.Expr} (h : expr p t = .ok e) (label : String) (value : Nest.Expr) :
    Shown (targetEntries t) [.assign label e value] := by
  obtain ⟨id, node⟩ := t
  cases node with
  | literal | var =>
    rw [expr] at h
    cases h
    exact ⟨rfl, rfl⟩
  | binary =>
    rw [expr] at h
    obtain ⟨_, -, h⟩ := bind_eq_ok h
    obtain ⟨_, -, h⟩ := bind_eq_ok h
    cases h
    exact ⟨rfl, rfl⟩
  | unary | builtin | math =>
    rw [expr] at h
    obtain ⟨_, -, h⟩ := bind_eq_ok h
    cases h
    exact ⟨rfl, rfl⟩
  | access | call =>
    rw [expr] at h
    split at h
    · cases h
    · obtain ⟨_, -, h⟩ := bind_eq_ok h
      cases h
      exact ⟨rfl, rfl⟩
  | cond _ _ elsePart =>
    cases elsePart with
    | none =>
      rw [expr] at h
      cases h
    | some =>
      rw [expr] at h
      obtain ⟨_, -, h⟩ := bind_eq_ok h
      obtain ⟨_, -, h⟩ := bind_eq_ok h
      obtain ⟨_, -, h⟩ := bind_eq_ok h
      cases h
      exact ⟨rfl, rfl⟩
  | forLoop | whileLoop | block | assign | ret | brk =>
    rw [expr] at h
    cases h

end Shown

mutual

theorem entries_shown : ∀ {t : Term} {stmts : List Stmt}, block p ctx t = .ok stmts →
    Shown (entries t) stmts
  | .mk _ (.block statements), _, h => by
    rw [block] at h
    rw [entries]
    exact entriesOf_shown h
  | .mk _ (.forLoop loop body), _, h => by
    rw [block] at h
    obtain ⟨head, hhead, h⟩ := bind_eq_ok h
    obtain ⟨stmts, hbody, h⟩ := bind_eq_ok h
    cases h
    rw [entries]
    exact (entries_shown hbody).loop hhead
  | .mk id (.assign target value), _, h => by
    rw [block] at h
    obtain ⟨_, ht, h⟩ := bind_eq_ok h
    obtain ⟨_, -, h⟩ := bind_eq_ok h
    cases h
    rw [entries]
    exact (Shown.target ht _ _).append ⟨rfl, rfl⟩
  | .mk _ (.cond _ thenPart none _), _, h => by
    rw [block] at h
    obtain ⟨_, -, h⟩ := bind_eq_ok h
    obtain ⟨_, ht, h⟩ := bind_eq_ok h
    cases h
    rw [entries, ← List.append_nil (entries thenPart)]
    exact ((entries_shown ht).cond ⟨rfl, rfl⟩ _ _).statement _
  | .mk _ (.cond _ thenPart (some elsePart) _), _, h => by
    rw [block] at h
    obtain ⟨_, -, h⟩ := bind_eq_ok h
    obtain ⟨_, ht, h⟩ := bind_eq_ok h
    obtain ⟨_, he, h⟩ := bind_eq_ok h
    cases h
    rw [entries]
    exact ((entries_shown ht).cond (entries_shown he) _ _).statement _
  | .mk _ .brk, _, h => by
    rw [block] at h
    cases h
    rw [entries]
    exact ⟨rfl, rfl⟩
  | .mk _ (.whileLoop ..), _, h | .mk _ (.ret _), _, h => by
    rw [block] at h
    cases h
  | .mk _ (.literal _), _, h | .mk _ (.var ..), _, h | .mk _ (.binary ..), _, h
  | .mk _ (.unary ..), _, h | .mk _ (.access ..), _, h | .mk _ (.builtin ..), _, h
  | .mk _ (.math ..), _, h | .mk _ (.call ..), _, h => by
    rw [block] at h
    obtain ⟨_, -, h⟩ := bind_eq_ok h
    cases h
    rw [entries]
    exact ⟨rfl, rfl⟩

theorem entriesOf_shown : ∀ {ts : List Term} {stmts : List Stmt}, blocks p ctx ts = .ok stmts →
    Shown (entriesOf ts) stmts
  | [], _, h => by
    rw [blocks] at h
    cases h
    exact ⟨rfl, rfl⟩
  | t :: ts, _, h => by
    rw [blocks] at h
    obtain ⟨first, ht, h⟩ := bind_eq_ok h
    obtain ⟨rest, hts, h⟩ := bind_eq_ok h
    cases h
    rw [entriesOf]
    exact (entries_shown ht).append (entriesOf_shown hts)

end

/-- The tables after a region has been lowered. -/
def labels (root : Term) : Labels := ({} : Labels).enterAll (entries root)

lemma enterAll_assigned (tables : Labels) (made : List Entry) :
    (tables.enterAll made).assigned = tables.assigned ++ made.filterMap Entry.assigned? := by
  induction made generalizing tables with
  | nil => exact (List.append_nil _).symm
  | cons entry made ih =>
    rw [Labels.enterAll, List.foldl_cons]
    refine (ih _).trans ?_
    cases entry with
    | assigned name => exact List.append_assoc _ _ _
    | _ => rfl

lemma lower_forLoop (id : NodeId) (loop : LoopId) (body : Term) :
    (lower p ctx (.mk id (.forLoop loop body))).run {} = do
      let head ← loopHead p ctx loop
      let stmts ← block p ctx body
      return ({
        root := ⟨head, stmts⟩
        locals := Nest.sortedSet (Stmt.assignedOf stmts)
        constants := ctx.constants }, labels (.mk id (.forLoop loop body))) := by
  have hbody := @lowerBlock_makes p ctx body (({} : Labels).enter (.loop loop))
  have hlabels : (({} : Labels).enter (.loop loop)).enterAll (entries body) =
      labels (.mk id (.forLoop loop body)) := by
    rw [labels, entries]
    rfl
  rw [hlabels] at hbody
  change ((do
    let head ← loopHead p ctx loop
    let body ← lowerBlock p ctx body
    return {
      root := ⟨head, body⟩
      locals := Nest.sortedSet (← get).assigned
      constants := ctx.constants }) : Labelling Nest).run (({} : Labels).enter (.loop loop)) = _
  cases loopHead p ctx loop with
  | error e => rfl
  | ok head =>
    change ((lowerBlock p ctx body).run _ >>= _) = _
    rw [hbody]
    cases hstmts : block p ctx body with
    | error e => rfl
    | ok stmts =>
      have hassigned : (labels (.mk id (.forLoop loop body))).assigned = Stmt.assignedOf stmts := by
        rw [← (entries_shown hstmts).assigned, labels, enterAll_assigned, entries]
        rfl
      exact congrArg (fun assigned => Except.ok ({
        root := ⟨head, stmts⟩
        locals := Nest.sortedSet assigned
        constants := ctx.constants : Nest }, labels _)) hassigned

/-- The nest of a loop, without the tables. -/
theorem nest_forLoop (id : NodeId) (loop : LoopId) (body : Term) :
    nest p ctx (.mk id (.forLoop loop body)) = do
      let head ← loopHead p ctx loop
      let body ← block p ctx body
      return {
        root := ⟨head, body⟩
        locals := Nest.sortedSet (Stmt.assignedOf body)
        constants := ctx.constants } := by
  change (·.1) <$> (lower p ctx (.mk id (.forLoop loop body))).run {} = _
  rw [lower_forLoop]
  cases loopHead p ctx loop with
  | error e => rfl
  | ok head => cases block p ctx body <;> rfl

theorem lower_run (root : Term) :
    (lower p ctx root).run {} = (nest p ctx root).map fun n => (n, labels root) := by
  obtain ⟨id, node⟩ := root
  cases node with
  | forLoop loop body =>
    rw [lower_forLoop, nest_forLoop]
    cases loopHead p ctx loop with
    | error e => rfl
    | ok head => cases block p ctx body <;> rfl
  | _ => rfl

lemma loopLabel_injective : Function.Injective loopLabel := by
  intro a b h
  have htext : "L" ++ toString a.index = "L" ++ toString b.index := (String.append_right_inj _).mp h
  have hrepr : a.index.toNat.repr = b.index.toNat.repr := (String.append_right_inj _).mp htext
  rw [Nat.repr_eq_ofList_toDigits, Nat.repr_eq_ofList_toDigits] at hrepr
  have hindex : a.index.toNat = b.index.toNat := calc
    a.index.toNat = Nat.ofDigitChars 10 (Nat.toDigits 10 a.index.toNat) 0 :=
      Nat.ofDigitChars_ten_toDigits.symm
    _ = Nat.ofDigitChars 10 (Nat.toDigits 10 b.index.toNat) 0 := by
      rw [String.ofList_injective hrepr]
    _ = b.index.toNat := Nat.ofDigitChars_ten_toDigits
  exact congrArg LoopId.mk (UInt32.toNat.inj hindex)

/-- An entry under a label is that of the last loop with it, or was there before. -/
lemma enterAll_loops_get? (tables : Labels) (made : List Entry) (label : String) (loop : LoopId) :
    (tables.enterAll made).loops.get? label = some loop ↔
      (.loop loop ∈ made ∧ loopLabel loop = label) ∨
        (∀ l, .loop l ∈ made → loopLabel l ≠ label) ∧ tables.loops.get? label = some loop := by
  induction made generalizing tables with
  | nil => simp [Labels.enterAll]
  | cons entry made ih =>
    refine (ih (tables.enter entry)).trans ?_
    cases entry with
    | loop l =>
      have hget : (tables.enter (.loop l)).loops.get? label =
          if loopLabel l = label then some l else tables.loops.get? label := Table.get?_insert ..
      rw [hget]
      by_cases hl : loopLabel l = label
      · -- another loop with this label is this one again
        subst hl
        rw [if_pos rfl]
        constructor
        · rintro (⟨-, hloop⟩ | ⟨-, hloop⟩)
          · exact .inl ⟨List.mem_cons.mpr (.inl (congrArg _ (loopLabel_injective hloop))), hloop⟩
          · obtain rfl := Option.some.inj hloop
            exact .inl ⟨List.mem_cons_self, rfl⟩
        · rintro (⟨-, hloop⟩ | ⟨hnone, -⟩)
          · obtain rfl := loopLabel_injective hloop
            by_cases hmem : .loop loop ∈ made
            · exact .inl ⟨hmem, rfl⟩
            · exact .inr ⟨fun l hl heq => hmem (loopLabel_injective heq ▸ hl), rfl⟩
          · exact absurd rfl (hnone l List.mem_cons_self)
      · have hne : loopLabel loop = label → loop ≠ l := by
          rintro hloop rfl
          exact hl hloop
        rw [if_neg hl]
        simp only [List.mem_cons, Entry.loop.injEq, forall_eq_or_imp]
        tauto
    | statement t => simp [Labels.enter]
    | assigned name => simp [Labels.enter]

/-- The table of loops holds the loops of the region, each under its label. -/
theorem labels_loops_get? (root : Term) (label : String) (loop : LoopId) :
    (labels root).loops.get? label = some loop ↔
      .loop loop ∈ entries root ∧ loopLabel loop = label := by
  rw [labels, enterAll_loops_get?]
  simp

lemma enterAll_statements_get? {tables : Labels} {made : List Entry} {label : String} {t : Term}
    (h : (tables.enterAll made).statements.get? label = some t) :
    .statement t ∈ made ∨ tables.statements.get? label = some t := by
  induction made generalizing tables with
  | nil => exact .inr h
  | cons entry made ih =>
    obtain ht | ht := ih h
    · exact .inl (List.mem_cons_of_mem entry ht)
    · cases entry with
      | statement s =>
        have hget : (tables.enter (.statement s)).statements.get? label =
            if statementLabel s.id = label then some s else tables.statements.get? label :=
          Table.get?_insert ..
        rw [hget] at ht
        split at ht
        · obtain rfl := Option.some.inj ht
          exact .inl List.mem_cons_self
        · exact .inr ht
      | _ => exact .inr ht

/-- Under the label of a statement stands a statement of the region. -/
lemma statement_mem_entries {root t : Term} {label : String}
    (h : (labels root).statements.get? label = some t) : .statement t ∈ entries root :=
  (enterAll_statements_get? h).resolve_right (by simp)

/-- Every loop of the nest is in the table. -/
theorem exists_loop_of_mem_loopLabels {root : Term} {n : Nest} (h : nest p ctx root = .ok n)
    {label : String} (hlabel : label ∈ n.loopLabels) :
    ∃ loop, (labels root).loops.get? label = some loop := by
  obtain ⟨id, node⟩ := root
  cases node with
  | forLoop loop body =>
    rw [nest_forLoop] at h
    obtain ⟨head, hhead, h⟩ := bind_eq_ok h
    obtain ⟨stmts, hbody, h⟩ := bind_eq_ok h
    cases h
    have hshown := ((entries_shown hbody).loop hhead).loops
    have hroot : entries (.mk id (.forLoop loop body)) = .loop loop :: entries body := by rw [entries]
    have hmem : label ∈ ((entries (.mk id (.forLoop loop body))).filterMap Entry.loop?).map loopLabel := by
      rw [hroot, hshown]
      simpa [Stmt.loopsOf, Stmt.loops, Nest.loopLabels, Nest.loops, Nest.Loop.loops] using hlabel
    obtain ⟨found, hfound, hlabel⟩ := List.mem_map.mp hmem
    obtain ⟨entry, hentry, hloop⟩ := List.mem_filterMap.mp hfound
    cases entry with
    | loop l =>
      obtain rfl := Option.some.inj hloop
      exact ⟨l, (labels_loops_get? _ _ _).mpr ⟨hentry, hlabel⟩⟩
    | _ => cases hloop
  | _ => cases h

end LoopSafety.Lowering
