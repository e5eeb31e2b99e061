import LoopSafety.Proofs.Memoization
import LoopSafety.Proofs.Tables

/-! Building bounds without a lookup that fails.

Two computations are followed side by side: one that looks up in a program, one that looks up in a
program whose tables go on after the end of the first. As long as everything that they start from lies
within the first program they cannot be told apart, no lookup fails, and what they come to lies within
the first program as well. -/
namespace LoopSafety

/-- A result with a property, or an error other than that of a lookup. -/
inductive Lands {α : Type} (post : α → Prop) : Except Error α → Prop
  | ok {a : α} (h : post a) : Lands post (.ok a)
  | error {e : Error} (h : ∀ handle, e ≠ .missing handle) : Lands post (.error e)

lemma Lands.ne_missing {α : Type} {post : α → Prop} {r : Except Error α} (h : Lands post r)
    (handle : Handle) : r ≠ .error (.missing handle) := by
  cases h with
  | ok _ => simp
  | error h =>
    intro heq
    cases heq
    exact h handle rfl

/-- From every state with an invariant the second computation does what the first does. The invariant
stays, and the result has a property. -/
def Follows {σ α : Type} (inv : σ → Prop) (post : α → Prop) (m m' : StateM σ α) : Prop :=
  ∀ s, inv s → m'.run s = m.run s ∧ inv (m.run s).2 ∧ post (m.run s).1

namespace Follows

variable {σ α β : Type} {inv : σ → Prop} {post mid : α → Prop} {post' : β → Prop}
  {m m' : StateM σ α} {f f' : α → StateM σ β}

theorem pure {a : α} (h : post a) : Follows inv post (Pure.pure a) (Pure.pure a) :=
  fun _ hs => ⟨rfl, hs, h⟩

theorem get : Follows inv inv (MonadState.get : StateM σ σ) MonadState.get :=
  fun _ hs => ⟨rfl, hs, hs⟩

theorem update {f : σ → σ} (h : ∀ s, inv s → inv (f s)) :
    Follows inv (fun _ => True) (modify f : StateM σ PUnit) (modify f) :=
  fun s hs => ⟨rfl, h s hs, trivial⟩

theorem bind (h : Follows inv mid m m') (hf : ∀ a, mid a → Follows inv post' (f a) (f' a)) :
    Follows inv post' (m >>= f) (m' >>= f') := by
  intro s hs
  obtain ⟨hrun, hinv, hmid⟩ := h s hs
  rw [StateT.run_bind, StateT.run_bind, hrun]
  exact hf _ hmid _ hinv

theorem forM {xs : List α} {f f' : α → StateM σ PUnit}
    (h : ∀ x ∈ xs, Follows inv (fun _ => True) (f x) (f' x)) :
    Follows inv (fun _ => True) (xs.forM f) (xs.forM f') := by
  induction xs with
  | nil => exact pure trivial
  | cons x xs ih =>
    obtain ⟨hx, hxs⟩ := List.forall_mem_cons.mp h
    exact bind hx fun _ _ => ih hxs

/-- The two ways in which a step that may fail can end. -/
theorem outcome {f f' : σ → Except Error α × σ} (h : Follows inv (Lands post) f f') {s : σ}
    (hs : inv s) : f' s = f s ∧
      ((∃ a s', f s = (.ok a, s') ∧ inv s' ∧ post a) ∨
        ∃ e s', f s = (.error e, s') ∧ inv s' ∧ ∀ handle, e ≠ .missing handle) := by
  obtain ⟨hrun, hinv, hpost⟩ := h s hs
  change inv (f s).2 at hinv
  change Lands post (f s).1 at hpost
  refine ⟨hrun, ?_⟩
  rcases hout : f s with ⟨r, s'⟩
  rw [hout] at hinv hpost
  cases hpost with
  | ok ha => exact .inl ⟨_, s', rfl, hinv, ha⟩
  | error he => exact .inr ⟨_, s', rfl, hinv, he⟩

end Follows

/-- The same for computations that may fail. -/
def Tracks {σ α : Type} (inv : σ → Prop) (post : α → Prop) (m m' : ExceptT Error (StateM σ) α) :
    Prop :=
  Follows inv (Lands post) m.run m'.run

namespace Tracks

variable {σ α β : Type} {inv : σ → Prop} {post mid : α → Prop} {post' : β → Prop}
  {m m' : ExceptT Error (StateM σ) α} {f f' : α → ExceptT Error (StateM σ) β}

theorem pure {a : α} (h : post a) : Tracks inv post (Pure.pure a) (Pure.pure a) :=
  fun _ hs => ⟨rfl, hs, .ok h⟩

theorem throw {e : Error} (h : ∀ handle, e ≠ .missing handle) :
    Tracks inv post (MonadExcept.throw e) (MonadExcept.throw e) :=
  fun _ hs => ⟨rfl, hs, .error h⟩

theorem lift {m m' : StateM σ α} (h : Follows inv post m m') :
    Tracks inv post (liftM m) (liftM m') := by
  intro s hs
  obtain ⟨hrun, hinv, hpost⟩ := h s hs
  have hrun' : (m'.run s : α × σ) = m.run s := hrun
  exact ⟨congrArg (fun out : α × σ => ((.ok out.1 : Except Error α), out.2)) hrun', hinv, .ok hpost⟩

theorem get : Tracks inv inv (MonadState.get : ExceptT Error (StateM σ) σ) MonadState.get :=
  fun _ hs => ⟨rfl, hs, .ok hs⟩

theorem update {f : σ → σ} (h : ∀ s, inv s → inv (f s)) :
    Tracks inv (fun _ => True) (modify f : ExceptT Error (StateM σ) PUnit) (modify f) :=
  fun s hs => ⟨rfl, h s hs, .ok trivial⟩

theorem bind (h : Tracks inv mid m m') (hf : ∀ a, mid a → Tracks inv post' (f a) (f' a)) :
    Tracks inv post' (m >>= f) (m' >>= f') := by
  unfold Tracks
  rw [ExceptT.run_bind, ExceptT.run_bind]
  refine Follows.bind h fun r hr => ?_
  cases hr with
  | ok ha => exact hf _ ha
  | error he => exact .pure (.error he)

theorem forM {xs : List α} {f f' : α → ExceptT Error (StateM σ) PUnit}
    (h : ∀ x ∈ xs, Tracks inv (fun _ => True) (f x) (f' x)) :
    Tracks inv (fun _ => True) (xs.forM f) (xs.forM f') := by
  induction xs with
  | nil => exact pure trivial
  | cons x xs ih =>
    obtain ⟨hx, hxs⟩ := List.forall_mem_cons.mp h
    exact bind hx fun _ _ => ih hxs

end Tracks

/-- The arrays of a bound are arrays of a program, and its calls are calls of functions of the program,
with an argument for every parameter. -/
inductive Bound.Within (p : Program) : Bound → Prop
  | literal {value : Int64} {ty : DataType} : Within p (.literal value ty)
  | limit {lo hi : Bound} {ty : DataType} (hlo : Within p lo) (hhi : Within p hi) :
      Within p (.limit lo hi ty)
  | either {thenPart elsePart : Bound} {ty : DataType} (hthen : Within p thenPart)
      (helse : Within p elsePart) : Within p (.either thenPart elsePart ty)
  | range {start stop step : Bound} (hstart : Within p start) (hstop : Within p stop)
      (hstep : Within p step) : Within p (.range start stop step)
  | var {name : String} {ty : DataType} : Within p (.var name ty)
  | binary {op : BinaryOp} {left right : Bound} {ty : DataType} (hleft : Within p left)
      (hright : Within p right) : Within p (.binary op left right ty)
  | builtin {kind : Builtin} {left right : Bound} {ty : DataType} (hleft : Within p left)
      (hright : Within p right) : Within p (.builtin kind left right ty)
  | math {fn : MathFn} {args : List Bound} {ty : DataType} (arity : args.length = fn.arity)
      (hargs : ∀ b ∈ args, Within p b) : Within p (.math fn args ty)
  | call {f : FunctionDef} {params : List (String × Bound)} {ret : Bound} (known : f ∈ p.functions)
      (named : params.map (·.1) = f.params.map (·.name)) (hparams : ∀ b ∈ params, Within p b.2)
      (hret : Within p ret) : Within p (.call f.name params ret f.retTy)
  | array {id : ArrayId} {b : Binding} (known : p.array? id = some b) :
      Within p (.array id b.name b.shape.ty.element)
  | fail : Within p .fail

/-- What holds of all values of a table and of a new one holds of all with the new one. -/
lemma Table.forall_insert {κ α : Type} [DecidableEq κ] {t : Table κ α} {good : α → Prop} {key : κ}
    {value : α} (h : ∀ k v, t.get? k = some v → good v) (hvalue : good value) :
    ∀ k v, (t.insert key value).get? k = some v → good v := by
  intro k v hv
  rw [Table.get?_insert] at hv
  split at hv
  · cases hv
    exact hvalue
  · exact h k v hv

/-- All functions built so far lie within a program. -/
def Memo.Within (p : Program) (memo : Memo) : Prop := ∀ id b, memo.get? id = some b → b.Within p

lemma Memo.within_empty (p : Program) : Memo.Within p ∅ := by
  intro id b h
  cases h

namespace Build

variable {p q : Program} (hcont : p.Continues q)
include hcont

lemma uncovered_tracks {α : Type} {inv : Memo → Prop} {post : α → Prop} {t : Term} (ht : t.Within p)
    (obstacle : Obstacle) : Tracks inv post (uncovered p t obstacle) (uncovered q t obstacle) := by
  unfold uncovered
  rw [hcont.describe_eq ht]
  exact .throw (by simp)

lemma arith_tracks {t : Term} (ht : t.Within p) (op : BinaryOp) {left right : Bound}
    (hleft : left.Within p) (hright : right.Within p) (ty : DataType) :
    Tracks (Memo.Within p) (Bound.Within p) (arith p t op left right ty)
      (arith q t op left right ty) := by
  unfold arith
  split
  · exact .pure .fail
  · exact .pure .fail
  · split
    · exact .pure .literal
    · exact uncovered_tracks hcont ht _
  · exact .pure (.binary hleft hright)

lemma arrayBound_tracks {array : ArrayId} (h : (p.array? array).isSome) :
    Tracks (Memo.Within p) (Bound.Within p) (arrayBound p array) (arrayBound q array) := by
  obtain ⟨b, hb⟩ := Option.isSome_iff_exists.mp h
  unfold arrayBound
  rw [hcont.array?_eq h, hb]
  exact .pure (.array hb)

variable {call call' : FunctionId → Term → Building Bound}

omit hcont in
lemma terms_tracks {ts : List Term} (h : ∀ t ∈ ts,
    Tracks (Memo.Within p) (Bound.Within p) (term p call t) (term q call' t)) :
    Tracks (Memo.Within p) (fun bs => bs.length = ts.length ∧ ∀ b ∈ bs, b.Within p)
      (terms p call ts) (terms q call' ts) := by
  induction ts with
  | nil =>
    rw [terms, terms]
    exact .pure (by simp)
  | cons t ts ih =>
    obtain ⟨ht, hts⟩ := List.forall_mem_cons.mp h
    rw [terms, terms]
    refine .bind ht fun b hb => .bind (ih hts) fun bs hbs => .pure ?_
    exact ⟨by simp [hbs.1], List.forall_mem_cons.mpr ⟨hb, hbs.2⟩⟩

/-- Building a tree stays within the program that the tree does, if calls do. -/
theorem term_tracks (hcall : ∀ id site, (p.function? id).isSome → site.Within p →
    Tracks (Memo.Within p) (Bound.Within p) (call id site) (call' id site)) {t : Term}
    (ht : t.Within p) :
    Tracks (Memo.Within p) (Bound.Within p) (term p call t) (term q call' t) := by
  induction ht with
  | @mk id node entry linked parts ih =>
    have hself : (Term.mk id node).Within p := .mk entry linked parts
    cases node with
    | literal value =>
      rw [term, term]
      exact .pure .literal
    | var name ty definition =>
      cases definition with
      | none =>
        rw [term, term]
        exact .pure .var
      | some definition =>
        rw [term, term]
        exact ih definition (by simp [Node.references])
    | binary op left right ty =>
      rw [term, term]
      refine .bind (ih left (by simp [Node.references, Node.children])) fun l hl => ?_
      refine .bind (ih right (by simp [Node.references, Node.children])) fun r hr => ?_
      exact arith_tracks hcont hself op hl hr ty
    | unary op operand ty =>
      have hoperand := ih operand (by simp [Node.references, Node.children])
      cases op with
      | cast =>
        rw [term, term]
        exact hoperand
      | neg =>
        rw [term, term]
        exact .bind hoperand fun b hb => arith_tracks hcont hself _ .literal hb ty
      | not =>
        rw [term, term]
        exact uncovered_tracks hcont hself _
    | access array indices =>
      rw [term, term]
      exact arrayBound_tracks hcont hself.array
    | builtin kind args ty =>
      rcases args with _ | ⟨left, _ | ⟨right, _ | ⟨_, _⟩⟩⟩
      case cons.cons.nil =>
        rw [term, term]
        refine .bind (ih left (by simp [Node.references, Node.children])) fun l hl => ?_
        exact .bind (ih right (by simp [Node.references, Node.children])) fun r hr =>
          .pure (.builtin hl hr)
      all_goals
        rw [term, term]
        · exact uncovered_tracks hcont hself _
        all_goals simp
    | math fn args ty =>
      rw [term, term]
      split
      · exact uncovered_tracks hcont hself _
      · next harity =>
        rw [ne_eq, not_not] at harity
        exact .bind (terms_tracks ih) fun bs hbs => .pure (.math (hbs.1.trans harity) hbs.2)
    | cond condition thenPart elsePart ty =>
      cases elsePart with
      | none =>
        rw [term, term]
        exact uncovered_tracks hcont hself _
      | some elsePart =>
        rw [term, term]
        refine .bind (ih thenPart (by simp [Node.references, Node.children])) fun t ht => ?_
        exact .bind (ih elsePart (by simp [Node.references, Node.children])) fun e he =>
          .pure (.either ht he)
    | call function args =>
      rw [term, term]
      exact hcall function _ hself.function hself
    | forLoop | whileLoop | block | assign | ret | brk =>
      rw [term, term]
      exact uncovered_tracks hcont hself _

/-- One bound for each of some parameters, as far as there are call sites. -/
def Joined (p : Program) (params : List Param) (joined : List (Option Bound)) : Prop :=
  joined.length = params.length ∧ ∀ o ∈ joined, ∀ b ∈ o, b.Within p

section

variable (hcall : ∀ id site, (p.function? id).isSome → site.Within p →
  Tracks (Memo.Within p) (Bound.Within p) (call id site) (call' id site))
include hcall

/-- With as many arguments as parameters, no argument and no parameter is left over. -/
lemma joinArgs_tracks {params : List Param} {previous : List (Option Bound)} {args : List Term}
    (hprevious : Joined p params previous) (hlength : args.length = params.length)
    (hargs : ∀ t ∈ args, t.Within p) :
    Tracks (Memo.Within p) (Joined p params) (joinArgs p call params previous args)
      (joinArgs q call' params previous args) := by
  induction params generalizing previous args with
  | nil =>
    rw [joinArgs, joinArgs]
    · exact .pure ⟨rfl, by simp⟩
    all_goals simp
  | cons param params ih =>
    obtain ⟨hlength', hwithin⟩ := hprevious
    obtain ⟨o, previous, rfl⟩ := List.exists_cons_of_length_eq_add_one hlength'
    obtain ⟨arg, args, rfl⟩ := List.exists_cons_of_length_eq_add_one hlength
    obtain ⟨harg, hargs⟩ := List.forall_mem_cons.mp hargs
    obtain ⟨ho, hwithin⟩ := List.forall_mem_cons.mp hwithin
    rw [joinArgs, joinArgs]
    refine .bind (term_tracks hcont hcall harg) fun b hb => ?_
    refine .bind (ih ⟨Nat.succ.inj hlength', hwithin⟩ (Nat.succ.inj hlength) hargs) fun rest hrest => ?_
    refine .pure ⟨by simp [hrest.1], List.forall_mem_cons.mpr ⟨?_, hrest.2⟩⟩
    rintro _ ⟨⟩
    cases o with
    | none => exact hb
    | some b' => exact .either (ho b' rfl) hb

lemma joinSites_tracks {f : FunctionDef} {sites : List Term} (hsites : ∀ t ∈ sites, t.Within p)
    {joined : List (Option Bound)} (hjoined : Joined p f.params joined) :
    Tracks (Memo.Within p) (Joined p f.params) (joinSites p call f sites joined)
      (joinSites q call' f sites joined) := by
  induction sites generalizing joined with
  | nil =>
    rw [joinSites, joinSites]
    exact .pure hjoined
  | cons site sites ih =>
    obtain ⟨hsite, hsites⟩ := List.forall_mem_cons.mp hsites
    rw [joinSites, joinSites]
    split
    · exact uncovered_tracks hcont hsite _
    · next hlength =>
      rw [ne_eq, not_not] at hlength
      exact .bind (joinArgs_tracks hcont hcall hjoined hlength fun t ht => hsite.child ht)
        fun joined hjoined => ih hsites hjoined

lemma function_tracks (closed : p.Closed) {id : FunctionId} {f : FunctionDef} (hf : f ∈ p.functions) :
    Tracks (Memo.Within p) (Bound.Within p) (function p call id f) (function q call' id f) := by
  have hsites : ∀ t ∈ p.callSites id, t.Within p := fun t ht =>
    closed.terms t (Array.mem_toList_iff.mp (List.mem_of_mem_filter ht))
  have hnone : Joined p f.params (f.params.map fun _ => none) := ⟨by simp, by simp⟩
  obtain ⟨result, hresult⟩ := Option.isSome_iff_exists.mp (closed.results f hf)
  unfold function
  rw [hcont.callSites_eq, hcont.term?_eq, hresult]
  refine .bind (joinSites_tracks hcont hcall hsites hnone) fun joined hjoined => ?_
  refine .bind (term_tracks hcont hcall (closed.term hresult)) fun ret hret => .pure ?_
  refine .call hf ?_ (fun b hb => ?_) hret
  · have hzip : (f.params.zip joined).map Prod.fst = f.params :=
      List.map_fst_zip (Nat.le_of_eq hjoined.1.symm)
    conv_rhs => rw [← hzip, List.map_map]
    rw [List.map_map]
    rfl
  · obtain ⟨⟨param, o⟩, hmem, rfl⟩ := List.mem_map.mp hb
    cases o with
    | none => exact .fail
    | some b => exact hjoined.2 (some b) (List.of_mem_zip hmem).2 b rfl

end

/-- More functions in the table leave more depth, but none of it is used: a function that is being
built is never entered again. -/
theorem callBound_tracks (closed : p.Closed) {depth depth' : Nat} {active : List FunctionId}
    (stack : Stack p active depth) (hdepth : depth ≤ depth') {id : FunctionId} {site : Term}
    (hid : (p.function? id).isSome) (hsite : site.Within p) :
    Tracks (Memo.Within p) (Bound.Within p) (callBound p depth active id site)
      (callBound q depth' active id site) := by
  induction depth generalizing depth' active id site with
  | zero =>
    -- the depth is never used up, so the error that stands there in one program only is not met
    obtain ⟨_, h⟩ := stack.exists_depth
    cases h
  | succ depth ih =>
    obtain ⟨depth', rfl⟩ := Nat.exists_eq_add_of_lt hdepth
    obtain ⟨f, hf⟩ := Option.isSome_iff_exists.mp hid
    rw [callBound, callBound, hcont.function?_eq hid, hf]
    refine .bind .get fun memo hmemo => ?_
    split
    · next b hb => exact .pure (hmemo id b hb)
    · split
      · exact uncovered_tracks hcont hsite _
      · next hactive =>
        have hinner : ∀ id' site', (p.function? id').isSome → site'.Within p →
            Tracks (Memo.Within p) (Bound.Within p) (callBound p depth (id :: active) id' site')
              (callBound q (depth + depth') (id :: active) id' site') :=
          fun _ _ hid' hsite' => ih (stack.push hactive hid) (Nat.le_add_right ..) hid' hsite'
        refine .bind (function_tracks hcont hinner closed (Array.mem_of_getElem? hf)) fun b hb => ?_
        exact .bind (.update fun _ hmemo => Table.forall_insert hmemo hb) fun _ _ => .pure hb

end Build

namespace Program

variable {p q : Program} (hcont : p.Continues q) (closed : p.Closed)
include hcont closed

theorem build_tracks {t : Term} (ht : t.Within p) :
    Tracks (Memo.Within p) (Bound.Within p) (p.build t) (q.build t) := by
  have hdepth : Build.depth p ≤ Build.depth q := Nat.succ_le_succ hcont.functions.length_le
  have hstack : Build.Stack p [] (Build.depth p) := ⟨List.nodup_nil, by simp, by simp [Build.depth]⟩
  exact Build.term_tracks hcont
    (fun _ _ hid hsite => Build.callBound_tracks hcont closed hstack hdepth hid hsite) ht

lemma buildPart_tracks {part : Option NodeId} (hpart : ∀ id ∈ part, (p.term? id).isSome)
    (default : Int64) (ty : DataType) :
    Tracks (Memo.Within p) (Bound.Within p) (p.buildPart default ty part)
      (q.buildPart default ty part) := by
  cases part with
  | none =>
    rw [buildPart, buildPart]
    exact .pure .literal
  | some id =>
    obtain ⟨t, ht⟩ := Option.isSome_iff_exists.mp (hpart id rfl)
    rw [buildPart, buildPart, hcont.term?_eq, ht]
    exact build_tracks hcont closed (closed.term ht)

/-- The parts of a loop's range are in the node table. -/
theorem buildRange_tracks {loop : LoopId} (hloop : (p.loop? loop).isSome) :
    Tracks (Memo.Within p) (Bound.Within p) (p.buildRange loop) (q.buildRange loop) := by
  obtain ⟨⟨name, ty, range⟩, hinfo⟩ := Option.isSome_iff_exists.mp hloop
  have hparts := closed.ranges _ (Array.mem_of_getElem? hinfo)
  unfold buildRange
  rw [hcont.loop?_eq hloop, hinfo]
  cases range with
  | simple span => exact .pure (.range .literal .literal .literal)
  | symbolic start stop step defaults =>
    simp only [rangeParts, List.forall_mem_append, Option.mem_toList] at hparts
    refine .bind (buildPart_tracks hcont closed hparts.1.1 _ _) fun _ hstart => ?_
    refine .bind (buildPart_tracks hcont closed hparts.1.2 _ _) fun _ hstop => ?_
    exact .bind (buildPart_tracks hcont closed hparts.2 _ _) fun _ hstep =>
      .pure (.range hstart hstop hstep)

end Program

end LoopSafety
