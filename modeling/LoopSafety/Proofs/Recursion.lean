import Mathlib.Data.Finset.Card
import Mathlib.Data.List.Forall2
import LoopSafety.Proofs.Lookups

/-! Building with the functions in progress as state.

A function is entered and left, and between the two it is in progress, whether it comes to a bound or
not. Calls may be nested to any given depth, and a recursion that goes deeper has no result. Since a
function in progress is not entered again, every entry uses up a function of the table, and between two
entries a tree is only descended. So at any depth beyond the number of functions the recursion ends, and
it does what building does. This is shown for any way of computing operations that goes along with the
folding of literals. What a builder is asked, for nodes and for ranges of loops, it answers as a new one
would. -/
namespace LoopSafety

/-- The functions built so far, and those that are being built. -/
structure Builder where
  memo : Memo := ∅
  active : List FunctionId := []

/-- Steps of a builder, without a result if calls are nested too deep. -/
abbrev Nesting := ExceptT Error (StateT Builder Option)

lemma Nesting.run_bind_step {α β : Type} (x : Nesting α) (f : α → Nesting β) (b : Builder) :
    (x >>= f).run.run b =
      match x.run.run b with
      | none => none
      | some (.ok a, b') => (f a).run.run b'
      | some (.error e, b') => some (.error e, b') := by
  rw [ExceptT.run_bind, StateT.run_bind]
  rcases x.run.run b with _ | ⟨_ | _, _⟩ <;> rfl

/-- An operation on two bounds, as building computes it. -/
def Build.folding (p : Program) (t : Term) (op : BinaryOp) (left right : Bound) (ty : DataType) :
    Except Error Bound :=
  ((arith p t op left right ty).run.run ∅).1

namespace Build

variable {p : Program}

lemma arith_run_eq (t : Term) (op : BinaryOp) (left right : Bound) (ty : DataType) (memo : Memo) :
    (arith p t op left right ty).run.run memo = (folding p t op left right ty, memo) := by
  unfold folding arith
  split
  · rfl
  · rfl
  · split <;> rfl
  · rfl

lemma folding_cases (t : Term) (op : BinaryOp) (left right : Bound) (ty : DataType) :
    (∃ b, folding p t op left right ty = .ok b) ∨
      folding p t op left right ty = .error (.unsupported (p.describe t) .zeroDivisor) := by
  unfold folding arith
  split
  · exact .inl ⟨_, rfl⟩
  · exact .inl ⟨_, rfl⟩
  · split
    · exact .inl ⟨_, rfl⟩
    · exact .inr rfl
  · exact .inl ⟨_, rfl⟩

end Build

/-- Two memos with the same functions, in the same order, and with related bounds. -/
def Memo.Paired (F : Bound → Bound → Prop) (memo memo' : Memo) : Prop :=
  List.Forall₂ (fun x y => x.1 = y.1 ∧ F x.2 y.2) memo.entries memo'.entries

namespace Memo.Paired

variable {F : Bound → Bound → Prop} {memo memo' : Memo}

lemma empty : Memo.Paired F ∅ ∅ := .nil

lemma refl_eq (memo : Memo) : Memo.Paired Eq memo memo :=
  List.forall₂_same.mpr fun _ _ => ⟨rfl, rfl⟩

lemma eq (h : Memo.Paired Eq memo memo') : memo = memo' := by
  have hentries : memo.entries = memo'.entries :=
    List.forall₂_eq_eq_eq ▸ h.imp fun _ _ hxy => Prod.ext hxy.1 hxy.2
  cases memo
  cases memo'
  exact congrArg Table.mk hentries

lemma get?_cases (h : Memo.Paired F memo memo') (id : FunctionId) :
    (memo.get? id = none ∧ memo'.get? id = none) ∨
      ∃ b b', memo.get? id = some b ∧ memo'.get? id = some b' ∧ F b b' := by
  unfold Memo.Paired at h
  unfold Table.get?
  generalize memo.entries = xs at h ⊢
  generalize memo'.entries = ys at h ⊢
  induction h with
  | nil => exact .inl ⟨rfl, rfl⟩
  | @cons x y xs ys hxy _ ih =>
    obtain ⟨key, b⟩ := x
    obtain ⟨key', b'⟩ := y
    obtain ⟨rfl, hb⟩ := hxy
    rw [Table.lookup, Table.lookup]
    split
    · exact .inr ⟨b, b', rfl, rfl, hb⟩
    · exact ih

lemma insert (h : Memo.Paired F memo memo') {b b' : Bound} (hb : F b b') (id : FunctionId) :
    Memo.Paired F (memo.insert id b) (memo'.insert id b') := by
  unfold Memo.Paired at h ⊢
  unfold Table.insert
  generalize memo.entries = xs at h ⊢
  generalize memo'.entries = ys at h ⊢
  induction h with
  | nil => exact .cons ⟨rfl, hb⟩ .nil
  | @cons x y xs ys hxy hxys ih =>
    obtain ⟨key, _⟩ := x
    obtain ⟨key', _⟩ := y
    obtain ⟨rfl, hold⟩ := hxy
    dsimp only at ih ⊢
    rw [Table.put, Table.put]
    split
    · exact .cons ⟨rfl, hb⟩ hxys
    · exact .cons ⟨rfl, hold⟩ ih

end Memo.Paired

namespace Builder

def uncovered {α : Type} (p : Program) (t : Term) (obstacle : Obstacle) : Nesting α :=
  throw (.unsupported (p.describe t) obstacle)

/-- What steps come to, kept for later. -/
def attempt {α : Type} (m : Nesting α) : Nesting (Except Error α) := fun b =>
  (m.run.run b).map fun out => (.ok out.1, out.2)

variable (p : Program) (arith : Term → BinaryOp → Bound → Bound → DataType → Except Error Bound)

section

variable (call : FunctionId → Term → Nesting Bound)

mutual

/-- The bound of a construct, given the bound of each call and a way of computing operations. -/
def term : Term → Nesting Bound
  | .mk _ (.literal value) => return .literal value.toInt64 value.dataType
  | .mk _ (.var _ _ (some definition)) => term definition
  | .mk _ (.var name ty none) => return .var name ty
  | .mk id (.binary op left right ty) => do
    let l ← term left
    let r ← term right
    MonadExcept.ofExcept (arith (.mk id (.binary op left right ty)) op l r ty)
  | .mk _ (.unary .cast operand _) => term operand
  | .mk id (.unary .neg operand ty) => do
    let inner ← term operand
    MonadExcept.ofExcept (arith (.mk id (.unary .neg operand ty)) .sub (.literal 0 ty) inner ty)
  | .mk id (.unary .not operand ty) =>
    uncovered p (.mk id (.unary .not operand ty)) .logicalNegation
  | .mk _ (.access array _) =>
    match p.array? array with
    | some binding => return .array array binding.name binding.shape.ty.element
    | none => throw (.missing (.array array))
  | .mk _ (.builtin kind [left, right] ty) => do
    let l ← term left
    let r ← term right
    return .builtin kind l r ty
  | .mk id (.builtin kind args ty) =>
    uncovered p (.mk id (.builtin kind args ty)) (.builtinArity kind.text args.length)
  | .mk id (.math fn args ty) => do
    if args.length ≠ fn.arity then
      uncovered p (.mk id (.math fn args ty)) (.mathArity fn.text fn.arity)
    else
      return .math fn (← terms args) ty
  | .mk _ (.cond _ thenPart (some elsePart) ty) => do
    let t ← term thenPart
    let e ← term elsePart
    return .either t e ty
  | .mk id (.cond condition thenPart none ty) =>
    uncovered p (.mk id (.cond condition thenPart none ty)) .missingElse
  | .mk id (.call function args) => call function (.mk id (.call function args))
  | t@(.mk _ (.forLoop ..)) | t@(.mk _ (.whileLoop ..)) | t@(.mk _ (.block _))
  | t@(.mk _ (.assign ..)) | t@(.mk _ (.ret _)) | t@(.mk _ .brk) =>
    uncovered p t (.unbounded t.kind)

def terms : List Term → Nesting (List Bound)
  | [] => return []
  | t :: ts => do
    let b ← term t
    return b :: (← terms ts)

end

def joinArgs : List Param → List (Option Bound) → List Term → Nesting (List (Option Bound))
  | param :: params, previous :: rest, arg :: args => do
    let bound ← term p arith call arg
    return some (Build.join previous bound param.ty) :: (← joinArgs params rest args)
  | _, _, _ => return []

def joinSites (f : FunctionDef) : List Term → List (Option Bound) → Nesting (List (Option Bound))
  | [], joined => return joined
  | site :: sites, joined => do
    let args := site.children
    if args.length ≠ f.params.length then
      uncovered p site (.callArity f.name f.params.length args.length)
    else
      joinSites f sites (← joinArgs p arith call f.params joined args)

def function (id : FunctionId) (f : FunctionDef) : Nesting Bound := do
  let joined ← joinSites p arith call f (p.callSites id) (f.params.map fun _ => none)
  let params := (f.params.zip joined).map fun (param, bound) => (param.name, bound.getD .fail)
  match p.term? f.ret with
  | none => throw (.missing (.node f.ret))
  | some result => return .call f.name params (← term p arith call result) f.retTy

end

/-- The bound of a call, if calls are nested no deeper than given. A function that is entered is left with
a bound or without. -/
def call : Nat → FunctionId → Term → Nesting Bound
  | 0, _, _ => fun _ => none
  | depth + 1, id, site => do
    match (← get).memo.get? id with
    | some bound => return bound
    | none =>
      if id ∈ (← get).active then uncovered p site .recursiveCall
      else
        match p.function? id with
        | none => throw (.missing (.function id))
        | some f =>
          modify fun b => { b with active := id :: b.active }
          let r ← attempt (function p arith (call depth) id f)
          modify fun b => { b with active := b.active.erase id }
          let bound ← MonadExcept.ofExcept r
          modify fun b => { b with memo := b.memo.insert id bound }
          return bound

/-- The bound of a construct with calls nested to the given depth. -/
def build (depth : Nat) (t : Term) : Nesting Bound := term p arith (call p arith depth) t

/-- A function is left with what it came to. -/
def leave (id : FunctionId) : Except Error Bound × Builder → Except Error Bound × Builder
  | (.error e, b) => (.error e, { b with active := b.active.erase id })
  | (.ok bound, b) => (.ok bound, { memo := b.memo.insert id bound, active := b.active.erase id })

variable {p arith}

lemma call_run (depth : Nat) (id : FunctionId) (site : Term) (b : Builder) :
    (call p arith (depth + 1) id site).run.run b =
      match b.memo.get? id with
      | some bound => some (.ok bound, b)
      | none =>
        if id ∈ b.active then some (.error (.unsupported (p.describe site) .recursiveCall), b)
        else
          match p.function? id with
          | none => some (.error (.missing (.function id)), b)
          | some f =>
            ((function p arith (call p arith depth) id f).run.run
              { b with active := id :: b.active }).map (leave id) := by
  have hget : (get : Nesting Builder).run.run b = some (.ok b, b) := rfl
  rw [call, Nesting.run_bind_step, hget]
  dsimp only
  cases b.memo.get? id with
  | some bound => rfl
  | none =>
    dsimp only
    rw [Nesting.run_bind_step, hget]
    dsimp only
    split
    · rfl
    · cases p.function? id with
      | none => rfl
      | some f =>
        have henter : (modify fun b => { b with active := id :: b.active } : Nesting PUnit).run.run b =
            some (.ok (), { b with active := id :: b.active }) := rfl
        have hattempt : ∀ (m : Nesting Bound) (b : Builder),
            (attempt m).run.run b = (m.run.run b).map fun out => (.ok out.1, out.2) := fun _ _ => rfl
        dsimp only
        rw [Nesting.run_bind_step, henter]
        dsimp only
        rw [Nesting.run_bind_step, hattempt]
        rcases (function p arith (call p arith depth) id f).run.run { b with active := id :: b.active } with
          _ | ⟨_ | _, _⟩ <;> rfl

/-- The recursion goes along with steps of building: from paired memos it comes to a related result, or
the construct is not covered. Then the recursion ends as well, if it has to stop with the same error.
The functions that are being built are those of the start. -/
def Accompanies (F : Bound → Bound → Prop) (strict : Prop) (active : List FunctionId) {α β : Type}
    (G : α → β → Prop) (x : Building α) (y : Nesting β) : Prop :=
  ∀ memo memo', Memo.Paired F memo memo' →
    (∃ a a' s s', x.run.run memo = (.ok a, s) ∧
      y.run.run ⟨memo', active⟩ = some (.ok a', ⟨s', active⟩) ∧ G a a' ∧ Memo.Paired F s s') ∨
    ∃ text obstacle s, x.run.run memo = (.error (.unsupported text obstacle), s) ∧
      (strict → ∃ s', y.run.run ⟨memo', active⟩ =
        some (.error (.unsupported text obstacle), ⟨s', active⟩) ∧ Memo.Paired F s s')

namespace Accompanies

variable {F : Bound → Bound → Prop} {strict : Prop} {active : List FunctionId} {α α' β β' : Type}
  {G : α → α' → Prop} {H : β → β' → Prop} {x : Building α} {y : Nesting α'}
  {f : α → Building β} {g : α' → Nesting β'}

theorem pure {a : α} {a' : α'} (h : G a a') :
    Accompanies F strict active G (Pure.pure a) (Pure.pure a') :=
  fun memo memo' hmemo => .inl ⟨a, a', memo, memo', rfl, rfl, h, hmemo⟩

theorem uncovered {p : Program} {t : Term} (obstacle : Obstacle) :
    Accompanies F strict active G (Build.uncovered p t obstacle) (Builder.uncovered p t obstacle) :=
  fun memo memo' hmemo => .inr ⟨p.describe t, obstacle, memo, rfl, fun _ => ⟨memo', rfl, hmemo⟩⟩

theorem bind (h : Accompanies F strict active G x y)
    (hf : ∀ a a', G a a' → Accompanies F strict active H (f a) (g a')) :
    Accompanies F strict active H (x >>= f) (y >>= g) := by
  intro memo memo' hmemo
  rw [run_bind_step, Nesting.run_bind_step]
  obtain ⟨a, a', s, s', hx, hy, ha, hs⟩ | ⟨text, obstacle, s, hx, hy⟩ := h memo memo' hmemo
  · rw [hx, hy]
    exact hf a a' ha s s' hs
  · rw [hx]
    refine .inr ⟨text, obstacle, s, rfl, fun hstrict => ?_⟩
    obtain ⟨s', hrun, hs⟩ := hy hstrict
    rw [hrun]
    exact ⟨s', rfl, hs⟩

end Accompanies

/-- A relation of bounds that all constructs respect. A way of computing operations goes along with
the folding of literals, and if it has to stop where folding does it does so with the same error. -/
structure Respects (p : Program)
    (arith : Term → BinaryOp → Bound → Bound → DataType → Except Error Bound) (strict : Prop)
    (F : Bound → Bound → Prop) : Prop where
  literal : ∀ value ty, F (.literal value ty) (.literal value ty)
  var : ∀ name ty, F (.var name ty) (.var name ty)
  array : ∀ id name ty, F (.array id name ty) (.array id name ty)
  either : ∀ {t t' e e'} ty, F t t' → F e e' → F (.either t e ty) (.either t' e' ty)
  builtin : ∀ {l l' r r'} kind ty, F l l' → F r r' → F (.builtin kind l r ty) (.builtin kind l' r' ty)
  math : ∀ {bs bs'} fn ty, List.Forall₂ F bs bs' → F (.math fn bs ty) (.math fn bs' ty)
  call : ∀ {params params' ret ret'} name ty,
    List.Forall₂ (fun x y => x.1 = y.1 ∧ (F x.2 y.2 ∨ x.2 = .fail ∧ y.2 = .fail)) params params' →
    F ret ret' → F (.call name params ret ty) (.call name params' ret' ty)
  arith : ∀ {l l' r r'} t op ty, F l l' → F r r' →
    (∃ b b', Build.folding p t op l r ty = .ok b ∧ arith t op l' r' ty = .ok b' ∧ F b b') ∨
    ∃ text obstacle, Build.folding p t op l r ty = .error (.unsupported text obstacle) ∧
      (strict → arith t op l' r' ty = .error (.unsupported text obstacle))

section

variable {p : Program} {arith : Term → BinaryOp → Bound → Bound → DataType → Except Error Bound}
  {strict : Prop} {F : Bound → Bound → Prop} (h : Respects p arith strict F)
  {active : List FunctionId} {call : FunctionId → Term → Building Bound}
  {call' : FunctionId → Term → Nesting Bound}
include h

lemma arith_accompanies {l l' r r' : Bound} (t : Term) (op : BinaryOp) (ty : DataType) (hl : F l l')
    (hr : F r r') :
    Accompanies F strict active F (Build.arith p t op l r ty)
      (MonadExcept.ofExcept (arith t op l' r' ty)) := by
  intro memo memo' hmemo
  rw [Build.arith_run_eq]
  obtain ⟨b, b', hfold, harith, hb⟩ | ⟨text, obstacle, hfold, harith⟩ := h.arith t op ty hl hr
  · rw [hfold, harith]
    exact .inl ⟨b, b', memo, memo', rfl, rfl, hb, hmemo⟩
  · rw [hfold]
    refine .inr ⟨text, obstacle, memo, rfl, fun hstrict => ⟨memo', ?_, hmemo⟩⟩
    rw [harith hstrict]
    rfl

omit h in
lemma terms_accompanies {ts : List Term}
    (hts : ∀ t ∈ ts, Accompanies F strict active F (Build.term p call t) (term p arith call' t)) :
    Accompanies F strict active (List.Forall₂ F) (Build.terms p call ts) (terms p arith call' ts) := by
  induction ts with
  | nil =>
    rw [Build.terms, terms]
    exact .pure .nil
  | cons t ts ih =>
    obtain ⟨ht, hts⟩ := List.forall_mem_cons.mp hts
    rw [Build.terms, terms]
    exact .bind ht fun b b' hb => .bind (ih hts) fun bs bs' hbs => .pure (.cons hb hbs)

/-- If calls are accompanied, so is the building of a tree. -/
theorem term_accompanies (hcall : ∀ id site, (p.function? id).isSome → site.Within p →
    Accompanies F strict active F (call id site) (call' id site)) {t : Term} (ht : t.Within p) :
    Accompanies F strict active F (Build.term p call t) (term p arith call' t) := by
  induction ht with
  | @mk id node entry linked parts ih =>
    have hself : (Term.mk id node).Within p := .mk entry linked parts
    cases node with
    | literal value =>
      rw [Build.term, term]
      exact .pure (h.literal _ _)
    | var name ty definition =>
      cases definition with
      | none =>
        rw [Build.term, term]
        exact .pure (h.var _ _)
      | some definition =>
        rw [Build.term, term]
        exact ih definition (by simp [Node.references])
    | binary op left right ty =>
      rw [Build.term, term]
      refine .bind (ih left (by simp [Node.references, Node.children])) fun l l' hl => ?_
      refine .bind (ih right (by simp [Node.references, Node.children])) fun r r' hr => ?_
      exact arith_accompanies h _ op ty hl hr
    | unary op operand ty =>
      have hoperand := ih operand (by simp [Node.references, Node.children])
      cases op with
      | cast =>
        rw [Build.term, term]
        exact hoperand
      | neg =>
        rw [Build.term, term]
        exact .bind hoperand fun b b' hb => arith_accompanies h _ _ ty (h.literal 0 ty) hb
      | not =>
        rw [Build.term, term]
        exact .uncovered _
    | access array indices =>
      obtain ⟨binding, hbinding⟩ := Option.isSome_iff_exists.mp hself.array
      rw [Build.term, term, Build.arrayBound]
      simp only [hbinding]
      exact .pure (h.array _ _ _)
    | builtin kind args ty =>
      rcases args with _ | ⟨left, _ | ⟨right, _ | ⟨_, _⟩⟩⟩
      case cons.cons.nil =>
        rw [Build.term, term]
        refine .bind (ih left (by simp [Node.references, Node.children])) fun l l' hl => ?_
        exact .bind (ih right (by simp [Node.references, Node.children])) fun r r' hr =>
          .pure (h.builtin kind ty hl hr)
      all_goals
        rw [Build.term, term]
        · exact .uncovered _
        all_goals simp
    | math fn args ty =>
      rw [Build.term, term]
      split
      · exact .uncovered _
      · exact .bind (terms_accompanies ih) fun bs bs' hbs => .pure (h.math fn ty hbs)
    | cond condition thenPart elsePart ty =>
      cases elsePart with
      | none =>
        rw [Build.term, term]
        exact .uncovered _
      | some elsePart =>
        rw [Build.term, term]
        refine .bind (ih thenPart (by simp [Node.references, Node.children])) fun t t' ht => ?_
        exact .bind (ih elsePart (by simp [Node.references, Node.children])) fun e e' he =>
          .pure (h.either ty ht he)
    | call function args =>
      rw [Build.term, term]
      exact hcall function _ hself.function hself
    | forLoop | whileLoop | block | assign | ret | brk =>
      rw [Build.term, term]
      exact .uncovered _

omit h in
/-- A parameter without an argument fails on both sides. -/
lemma params_paired {joined joined' : List (Option Bound)}
    (hjoined : List.Forall₂ (Option.Rel F) joined joined') (params : List Param) :
    List.Forall₂ (fun x y => x.1 = y.1 ∧ (F x.2 y.2 ∨ x.2 = .fail ∧ y.2 = .fail))
      ((params.zip joined).map fun (param, bound) => (param.name, bound.getD .fail))
      ((params.zip joined').map fun (param, bound) => (param.name, bound.getD .fail)) := by
  induction hjoined generalizing params with
  | nil =>
    simp
  | @cons o o' joined joined' ho _ ih =>
    cases params with
    | nil => exact .nil
    | cons param params =>
      refine .cons ⟨rfl, ?_⟩ (ih params)
      cases ho with
      | none => exact .inr ⟨rfl, rfl⟩
      | some hb => exact .inl hb

section

variable (hcall : ∀ id site, (p.function? id).isSome → site.Within p →
  Accompanies F strict active F (call id site) (call' id site))
include hcall

lemma joinArgs_accompanies {params : List Param} {previous previous' : List (Option Bound)}
    {args : List Term} (hprevious : List.Forall₂ (Option.Rel F) previous previous')
    (hargs : ∀ t ∈ args, t.Within p) :
    Accompanies F strict active (List.Forall₂ (Option.Rel F))
      (Build.joinArgs p call params previous args) (joinArgs p arith call' params previous' args) := by
  induction params generalizing previous previous' args with
  | nil =>
    rw [joinArgs]
    · exact .pure .nil
    · simp
  | cons param params ih =>
    cases hprevious with
    | nil =>
      rw [joinArgs]
      · exact .pure .nil
      · simp
    | @cons o o' previous previous' ho hrest =>
      cases args with
      | nil =>
        rw [joinArgs]
        · exact .pure .nil
        · simp
      | cons arg args =>
        obtain ⟨harg, hargs⟩ := List.forall_mem_cons.mp hargs
        rw [Build.joinArgs, joinArgs]
        refine .bind (term_accompanies h hcall harg) fun b b' hb => ?_
        refine .bind (ih hrest hargs) fun rest rest' hjoined => .pure (.cons (.some ?_) hjoined)
        cases ho with
        | none => exact hb
        | some hb₀ => exact h.either param.ty hb₀ hb

lemma joinSites_accompanies {f : FunctionDef} {sites : List Term} (hsites : ∀ t ∈ sites, t.Within p)
    {joined joined' : List (Option Bound)} (hjoined : List.Forall₂ (Option.Rel F) joined joined') :
    Accompanies F strict active (List.Forall₂ (Option.Rel F)) (Build.joinSites p call f sites joined)
      (joinSites p arith call' f sites joined') := by
  induction sites generalizing joined joined' with
  | nil =>
    rw [Build.joinSites, joinSites]
    exact .pure hjoined
  | cons site sites ih =>
    obtain ⟨hsite, hsites⟩ := List.forall_mem_cons.mp hsites
    rw [Build.joinSites, joinSites]
    split
    · exact .uncovered _
    · exact .bind (joinArgs_accompanies h hcall hjoined fun t ht => hsite.child ht)
        fun joined joined' hjoined => ih hsites hjoined

lemma function_accompanies (closed : p.Closed) (id : FunctionId) {f : FunctionDef}
    (hf : f ∈ p.functions) :
    Accompanies F strict active F (Build.function p call id f) (function p arith call' id f) := by
  have hsites : ∀ t ∈ p.callSites id, t.Within p := fun t ht =>
    closed.terms t (Array.mem_toList_iff.mp (List.mem_of_mem_filter ht))
  have hnone : List.Forall₂ (Option.Rel F) (f.params.map fun _ => none) (f.params.map fun _ => none) := by
    simp [List.forall₂_same]
  obtain ⟨result, hresult⟩ := Option.isSome_iff_exists.mp (closed.results f hf)
  rw [Build.function, function, hresult]
  refine .bind (joinSites_accompanies h hcall hsites hnone) fun joined joined' hjoined => ?_
  refine .bind (term_accompanies h hcall (closed.term hresult)) fun ret ret' hret => .pure ?_
  refine h.call f.name f.retTy (params_paired hjoined f.params) hret

end

/-- The functions of the table that are not being built. -/
def remaining (p : Program) (active : List FunctionId) : Finset Nat :=
  (Finset.range p.functions.size).filter fun i => ∀ f ∈ active, f.toNat ≠ i

omit h in
lemma remaining_push {id : FunctionId} (hid : (p.function? id).isSome) (hactive : id ∉ active) :
    (remaining p (id :: active)).card < (remaining p active).card := by
  have hinjective : ∀ f : FunctionId, f.toNat = id.toNat → f = id := fun f hf => by
    cases f
    exact congrArg FunctionId.mk (UInt32.toNat.inj hf)
  refine Finset.card_lt_card (Finset.ssubset_iff_of_subset ?_ |>.mpr ⟨id.toNat, ?_, ?_⟩)
  · intro i hi
    simp only [remaining, Finset.mem_filter, List.forall_mem_cons] at hi ⊢
    exact ⟨hi.1, hi.2.2⟩
  · simp only [remaining, Finset.mem_filter, Finset.mem_range]
    refine ⟨by simpa [Program.function?] using hid, fun f hf heq => hactive ?_⟩
    rwa [← hinjective f heq]
  · simp [remaining]

/-- Every function that is entered is one less of those that remain, so no depth beyond their number is
used up. -/
theorem call_accompanies (closed : p.Closed) {depth depth' : Nat}
    (hdepth : (remaining p active).card < depth) (hdepth' : (remaining p active).card < depth')
    {id : FunctionId} {site : Term} (hid : (p.function? id).isSome) :
    Accompanies F strict active F (Build.callBound p depth active id site)
      (Builder.call p arith depth' id site) := by
  induction depth generalizing active depth' id site with
  | zero => omega
  | succ depth ih =>
    obtain ⟨depth', rfl⟩ := Nat.exists_eq_add_one_of_ne_zero (Nat.ne_zero_of_lt hdepth')
    intro memo memo' hmemo
    obtain ⟨f, hf⟩ := Option.isSome_iff_exists.mp hid
    rw [Build.callBound, run_bind_step, run_get_step, call_run]
    dsimp only
    obtain ⟨hnone, hnone'⟩ | ⟨b, b', hsome, hsome', hb⟩ := hmemo.get?_cases id
    · simp only [hnone, hnone']
      by_cases hactive : id ∈ active
      · simp only [if_pos hactive]
        exact Accompanies.uncovered _ memo memo' hmemo
      · have hinner : ∀ id' site', (p.function? id').isSome → site'.Within p →
            Accompanies F strict (id :: active) F (Build.callBound p depth (id :: active) id' site')
              (Builder.call p arith depth' id' site') := by
          intro id' site' hid' _
          have hless := remaining_push hid hactive
          exact ih (by omega) (by omega) hid'
        have hfunction :=
          function_accompanies h hinner closed id (Array.mem_of_getElem? hf) memo memo' hmemo
        simp only [if_neg hactive, hf]
        rw [run_bind_step]
        obtain ⟨b, b', s, s', hx, hy, hb, hs⟩ | ⟨text, obstacle, s, hx, hy⟩ := hfunction
        · rw [hx, hy]
          refine .inl ⟨b, b', s.insert id b, s'.insert id b', rfl, ?_, hb, hs.insert hb id⟩
          simp [leave]
        · rw [hx]
          refine .inr ⟨text, obstacle, s, rfl, fun hstrict => ?_⟩
          obtain ⟨s', hrun, hs⟩ := hy hstrict
          refine ⟨s', ?_, hs⟩
          simp [hrun, leave]
    · simp only [hsome, hsome']
      exact .inl ⟨b, b', memo, memo', rfl, rfl, hb, hmemo⟩

/-- Any tree of a closed program, whatever functions are being built around it. -/
theorem build_accompanies (closed : p.Closed) {t : Term} (ht : t.Within p)
    (active : List FunctionId) {depth : Nat} (hdepth : p.functions.size < depth) :
    Accompanies F strict active F (Build.term p (Build.callBound p (Build.depth p) active) t)
      (build p arith depth t) := by
  have hle : (remaining p active).card ≤ p.functions.size := by
    have hfilter := Finset.card_filter_le (Finset.range p.functions.size)
      fun i => ∀ f ∈ active, f.toNat ≠ i
    rwa [Finset.card_range] at hfilter
  have hcall : ∀ id site, (p.function? id).isSome → site.Within p →
      Accompanies F strict active F (Build.callBound p (Build.depth p) active id site)
        (Builder.call p arith depth id site) := fun _ _ hid _ =>
    call_accompanies h closed (Nat.lt_succ_of_le hle) (Nat.lt_of_le_of_lt hle hdepth) hid
  exact term_accompanies h hcall ht

end

/-- Building with the operations of building itself differs in nothing. -/
lemma folding_respects (p : Program) : Respects p (Build.folding p) True Eq where
  literal _ _ := rfl
  var _ _ := rfl
  array _ _ _ := rfl
  either _ ht he := by rw [ht, he]
  builtin _ _ hl hr := by rw [hl, hr]
  math _ _ hbs := by
    rw [List.forall₂_eq_eq_eq] at hbs
    rw [hbs]
  call name ty hparams hret := by
    have heq : ∀ x y : String × Bound,
        (x.1 = y.1 ∧ (x.2 = y.2 ∨ x.2 = .fail ∧ y.2 = .fail)) → x = y := by
      rintro x y ⟨hname, hbound | ⟨hx, hy⟩⟩
      · exact Prod.ext hname hbound
      · exact Prod.ext hname (hx.trans hy.symm)
    have hparams' := hparams.imp heq
    rw [List.forall₂_eq_eq_eq] at hparams'
    rw [hparams', hret]
  arith t op ty hl hr := by
    subst hl
    subst hr
    obtain ⟨b, hb⟩ | herror := Build.folding_cases t op _ _ ty
    · exact .inl ⟨b, b, hb, hb, rfl⟩
    · exact .inr ⟨_, _, herror, fun _ => herror⟩

/-- Steps that agree with steps of building come to what these come to. -/
lemma Accompanies.run_eq {active : List FunctionId} {α : Type} {x : Building α} {y : Nesting α}
    (h : Accompanies Eq True active Eq x y) (memo : Memo) :
    y.run.run ⟨memo, active⟩ = some ((x.run.run memo).1, ⟨(x.run.run memo).2, active⟩) ∧
      ((∃ a, (x.run.run memo).1 = .ok a) ∨
        ∃ text obstacle, (x.run.run memo).1 = .error (.unsupported text obstacle)) := by
  obtain ⟨a, _, s, _, hx, hy, rfl, hs⟩ | ⟨text, obstacle, s, hx, hy⟩ := h memo memo (.refl_eq memo)
  · obtain rfl := hs.eq
    rw [hx]
    exact ⟨hy, .inl ⟨a, rfl⟩⟩
  · obtain ⟨_, hrun, hs⟩ := hy trivial
    obtain rfl := hs.eq
    rw [hx]
    exact ⟨hrun, .inr ⟨text, obstacle, rfl⟩⟩

/-- Building ends on every construct of a program, from every state of a builder, with a bound or
because something is not covered: beyond the number of functions the depth makes no difference. The
functions in progress are left as they were found, and with none in progress this is what building to
its own depth comes to. -/
theorem build_terminates {nodes : List (Node NodeId)} {loops : List LoopInfo} {arrays : List Binding}
    {functions : List FunctionDef} {p : Program}
    (hp : Program.ofTables nodes loops arrays functions = .ok p) {id : NodeId} {t : Term}
    (ht : p.term? id = some t) (b : Builder) :
    ∃ r memo,
      (∀ depth, p.functions.size < depth →
        (build p (Build.folding p) depth t).run.run b = some (r, ⟨memo, b.active⟩)) ∧
      ((∃ bound, r = .ok bound) ∨ ∃ text obstacle, r = .error (.unsupported text obstacle)) ∧
      (b.active = [] → (p.build t).run.run b.memo = (r, memo)) := by
  have closed := Program.ofTables_closed hp
  have hruns : ∀ depth, p.functions.size < depth → _ := fun depth hdepth =>
    (build_accompanies (folding_respects p) closed (closed.term ht) b.active hdepth).run_eq b.memo
  refine ⟨_, _, fun depth hdepth => (hruns depth hdepth).1, (hruns _ (Nat.lt_succ_self _)).2, ?_⟩
  intro hactive
  rw [hactive]
  rfl

/-- With no function in progress the steps come to what steps of building come to. -/
def Matches {α : Type} (x : Building α) (y : Nesting α) : Prop :=
  ∀ memo, y.run.run ⟨memo, []⟩ = some ((x.run.run memo).1, ⟨(x.run.run memo).2, []⟩)

namespace Matches

variable {α β : Type} {x : Building α} {y : Nesting α} {f : α → Building β} {g : α → Nesting β}

theorem pure (a : α) : Matches (Pure.pure a) (Pure.pure a) := fun _ => rfl

theorem throw (e : Error) :
    Matches (MonadExcept.throw e : Building α) (MonadExcept.throw e) := fun _ => rfl

theorem bind (h : Matches x y) (hf : ∀ a, Matches (f a) (g a)) : Matches (x >>= f) (y >>= g) := by
  intro memo
  rw [Nesting.run_bind_step, LoopSafety.run_bind_step, h memo]
  rcases x.run.run memo with ⟨_ | a, memo'⟩
  · rfl
  · exact hf a memo'

end Matches

def node (p : Program) (depth : Nat) (id : NodeId) : Nesting Bound :=
  match p.term? id with
  | some t => build p (Build.folding p) depth t
  | none => throw (.missing (.node id))

/-- One part of a symbolic range, or its default. -/
def part (p : Program) (depth : Nat) (default : Int64) (ty : DataType) : Option NodeId → Nesting Bound
  | none => return .literal default ty
  | some id => node p depth id

/-- The symbolic range of a loop. -/
def range (p : Program) (depth : Nat) (loop : LoopId) : Nesting Bound :=
  match p.loop? loop with
  | none => throw (.missing (.loop loop))
  | some info =>
    match info.range with
    | .simple span =>
      return .range (.literal span.start info.ty) (.literal span.stop info.ty)
        (.literal span.step info.ty)
    | .symbolic start stop step defaults => do
      let start ← part p depth defaults.start info.ty start
      let stop ← part p depth defaults.stop info.ty stop
      let step ← part p depth defaults.step info.ty step
      return .range start stop step

def query (p : Program) (depth : Nat) : Program.Query → Nesting Bound
  | .node id => node p depth id
  | .loop id => range p depth id

/-- The answers to queries that a builder is asked in turn, each from the state in which the one before
has left it; none if calls are nested too deep. -/
def answers (p : Program) (depth : Nat) : List Program.Query → Builder →
    Option (List (Except Error Bound))
  | [], _ => some []
  | q :: qs, b => do
    let (r, b) ← (query p depth q).run.run b
    return r :: (← answers p depth qs b)

section

variable {p : Program} {depth : Nat} (closed : p.Closed) (hdepth : p.functions.size < depth)
include closed hdepth

lemma build_matches {t : Term} (ht : t.Within p) :
    Matches (p.build t) (build p (Build.folding p) depth t) := fun memo =>
  ((build_accompanies (folding_respects p) closed ht [] hdepth).run_eq memo).1

lemma node_matches (id : NodeId) : Matches (p.query (.node id)) (node p depth id) := by
  rw [Program.query, node]
  cases ht : p.term? id with
  | none => exact .throw _
  | some t => exact build_matches closed hdepth (closed.term ht)

lemma part_matches (default : Int64) (ty : DataType) (id? : Option NodeId) :
    Matches (p.buildPart default ty id?) (part p depth default ty id?) := by
  cases id? with
  | none => exact .pure _
  | some id => exact node_matches closed hdepth id

lemma range_matches (loop : LoopId) : Matches (p.buildRange loop) (range p depth loop) := by
  rw [Program.buildRange, range]
  cases p.loop? loop with
  | none => exact .throw _
  | some info =>
    dsimp only
    cases info.range with
    | simple span => exact .pure _
    | symbolic start stop step defaults =>
      have hpart := part_matches closed hdepth
      exact .bind (hpart _ _ _) fun _ => .bind (hpart _ _ _) fun _ => .bind (hpart _ _ _) fun _ =>
        .pure _

lemma query_matches (q : Program.Query) : Matches (p.query q) (query p depth q) := by
  cases q with
  | node id => exact node_matches closed hdepth id
  | loop id => exact range_matches closed hdepth id

lemma answers_run (qs : List Program.Query) (memo : Memo) :
    answers p depth qs ⟨memo, []⟩ = some (p.answers qs memo) := by
  induction qs generalizing memo with
  | nil => rfl
  | cons q qs ih =>
    rw [answers, query_matches closed hdepth q memo]
    change (do return _ :: (← answers p depth qs ⟨_, []⟩)) = _
    rw [ih]
    rfl

end

/-- On a program that was accepted, a builder that is asked any number of times, for nodes and for
ranges, with success or without, answers every time as a new builder does. -/
theorem answers_as_new {nodes : List (Node NodeId)} {loops : List LoopInfo} {arrays : List Binding}
    {functions : List FunctionDef} {p : Program}
    (hp : Program.ofTables nodes loops arrays functions = .ok p) (qs : List Program.Query) {depth : Nat}
    (hdepth : p.functions.size < depth) :
    ∃ rs, answers p depth qs {} = some rs ∧
      List.Forall₂ (fun q r => ∃ b, (query p depth q).run.run {} = some (r, b)) qs rs := by
  have closed := Program.ofTables_closed hp
  refine ⟨_, answers_run closed hdepth qs ∅, ?_⟩
  rw [Program.answers_eq (Build.sound_empty p), List.forall₂_map_right_iff, List.forall₂_same]
  exact fun q _ => ⟨_, query_matches closed hdepth q ∅⟩

end Builder

/-! Two functions that call each other, one of them with a call of the other as its argument, and one
that adds one. -/
namespace Mutual

def nodes : List (Node NodeId) :=
  [.literal (.int 1), .call ⟨0⟩ [⟨0⟩], .call ⟨1⟩ [⟨1⟩], .var "x" .int none, .binary .add ⟨3⟩ ⟨0⟩ .int,
    .call ⟨2⟩ [⟨0⟩]]

def functions : List FunctionDef :=
  [⟨"ping", [⟨"x", .int⟩], ⟨2⟩, .int⟩, ⟨"pong", [⟨"x", .int⟩], ⟨1⟩, .int⟩,
    ⟨"next", [⟨"x", .int⟩], ⟨4⟩, .int⟩]

def one : Term := ⟨⟨0⟩, .literal (.int 1)⟩
def ping : Term := ⟨⟨1⟩, .call ⟨0⟩ [one]⟩
def pong : Term := ⟨⟨2⟩, .call ⟨1⟩ [ping]⟩
def param : Term := ⟨⟨3⟩, .var "x" .int none⟩
def sum : Term := ⟨⟨4⟩, .binary .add param one .int⟩
def next : Term := ⟨⟨5⟩, .call ⟨2⟩ [one]⟩

def program : Program where
  terms := #[one, ping, pong, param, sum, next]
  functions := functions.toArray

lemma ofTables_eq : Program.ofTables nodes [] [] functions = .ok program := rfl

lemma ping_entry : program.term? ⟨1⟩ = some ping := rfl

lemma next_entry : program.term? ⟨5⟩ = some next := rfl

/-- The recursion ends with an error for the first function and then with a bound for the third, which
is not entered again while it is in progress. -/
theorem mutual_calls_end :
    ∃ memo memo' memo'' r, ∀ depth, 3 < depth →
      (Builder.build program (Build.folding program) depth ping).run.run {} =
        some (.error (.unsupported "ping(1)" .recursiveCall), ⟨memo, []⟩) ∧
      (Builder.build program (Build.folding program) depth next).run.run ⟨∅, []⟩ =
        some (.ok (.call "next" [("x", .literal 1 .int)]
          (.binary .add (.var "x" .int) (.literal 1 .int) .int) .int), ⟨memo', []⟩) ∧
      (Builder.build program (Build.folding program) depth next).run.run ⟨∅, [⟨2⟩]⟩ =
        some (r, ⟨memo'', [⟨2⟩]⟩) := by
  obtain ⟨r, memo, hrun, -, hbuild⟩ :=
    Builder.build_terminates ofTables_eq ping_entry {}
  obtain ⟨r', memo', hrun', -, hbuild'⟩ :=
    Builder.build_terminates ofTables_eq next_entry {}
  obtain ⟨r'', memo'', hrun'', -⟩ :=
    Builder.build_terminates ofTables_eq next_entry ⟨∅, [⟨2⟩]⟩
  obtain rfl : .error (.unsupported "ping(1)" .recursiveCall) = r := congrArg Prod.fst (hbuild rfl)
  obtain rfl : .ok (.call "next" [("x", .literal 1 .int)]
      (.binary .add (.var "x" .int) (.literal 1 .int) .int) .int) = r' :=
    congrArg Prod.fst (hbuild' rfl)
  exact ⟨memo, memo', memo'', r'', fun depth hdepth =>
    ⟨hrun depth hdepth, hrun' depth hdepth, hrun'' depth hdepth⟩⟩

end Mutual

end LoopSafety
