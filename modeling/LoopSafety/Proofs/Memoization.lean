import Mathlib.Data.List.Nodup
import Mathlib.Data.List.Perm.Subperm
import Mathlib.Logic.Relation
import LoopSafety.Proofs.Passes

/-! Building with the functions that were built before.

Results are kept while other functions are still being built, and a function that is met again while
it is being built is refused. Neither shows in the results: a function that was completed calls,
through however many others, no function that is being built around it and not itself. So a build
from nothing completes it as well, wherever it is met, and with the same bound. -/
namespace LoopSafety

namespace Term

mutual

/-- The functions whose bounds the bound of a construct takes in. The arguments of a call count for
the function that is called. -/
def callees : Term → List FunctionId
  | .mk _ (.var _ _ (some definition)) => definition.callees
  | .mk _ (.binary _ left right _) => left.callees ++ right.callees
  | .mk _ (.unary _ operand _) => operand.callees
  | .mk _ (.builtin _ args _) | .mk _ (.math _ args _) => calleesOf args
  | .mk _ (.cond _ thenPart (some elsePart) _) => thenPart.callees ++ elsePart.callees
  | .mk _ (.call function _) => [function]
  | .mk _ (.literal _) | .mk _ (.var _ _ none) | .mk _ (.access ..) | .mk _ (.cond _ _ none _)
  | .mk _ (.forLoop ..) | .mk _ (.whileLoop ..) | .mk _ (.block _) | .mk _ (.assign ..)
  | .mk _ (.ret _) | .mk _ .brk => []

def calleesOf : List Term → List FunctionId
  | [] => []
  | t :: ts => t.callees ++ calleesOf ts

end

end Term

/-- The bound of the first function takes in that of the second, in its result or in an argument
somewhere in the program. -/
def Program.Depends (p : Program) (f g : FunctionId) : Prop :=
  (∃ site ∈ p.callSites f, g ∈ Term.calleesOf site.children) ∨
    ∃ d result, p.function? f = some d ∧ p.term? d.ret = some result ∧ g ∈ result.callees

namespace Build

/-- A relation of building steps that sequences respect. -/
structure Respected (R : (α : Type) → Building α → Building α → Prop) : Prop where
  pure : ∀ {α : Type} (a : α), R α (Pure.pure a) (Pure.pure a)
  throw : ∀ {α : Type} (e : Error), R α (MonadExcept.throw e) (MonadExcept.throw e)
  bind : ∀ {α β : Type} {m m' : Building α} {f f' : α → Building β}, R α m m' →
    (∀ a, R β (f a) (f' a)) → R β (m >>= f) (m' >>= f')

section

variable {p : Program} {R : (α : Type) → Building α → Building α → Prop} (h : Respected R)
  {call call' : FunctionId → Term → Building Bound}
include h

lemma arith_respects (t : Term) (op : BinaryOp) (left right : Bound) (ty : DataType) :
    R Bound (arith p t op left right ty) (arith p t op left right ty) := by
  unfold arith
  split
  · exact h.pure _
  · exact h.pure _
  · split
    · exact h.pure _
    · exact h.throw _
  · exact h.pure _

mutual

/-- Related calls make related bounds, and only the calls of the construct matter. -/
theorem term_respects : ∀ t : Term,
    (∀ g ∈ t.callees, ∀ site, R Bound (call g site) (call' g site)) →
      R Bound (term p call t) (term p call' t)
  | .mk _ (.literal _), _ => by
    rw [term, term]
    exact h.pure _
  | .mk _ (.var _ _ (some definition)), hcall => by
    rw [term, term]
    exact term_respects definition hcall
  | .mk _ (.var _ _ none), _ => by
    rw [term, term]
    exact h.pure _
  | .mk _ (.binary _ left right _), hcall => by
    rw [Term.callees, List.forall_mem_append] at hcall
    rw [term, term]
    exact h.bind (term_respects left hcall.1) fun _ =>
      h.bind (term_respects right hcall.2) fun _ => arith_respects h _ _ _ _ _
  | .mk _ (.unary .cast operand _), hcall => by
    rw [term, term]
    exact term_respects operand hcall
  | .mk _ (.unary .neg operand _), hcall => by
    rw [term, term]
    exact h.bind (term_respects operand hcall) fun _ => arith_respects h _ _ _ _ _
  | .mk _ (.unary .not _ _), _ => by
    rw [term, term]
    exact h.throw _
  | .mk _ (.access array _), _ => by
    rw [term, term, arrayBound]
    split
    · exact h.pure _
    · exact h.throw _
  | .mk _ (.builtin _ [left, right] _), hcall => by
    rw [Term.callees, Term.calleesOf, Term.calleesOf, Term.calleesOf, List.append_nil,
      List.forall_mem_append] at hcall
    rw [term, term]
    exact h.bind (term_respects left hcall.1) fun _ =>
      h.bind (term_respects right hcall.2) fun _ => h.pure _
  | .mk _ (.builtin _ [] _), _ | .mk _ (.builtin _ [_] _), _
  | .mk _ (.builtin _ (_ :: _ :: _ :: _) _), _ => by
    rw [term, term]
    · exact h.throw _
    · simp
    · simp
  | .mk _ (.math _ args _), hcall => by
    rw [term, term]
    split
    · exact h.throw _
    · exact h.bind (terms_respects args hcall) fun _ => h.pure _
  | .mk _ (.cond _ thenPart (some elsePart) _), hcall => by
    rw [Term.callees, List.forall_mem_append] at hcall
    rw [term, term]
    exact h.bind (term_respects thenPart hcall.1) fun _ =>
      h.bind (term_respects elsePart hcall.2) fun _ => h.pure _
  | .mk _ (.cond _ _ none _), _ => by
    rw [term, term]
    exact h.throw _
  | .mk _ (.call function _), hcall => by
    rw [term, term]
    exact hcall function (by simp [Term.callees]) _
  | .mk _ (.forLoop ..), _ | .mk _ (.whileLoop ..), _ | .mk _ (.block _), _
  | .mk _ (.assign ..), _ | .mk _ (.ret _), _ | .mk _ .brk, _ => by
    rw [term, term]
    exact h.throw _

theorem terms_respects : ∀ ts : List Term,
    (∀ g ∈ Term.calleesOf ts, ∀ site, R Bound (call g site) (call' g site)) →
      R (List Bound) (terms p call ts) (terms p call' ts)
  | [], _ => by
    rw [terms, terms]
    exact h.pure _
  | t :: ts, hcall => by
    rw [Term.calleesOf, List.forall_mem_append] at hcall
    rw [terms, terms]
    exact h.bind (term_respects t hcall.1) fun _ =>
      h.bind (terms_respects ts hcall.2) fun _ => h.pure _

end

lemma joinArgs_respects (params : List Param) (previous : List (Option Bound)) (args : List Term)
    (hcall : ∀ g ∈ Term.calleesOf args, ∀ site, R Bound (call g site) (call' g site)) :
    R _ (joinArgs p call params previous args) (joinArgs p call' params previous args) := by
  induction params generalizing previous args with
  | nil => exact h.pure _
  | cons param params ih =>
    cases previous with
    | nil => exact h.pure _
    | cons b rest =>
      cases args with
      | nil => exact h.pure _
      | cons arg args =>
        rw [Term.calleesOf, List.forall_mem_append] at hcall
        exact h.bind (term_respects h arg hcall.1) fun _ =>
          h.bind (ih rest args hcall.2) fun _ => h.pure _

lemma joinSites_respects (f : FunctionDef) (sites : List Term) (joined : List (Option Bound))
    (hcall : ∀ site ∈ sites, ∀ g ∈ Term.calleesOf site.children, ∀ t,
      R Bound (call g t) (call' g t)) :
    R _ (joinSites p call f sites joined) (joinSites p call' f sites joined) := by
  induction sites generalizing joined with
  | nil => exact h.pure _
  | cons site sites ih =>
    rw [List.forall_mem_cons] at hcall
    rw [joinSites, joinSites]
    split
    · exact h.throw _
    · exact h.bind (joinArgs_respects h _ _ _ hcall.1) fun _ => ih _ hcall.2

/-- The bound of a function is determined by those of the functions it depends on. -/
theorem function_respects {id : FunctionId} {f : FunctionDef} (hf : p.function? id = some f)
    (hcall : ∀ g, p.Depends id g → ∀ site, R Bound (call g site) (call' g site)) :
    R Bound (function p call id f) (function p call' id f) := by
  unfold function
  refine h.bind (joinSites_respects h _ _ _ fun site hsite g hg => hcall g (.inl ⟨site, hsite, hg⟩))
    fun _ => ?_
  dsimp only
  split
  · exact h.throw _
  · next result hresult =>
    refine h.bind (term_respects h result fun g hg => ?_) fun _ => h.pure _
    exact hcall g (.inr ⟨f, result, hf, hresult, hg⟩)

end

/-- Some run of the steps succeeds. -/
def Succeeds {α : Type} (m : Building α) : Prop := ∃ s a s', m.run.run s = (.ok a, s')

lemma Succeeds.bind {α β : Type} {m : Building α} {f : α → Building β} (h : Succeeds (m >>= f)) :
    Succeeds m ∧ ∃ a, Succeeds (f a) := by
  obtain ⟨s, b, s', hrun⟩ := h
  obtain ⟨a, s₁, hm, hf⟩ := run_bind_eq_ok.mp hrun
  exact ⟨⟨s, a, s₁, hm⟩, a, s₁, b, s', hf⟩

lemma not_succeeds_throw {α : Type} (e : Error) :
    ¬Succeeds (MonadExcept.throw e : Building α) := by
  rintro ⟨s, a, s', ⟨⟩⟩

section

variable {p : Program} {call : FunctionId → Term → Building Bound} {g : FunctionId}

mutual

/-- A bound is built only if all its callees are. -/
theorem term_needs : ∀ {t : Term}, Succeeds (term p call t) → g ∈ t.callees →
    ∃ site, Succeeds (call g site)
  | .mk _ (.var _ _ (some definition)), h, hg => by
    rw [term] at h
    exact term_needs h hg
  | .mk _ (.binary _ left right _), h, hg => by
    rw [term] at h
    obtain ⟨hl, _, h⟩ := h.bind
    obtain ⟨hr, -⟩ := h.bind
    rw [Term.callees, List.mem_append] at hg
    exact hg.elim (term_needs hl) (term_needs hr)
  | .mk _ (.unary .cast operand _), h, hg => by
    rw [term] at h
    exact term_needs h hg
  | .mk _ (.unary .neg operand _), h, hg => by
    rw [term] at h
    exact term_needs h.bind.1 hg
  | .mk _ (.unary .not _ _), h, _ => by
    rw [term] at h
    exact absurd h (not_succeeds_throw _)
  | .mk _ (.builtin _ [left, right] _), h, hg => by
    rw [term] at h
    obtain ⟨hl, _, h⟩ := h.bind
    obtain ⟨hr, -⟩ := h.bind
    rw [Term.callees, Term.calleesOf, Term.calleesOf, Term.calleesOf, List.append_nil,
      List.mem_append] at hg
    exact hg.elim (term_needs hl) (term_needs hr)
  | .mk _ (.builtin _ [] _), h, _ | .mk _ (.builtin _ [_] _), h, _
  | .mk _ (.builtin _ (_ :: _ :: _ :: _) _), h, _ => by
    rw [term] at h
    · exact absurd h (not_succeeds_throw _)
    · simp
  | .mk _ (.math _ args _), h, hg => by
    rw [term] at h
    split at h
    · exact absurd h (not_succeeds_throw _)
    · exact terms_needs h.bind.1 hg
  | .mk _ (.cond _ thenPart (some elsePart) _), h, hg => by
    rw [term] at h
    obtain ⟨ht, _, h⟩ := h.bind
    obtain ⟨he, -⟩ := h.bind
    rw [Term.callees, List.mem_append] at hg
    exact hg.elim (term_needs ht) (term_needs he)
  | .mk _ (.call function args), h, hg => by
    rw [term] at h
    obtain rfl : g = function := by simpa [Term.callees] using hg
    exact ⟨_, h⟩
  | .mk _ (.literal _), _, hg | .mk _ (.var _ _ none), _, hg | .mk _ (.access ..), _, hg
  | .mk _ (.cond _ _ none _), _, hg | .mk _ (.forLoop ..), _, hg | .mk _ (.whileLoop ..), _, hg
  | .mk _ (.block _), _, hg | .mk _ (.assign ..), _, hg | .mk _ (.ret _), _, hg
  | .mk _ .brk, _, hg => by simp [Term.callees] at hg

theorem terms_needs : ∀ {ts : List Term}, Succeeds (terms p call ts) → g ∈ Term.calleesOf ts →
    ∃ site, Succeeds (call g site)
  | [], _, hg => by simp [Term.calleesOf] at hg
  | t :: ts, h, hg => by
    rw [terms] at h
    obtain ⟨ht, _, h⟩ := h.bind
    obtain ⟨hts, -⟩ := h.bind
    rw [Term.calleesOf, List.mem_append] at hg
    exact hg.elim (term_needs ht) (terms_needs hts)

end

/-- With an argument for every parameter, all arguments are built and joined. -/
lemma joinArgs_needs {params : List Param} {previous joined : List (Option Bound)}
    {args : List Term} {s s' : Memo} (hprevious : previous.length = params.length)
    (hargs : args.length = params.length)
    (h : (joinArgs p call params previous args).run.run s = (.ok joined, s')) :
    joined.length = params.length ∧ ∀ g ∈ Term.calleesOf args, ∃ site, Succeeds (call g site) := by
  induction params generalizing previous args joined s s' with
  | nil =>
    obtain rfl := List.length_eq_zero_iff.mp hargs
    cases h
    simp [Term.calleesOf]
  | cons param params ih =>
    cases previous with
    | nil => simp at hprevious
    | cons b rest =>
      cases args with
      | nil => simp at hargs
      | cons arg args =>
        obtain ⟨bound, s₁, hbound, h⟩ := run_bind_eq_ok.mp h
        obtain ⟨joined, s₂, hjoined, h⟩ := run_bind_eq_ok.mp h
        cases h
        obtain ⟨hlength, hneeds⟩ := ih (by simpa using hprevious) (by simpa using hargs) hjoined
        refine ⟨by simpa using hlength, ?_⟩
        rw [Term.calleesOf, List.forall_mem_append]
        exact ⟨fun g => term_needs ⟨s, bound, s₁, hbound⟩, hneeds⟩

lemma joinSites_needs {f : FunctionDef} {sites : List Term} {joined : List (Option Bound)}
    (hjoined : joined.length = f.params.length) (h : Succeeds (joinSites p call f sites joined)) :
    ∀ site ∈ sites, ∀ g ∈ Term.calleesOf site.children, ∃ t, Succeeds (call g t) := by
  induction sites generalizing joined with
  | nil => simp
  | cons site sites ih =>
    rw [joinSites] at h
    split at h
    · exact absurd h (not_succeeds_throw _)
    · next hargs =>
      obtain ⟨s, b, s', hrun⟩ := h
      obtain ⟨joined', s₁, hfirst, hrest⟩ := run_bind_eq_ok.mp hrun
      obtain ⟨hlength, hneeds⟩ := joinArgs_needs hjoined (not_not.mp hargs) hfirst
      exact List.forall_mem_cons.mpr ⟨hneeds, ih hlength ⟨s₁, b, s', hrest⟩⟩

/-- A function is completed only if all functions that it depends on are. -/
theorem function_needs {id : FunctionId} {f : FunctionDef} (hf : p.function? id = some f)
    (h : Succeeds (function p call id f)) (hg : p.Depends id g) :
    ∃ site, Succeeds (call g site) := by
  unfold function at h
  obtain ⟨hsites, _, h⟩ := h.bind
  obtain ⟨site, hsite, hmem⟩ | ⟨d, result, hd, hresult, hmem⟩ := hg
  · exact joinSites_needs (by simp) hsites site hsite g hmem
  · obtain rfl : f = d := Option.some.inj (hf.symm.trans hd)
    simp only [hresult] at h
    exact term_needs h.bind.1 hmem

end

/-- The bound of a call without a memo. -/
def direct (p : Program) : Nat → List FunctionId → FunctionId → Term → Building Bound
  | 0, _, _, site => uncovered p site .recursiveCall
  | depth + 1, active, id, site =>
    if id ∈ active then uncovered p site .recursiveCall
    else
      match p.function? id with
      | none => throw (.missing (.function id))
      | some f => function p (direct p depth (id :: active)) id f

variable {p : Program}

/-- A call that succeeds is one of a function that is not being built. -/
lemma direct_eq_ok {depth : Nat} {active : List FunctionId} {id : FunctionId} {site : Term}
    {s s' : Memo} {b : Bound}
    (h : (direct p depth active id site).run.run s = (.ok b, s')) :
    ∃ depth' f, depth = depth' + 1 ∧ id ∉ active ∧ p.function? id = some f ∧
      (function p (direct p depth' (id :: active)) id f).run.run s = (.ok b, s') := by
  cases depth with
  | zero => cases h
  | succ depth =>
    rw [direct] at h
    split at h
    · cases h
    · next hactive =>
      split at h
      · cases h
      · next f hf => exact ⟨depth, f, rfl, hactive, hf, h⟩

/-- A completed function depends neither on itself nor on a function that is being built. -/
theorem direct_avoids {depth : Nat} {active : List FunctionId} {id : FunctionId} {site : Term}
    (h : Succeeds (direct p depth active id site)) {g : FunctionId}
    (hg : Relation.TransGen p.Depends id g) : g ∉ id :: active := by
  induction depth generalizing active id site with
  | zero => exact absurd h (not_succeeds_throw _)
  | succ depth ih =>
    obtain ⟨s, b, s', hrun⟩ := h
    obtain ⟨_, f, ⟨⟩, -, hf, hfunction⟩ := direct_eq_ok hrun
    obtain ⟨next, hnext, hreach⟩ := Relation.TransGen.head'_iff.mp hg
    obtain ⟨site', hsucceeds⟩ := function_needs hf ⟨s, b, s', hfunction⟩ hnext
    rcases Relation.reflTransGen_iff_eq_or_transGen.mp hreach with rfl | hreach
    · obtain ⟨_, _, _, hrun'⟩ := hsucceeds
      obtain ⟨_, _, -, hactive, -⟩ := direct_eq_ok hrun'
      exact hactive
    · exact fun hmem => ih hsucceeds hreach (List.mem_cons_of_mem next hmem)

/-- The functions that are being built, with the depth that is left for more. -/
structure Stack (p : Program) (active : List FunctionId) (depth : Nat) : Prop where
  nodup : active.Nodup
  known : ∀ f ∈ active, (p.function? f).isSome
  room : active.length + depth = p.functions.size + 1

namespace Stack

variable {active : List FunctionId} {depth : Nat} {id : FunctionId}

/-- There are no more functions than the table has. -/
lemma length_le (h : Stack p active depth) : active.length ≤ p.functions.size := by
  have hinjective : Function.Injective FunctionId.toNat := by
    rintro ⟨a⟩ ⟨b⟩ hab
    exact congrArg FunctionId.mk (UInt32.toNat.inj hab)
  have hsubset : active.map FunctionId.toNat ⊆ List.range p.functions.size := by
    intro n hn
    obtain ⟨f, hf, rfl⟩ := List.mem_map.mp hn
    simpa [Program.function?] using h.known f hf
  simpa using (List.subperm_of_subset (h.nodup.map hinjective) hsubset).length_le

lemma push (h : Stack p active (depth + 1)) (hid : id ∉ active) (hknown : (p.function? id).isSome) :
    Stack p (id :: active) depth where
  nodup := List.nodup_cons.mpr ⟨hid, h.nodup⟩
  known := List.forall_mem_cons.mpr ⟨hknown, h.known⟩
  room := by
    have := h.room
    simp only [List.length_cons]
    omega

lemma exists_depth (h : Stack p active depth) : ∃ depth', depth = depth' + 1 := by
  have hlength := h.length_le
  have hroom := h.room
  exact ⟨depth - 1, by omega⟩

end Stack

/-- What succeeds in the first way does so in the second. -/
def Carries (α : Type) (m m' : Building α) : Prop :=
  ∀ s a s', m.run.run s = (.ok a, s') → m'.run.run s = (.ok a, s')

lemma carries_respected : Respected Carries where
  pure _ _ _ _ h := h
  throw _ _ _ _ h := h
  bind hm hf s b s' h := by
    obtain ⟨a, s₁, hfirst, hsecond⟩ := run_bind_eq_ok.mp h
    exact run_bind_eq_ok.mpr ⟨a, s₁, hm s a s₁ hfirst, hf a s₁ b s' hsecond⟩

/-- A completed function has the same bound wherever it is met, unless it depends on a function that
is being built there. -/
theorem direct_carries {depth depth' : Nat} {active active' : List FunctionId} {id : FunctionId}
    (site site' : Term) (stack : Stack p active' depth')
    (hapart : ∀ g, Relation.ReflTransGen p.Depends id g → g ∉ active') :
    Carries Bound (direct p depth active id site) (direct p depth' active' id site') := by
  intro s b s' h
  induction depth generalizing active depth' active' id site site' s b s' with
  | zero => cases h
  | succ depth ih =>
    obtain ⟨_, f, ⟨⟩, -, hf, hfunction⟩ := direct_eq_ok h
    obtain ⟨depth', rfl⟩ := stack.exists_depth
    have hid : id ∉ active' := hapart id .refl
    rw [direct, if_neg hid, hf]
    refine function_respects carries_respected hf (fun g hg t => ?_) s b s' hfunction
    intro s₁ b₁ s₁' hg₁
    refine ih t t (stack.push hid (by simp [hf])) (fun x hx => ?_) s₁ b₁ s₁' hg₁
    have hself := direct_avoids ⟨s, b, s', h⟩ (.head' hg hx)
    rw [List.mem_cons, not_or] at hself ⊢
    exact ⟨hself.1, hapart x (.head hg hx)⟩

/-- Every kept bound is one that was built. -/
def Sound (p : Program) (memo : Memo) : Prop :=
  ∀ id b, memo.get? id = some b → ∃ depth active site s s',
    (direct p depth active id site).run.run s = (.ok b, s')

lemma sound_empty (p : Program) : Sound p ∅ := by
  intro id b h
  simp at h

/-- The second steps use no memo, and the first come to the same from every sound memo. -/
def Mirrors (p : Program) (α : Type) (m m' : Building α) : Prop :=
  ∃ r, (∀ memo, m'.run.run memo = (r, memo)) ∧
    ∀ memo, Sound p memo → ∃ memo', Sound p memo' ∧ m.run.run memo = (r, memo')

lemma mirrors_respected (p : Program) : Respected (Mirrors p) where
  pure a := ⟨.ok a, fun _ => rfl, fun memo hs => ⟨memo, hs, rfl⟩⟩
  throw e := ⟨.error e, fun _ => rfl, fun memo hs => ⟨memo, hs, rfl⟩⟩
  bind hm hf := by
    obtain ⟨r, hbare, hrun⟩ := hm
    cases r with
    | error e =>
      refine ⟨.error e, fun memo => by rw [run_bind_step, hbare], fun memo hs => ?_⟩
      obtain ⟨memo₁, hs₁, heq⟩ := hrun memo hs
      exact ⟨memo₁, hs₁, by rw [run_bind_step, heq]⟩
    | ok a =>
      obtain ⟨r, hbare', hrun'⟩ := hf a
      refine ⟨r, fun memo => ?_, fun memo hs => ?_⟩
      · rw [run_bind_step, hbare]
        exact hbare' memo
      · obtain ⟨memo₁, hs₁, heq⟩ := hrun memo hs
        obtain ⟨memo₂, hs₂, heq'⟩ := hrun' memo₁ hs₁
        exact ⟨memo₂, hs₂, by rw [run_bind_step, heq]; exact heq'⟩

lemma Sound.insert {memo : Memo} (hs : Sound p memo) {depth : Nat} {active : List FunctionId}
    {id : FunctionId} {site : Term} {b : Bound} {s s' : Memo}
    (h : (direct p depth active id site).run.run s = (.ok b, s')) : Sound p (memo.insert id b) := by
  intro id' b' hget
  rw [Table.get?_insert] at hget
  split at hget
  · next heq =>
    cases heq
    cases hget
    exact ⟨depth, active, site, s, s', h⟩
  · exact hs id' b' hget

lemma callBound_known {memo : Memo} {id : FunctionId} {b : Bound} (h : memo.get? id = some b)
    (depth : Nat) (active : List FunctionId) (site : Term) :
    (callBound p (depth + 1) active id site).run.run memo = (.ok b, memo) := by
  rw [callBound, run_bind_step, run_get_step]
  simp only [h]
  rfl

/-- A function that is not known yet is built as without a memo, and then kept. -/
lemma callBound_unknown {depth : Nat} {active : List FunctionId} {id : FunctionId} (site : Term)
    (hfunction : ∀ f, id ∉ active → p.function? id = some f →
      Mirrors p Bound (function p (callBound p depth (id :: active)) id f)
        (function p (direct p depth (id :: active)) id f)) :
    ∃ r, (∀ memo, (direct p (depth + 1) active id site).run.run memo = (r, memo)) ∧
      ∀ memo, Sound p memo → memo.get? id = none → ∃ memo', Sound p memo' ∧
        (callBound p (depth + 1) active id site).run.run memo = (r, memo') := by
  rw [callBound, direct]
  by_cases hactive : id ∈ active
  · rw [if_pos hactive]
    refine ⟨_, fun memo => rfl, fun memo hs hnone => ⟨memo, hs, ?_⟩⟩
    rw [run_bind_step, run_get_step]
    simp only [hnone, if_pos hactive]
    rfl
  · rw [if_neg hactive]
    cases hf : p.function? id with
    | none =>
      refine ⟨_, fun memo => rfl, fun memo hs hnone => ⟨memo, hs, ?_⟩⟩
      rw [run_bind_step, run_get_step]
      simp only [hnone, if_neg hactive]
      rfl
    | some f =>
      obtain ⟨r, hbare, hrun⟩ := hfunction f hactive hf
      refine ⟨r, hbare, fun memo hs hnone => ?_⟩
      obtain ⟨memo₁, hs₁, heq⟩ := hrun memo hs
      rw [run_bind_step, run_get_step]
      simp only [hnone, if_neg hactive]
      rw [run_bind_step, heq]
      cases r with
      | error e => exact ⟨memo₁, hs₁, rfl⟩
      | ok b =>
        have hbuilt : (direct p (depth + 1) active id site).run.run memo = (.ok b, memo) := by
          rw [direct, if_neg hactive, hf]
          exact hbare memo
        exact ⟨memo₁.insert id b, hs₁.insert hbuilt, rfl⟩

/-- The bound of a call does not depend on the memo. The functions that are being built lead to the
call, so no function of the memo depends on one of them. -/
theorem callBound_mirrors {depth : Nat} {active : List FunctionId} {id : FunctionId} (site : Term)
    (stack : Stack p active depth) (hleads : ∀ f ∈ active, Relation.TransGen p.Depends f id) :
    Mirrors p Bound (callBound p depth active id site) (direct p depth active id site) := by
  induction depth generalizing active id site with
  | zero => exact (mirrors_respected p).throw _
  | succ depth ih =>
    have hfunction : ∀ f, id ∉ active → p.function? id = some f →
        Mirrors p Bound (function p (callBound p depth (id :: active)) id f)
          (function p (direct p depth (id :: active)) id f) := by
      intro f hactive hf
      refine function_respects (mirrors_respected p) hf fun g hg t => ?_
      have hleads' : ∀ f' ∈ id :: active, Relation.TransGen p.Depends f' g :=
        List.forall_mem_cons.mpr ⟨.single hg, fun f' hf' => (hleads f' hf').tail hg⟩
      exact ih t (stack.push hactive (by simp [hf])) hleads'
    obtain ⟨r, hbare, hrun⟩ := callBound_unknown site hfunction
    refine ⟨r, hbare, fun memo hs => ?_⟩
    cases hget : memo.get? id with
    | none => exact hrun memo hs hget
    | some b =>
      obtain ⟨_, _, site₀, s, s', hbuilt⟩ := hs id b hget
      have hapart : ∀ g, Relation.ReflTransGen p.Depends id g → g ∉ active := by
        intro g hg hmem
        have hcycle : Relation.TransGen p.Depends id id := .trans_right hg (hleads g hmem)
        exact direct_avoids ⟨s, b, s', hbuilt⟩ hcycle List.mem_cons_self
      have hagain := direct_carries site₀ site stack hapart s b s' hbuilt
      rw [hbare] at hagain
      cases hagain
      exact ⟨memo, hs, callBound_known hget depth active site⟩

end Build

namespace Program

open Build

/-- What a builder can be asked for. -/
inductive Query where
  | node (id : NodeId)
  | loop (id : LoopId)

def query (p : Program) : Query → Building Bound
  | .node id =>
    match p.term? id with
    | some t => p.build t
    | none => throw (.missing (.node id))
  | .loop id => p.buildRange id

/-- The answers to queries that one builder is asked in turn, failures included. -/
def answers (p : Program) : List Query → Memo → List (Except Error Bound)
  | [], _ => []
  | q :: qs, memo =>
    ((p.query q).run.run memo).1 :: p.answers qs ((p.query q).run.run memo).2

variable {p : Program}

lemma build_mirrors (t : Term) : ∃ m', Mirrors p Bound (p.build t) m' := by
  have hempty : Stack p [] (Build.depth p) := ⟨List.nodup_nil, by simp, by simp [Build.depth]⟩
  exact ⟨_, term_respects (mirrors_respected p) t fun g _ site =>
    callBound_mirrors site hempty (by simp)⟩

lemma buildPart_mirrors (default : Int64) (ty : DataType) (part : Option NodeId) :
    ∃ m', Mirrors p Bound (p.buildPart default ty part) m' := by
  unfold buildPart
  split
  · exact ⟨_, (mirrors_respected p).pure _⟩
  · split
    · exact build_mirrors _
    · exact ⟨_, (mirrors_respected p).throw _⟩

lemma buildRange_mirrors (loop : LoopId) : ∃ m', Mirrors p Bound (p.buildRange loop) m' := by
  have h := mirrors_respected p
  unfold buildRange
  split
  · exact ⟨_, h.throw _⟩
  · next info _ =>
    split
    · exact ⟨_, h.pure _⟩
    · next start stop step defaults _ =>
      obtain ⟨_, hstart⟩ := buildPart_mirrors (p := p) defaults.start info.ty start
      obtain ⟨_, hstop⟩ := buildPart_mirrors (p := p) defaults.stop info.ty stop
      obtain ⟨_, hstep⟩ := buildPart_mirrors (p := p) defaults.step info.ty step
      exact ⟨_, h.bind hstart fun _ => h.bind hstop fun _ => h.bind hstep fun _ => h.pure _⟩

lemma query_mirrors (q : Query) : ∃ m', Mirrors p Bound (p.query q) m' := by
  cases q with
  | node id =>
    rw [query]
    split
    · exact build_mirrors _
    · exact ⟨_, (mirrors_respected p).throw _⟩
  | loop id => exact buildRange_mirrors id

/-- From any sound memo a query has the answer that it has from none. -/
lemma query_run {memo : Memo} (hs : Sound p memo) (q : Query) :
    ∃ memo', Sound p memo' ∧ (p.query q).run.run memo = (((p.query q).run.run ∅).1, memo') := by
  obtain ⟨m', r, -, hrun⟩ := query_mirrors (p := p) q
  obtain ⟨memo', hs', heq⟩ := hrun memo hs
  obtain ⟨_, -, hnew⟩ := hrun ∅ (sound_empty p)
  refine ⟨memo', hs', ?_⟩
  rw [heq, hnew]

lemma answers_eq {memo : Memo} (hs : Sound p memo) (qs : List Query) :
    p.answers qs memo = qs.map fun q => ((p.query q).run.run ∅).1 := by
  induction qs generalizing memo with
  | nil => rfl
  | cons q qs ih =>
    obtain ⟨memo', hs', heq⟩ := query_run hs q
    rw [answers, heq, List.map_cons, ih hs']

/-- A builder that has been asked any number of times, with success or without, answers every query as
a new one does. -/
theorem builder_answers_as_new (p : Program) (qs : List Query) :
    p.answers qs ∅ = qs.map fun q => ((p.query q).run.run ∅).1 :=
  answers_eq (sound_empty p) qs

end Program

end LoopSafety
