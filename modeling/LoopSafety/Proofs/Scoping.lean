import LoopSafety.Proofs.Sessions

/-! What the names in a bound stand for.

Narrowing depends on a bound's free names and on the arrays in it, so two ways of narrowing that agree
on these give the same. The parameters of an inlined call are bound while the callee's result is
narrowed, and with it whatever the result calls: a name that is free in a callee is looked up among
the parameters of its callers before it is taken for a constant or a loop variable. Calls are therefore
scoped lexically exactly as long as no caller has bound anything that a callee leaves free. -/
namespace LoopSafety

namespace Bound

mutual

/-- The free names of a bound: those that are not parameters of a call around them. -/
def names : Bound → List String
  | literal _ _ | array _ _ _ | fail => []
  | limit lo hi _ => lo.names ++ hi.names
  | either thenPart elsePart _ => thenPart.names ++ elsePart.names
  | range start stop step => start.names ++ stop.names ++ step.names
  | var name _ => [name]
  | binary _ left right _ | builtin _ left right _ => left.names ++ right.names
  | math _ args _ => namesOf args
  | call _ params ret _ =>
    paramNames params ++ ret.names.filter fun n => n ∉ params.map (·.1)

def namesOf : List Bound → List String
  | [] => []
  | b :: bs => b.names ++ namesOf bs

/-- The free names of the arguments of a call. -/
def paramNames : List (String × Bound) → List String
  | [] => []
  | (_, b) :: bs => b.names ++ paramNames bs

end

mutual

/-- The arrays whose contents a bound stands for. -/
def arrays : Bound → List ArrayId
  | literal _ _ | var _ _ | fail => []
  | limit lo hi _ => lo.arrays ++ hi.arrays
  | either thenPart elsePart _ => thenPart.arrays ++ elsePart.arrays
  | range start stop step => start.arrays ++ stop.arrays ++ step.arrays
  | binary _ left right _ | builtin _ left right _ => left.arrays ++ right.arrays
  | math _ args _ => arraysOf args
  | call _ params ret _ => paramArrays params ++ ret.arrays
  | array id _ _ => [id]

def arraysOf : List Bound → List ArrayId
  | [] => []
  | b :: bs => b.arrays ++ arraysOf bs

def paramArrays : List (String × Bound) → List ArrayId
  | [] => []
  | (_, b) :: bs => b.arrays ++ paramArrays bs

end

end Bound

namespace Frame

/-- The frame of a callee's result inside that of the call. -/
def push (scope : Table String Bound) (frame : Frame) : Frame :=
  { frame with scopes := scope :: frame.scopes }

/-- The parameter that a name stands for, of the innermost call that has one of this name. -/
def param? (frame : Frame) (name : String) : Option Bound :=
  frame.scopes.findSome? (·.get? name)

lemma param?_push (scope : Table String Bound) (frame : Frame) (name : String) :
    (frame.push scope).param? name = (scope.get? name).or (frame.param? name) := by
  unfold param? push
  rw [List.findSome?_cons]
  cases scope.get? name <;> rfl

end Frame

namespace Evaluation

lemma bind_congr_on {σ α β : Type} {m m' : StateM σ α} {f f' : α → StateM σ β} (hm : m = m')
    (hf : ∀ s, f (m.run s).1 = f' (m.run s).1) : m >>= f = m' >>= f' := by
  subst hm
  funext s
  exact congrFun (hf s) (m.run s).2

section

variable {p p' : Program} {ctx ctx' : Context} {ind ind' : Frame → LoopId → Probing Bound}

/-- Two ways of narrowing that agree on the names that are not hidden and on some of the arrays. A
callee's parameters are not hidden from its result. -/
structure Agreement (p p' : Program) (ctx ctx' : Context) (ind ind' : Frame → LoopId → Probing Bound)
    (alike : (String → Prop) → Frame → Frame → Prop) (known : ArrayId → Prop) : Prop where
  resolve : ∀ {hidden frame frame'}, alike hidden frame frame' → ∀ name ty, ¬hidden name →
    resolve p ctx ind frame name ty = resolve p' ctx' ind' frame' name ty
  push : ∀ {hidden frame frame'}, alike hidden frame frame' →
    ∀ (scope : Table String Bound) (names : List String), (∀ n ∈ names, (scope.get? n).isSome) →
      alike (fun n => hidden n ∧ n ∉ names) (frame.push scope) (frame'.push scope)
  array : ∀ id ty, known id → arrayContents p ctx id ty = arrayContents p' ctx' id ty

/-- Every parameter is bound in the scope of its call. -/
lemma narrowParams_binds (frame : Frame) (params : List (String × Bound)) :
    ∀ (scope : Table String Bound) (s : Probe) (n : String),
      n ∈ params.map (·.1) ∨ (scope.get? n).isSome →
        (((narrowParams p ctx ind frame params scope).run s).1.get? n).isSome := by
  induction params with
  | nil =>
    intro scope s n h
    rw [narrowParams]
    exact h.resolve_left (by simp)
  | cons param params ih =>
    obtain ⟨name, b⟩ := param
    intro scope s n h
    rw [narrowParams, StateT.run_bind]
    refine ih _ _ n ?_
    rw [List.map_cons, List.mem_cons] at h
    rw [Table.get?_insert]
    split
    · exact .inr rfl
    · next hne => exact h.imp_left (Or.resolve_left · (Ne.symm hne))

variable {alike : (String → Prop) → Frame → Frame → Prop} {known : ArrayId → Prop}

mutual

theorem narrow_agrees (h : Agreement p p' ctx ctx' ind ind' alike known) :
    ∀ {hidden : String → Prop} {frame frame' : Frame} (b : Bound), alike hidden frame frame' →
      (∀ n ∈ b.names, ¬hidden n) → (∀ id ∈ b.arrays, known id) →
        narrow p ctx ind frame b = narrow p' ctx' ind' frame' b
  | _, _, _, .literal _ _, _, _, _ => by rw [narrow, narrow]
  | _, _, _, .limit lo hi ty, hframe, hnames, harrays => by
    rw [Bound.names, List.forall_mem_append] at hnames
    rw [Bound.arrays, List.forall_mem_append] at harrays
    rw [narrow, narrow, narrow_agrees h lo hframe hnames.1 harrays.1,
      narrow_agrees h hi hframe hnames.2 harrays.2]
  | _, _, _, .either t e ty, hframe, hnames, harrays => by
    rw [Bound.names, List.forall_mem_append] at hnames
    rw [Bound.arrays, List.forall_mem_append] at harrays
    rw [narrow, narrow, narrow_agrees h t hframe hnames.1 harrays.1,
      narrow_agrees h e hframe hnames.2 harrays.2]
  | _, _, _, .range start stop step, hframe, hnames, harrays => by
    rw [Bound.names, List.forall_mem_append, List.forall_mem_append] at hnames
    rw [Bound.arrays, List.forall_mem_append, List.forall_mem_append] at harrays
    rw [narrow, narrow, narrow_agrees h start hframe hnames.1.1 harrays.1.1,
      narrow_agrees h stop hframe hnames.1.2 harrays.1.2,
      narrow_agrees h step hframe hnames.2 harrays.2]
  | _, _, _, .var name ty, hframe, hnames, _ => by
    rw [narrow, narrow]
    exact h.resolve hframe name ty (hnames name List.mem_cons_self)
  | _, _, _, .binary op l r ty, hframe, hnames, harrays => by
    rw [Bound.names, List.forall_mem_append] at hnames
    rw [Bound.arrays, List.forall_mem_append] at harrays
    rw [narrow, narrow, narrow_agrees h l hframe hnames.1 harrays.1,
      narrow_agrees h r hframe hnames.2 harrays.2]
  | _, _, _, .builtin kind l r ty, hframe, hnames, harrays => by
    rw [Bound.names, List.forall_mem_append] at hnames
    rw [Bound.arrays, List.forall_mem_append] at harrays
    rw [narrow, narrow, narrow_agrees h l hframe hnames.1 harrays.1,
      narrow_agrees h r hframe hnames.2 harrays.2]
  | _, _, _, .math fn args ty, hframe, hnames, harrays => by
    rw [narrow, narrow, narrowArgs_agrees h args hframe hnames harrays]
  | _, frame, frame', .call name params ret ty, hframe, hnames, harrays => by
    rw [Bound.names, List.forall_mem_append] at hnames
    rw [Bound.arrays, List.forall_mem_append] at harrays
    rw [narrow, narrow]
    refine bind_congr_on (narrowParams_agrees h params ∅ hframe hnames.1 harrays.1) fun s => ?_
    refine narrow_agrees h ret (h.push hframe _ (params.map (·.1)) fun n hn =>
      narrowParams_binds frame params ∅ s n (.inl hn)) ?_ harrays.2
    rintro n hn ⟨hhidden, hparam⟩
    exact hnames.2 n (List.mem_filter.mpr ⟨hn, decide_eq_true hparam⟩) hhidden
  | _, _, _, .array id name ty, _, _, harrays => by
    rw [narrow, narrow]
    exact h.array id ty (harrays id List.mem_cons_self)
  | _, _, _, .fail, _, _, _ => by rw [narrow, narrow]

theorem narrowArgs_agrees (h : Agreement p p' ctx ctx' ind ind' alike known) :
    ∀ {hidden : String → Prop} {frame frame' : Frame} (bs : List Bound), alike hidden frame frame' →
      (∀ n ∈ Bound.namesOf bs, ¬hidden n) → (∀ id ∈ Bound.arraysOf bs, known id) →
        narrowArgs p ctx ind frame bs = narrowArgs p' ctx' ind' frame' bs
  | _, _, _, [], _, _, _ => by rw [narrowArgs, narrowArgs]
  | _, _, _, b :: bs, hframe, hnames, harrays => by
    rw [Bound.namesOf, List.forall_mem_append] at hnames
    rw [Bound.arraysOf, List.forall_mem_append] at harrays
    rw [narrowArgs, narrowArgs, narrow_agrees h b hframe hnames.1 harrays.1,
      narrowArgs_agrees h bs hframe hnames.2 harrays.2]

theorem narrowParams_agrees (h : Agreement p p' ctx ctx' ind ind' alike known) :
    ∀ {hidden : String → Prop} {frame frame' : Frame} (bs : List (String × Bound))
      (scope : Table String Bound), alike hidden frame frame' →
      (∀ n ∈ Bound.paramNames bs, ¬hidden n) → (∀ id ∈ Bound.paramArrays bs, known id) →
        narrowParams p ctx ind frame bs scope = narrowParams p' ctx' ind' frame' bs scope
  | _, _, _, [], _, _, _, _ => by rw [narrowParams, narrowParams]
  | _, _, _, (name, b) :: bs, scope, hframe, hnames, harrays => by
    rw [Bound.paramNames, List.forall_mem_append] at hnames
    rw [Bound.paramArrays, List.forall_mem_append] at harrays
    rw [narrowParams, narrowParams, narrow_agrees h b hframe hnames.1 harrays.1]
    exact bind_congr fun r => narrowParams_agrees h bs _ hframe hnames.2 harrays.2

end

end

section

variable {p : Program} {ctx : Context} {captured : String → Prop}

/-- Two frames that differ at most in parameters with hidden names, all of them among the captured
ones. -/
structure Alike (captured hidden : String → Prop) (frame frame' : Frame) : Prop where
  loops : frame'.loops = frame.loops
  resolving : frame'.resolving = frame.resolving
  param : ∀ n, ¬hidden n → frame.param? n = frame'.param? n
  hidden : ∀ n, hidden n → captured n

lemma Alike.push {hidden : String → Prop} {frame frame' : Frame}
    (h : Alike captured hidden frame frame') (scope : Table String Bound) (names : List String)
    (hnames : ∀ n ∈ names, (scope.get? n).isSome) :
    Alike captured (fun n => hidden n ∧ n ∉ names) (frame.push scope) (frame'.push scope) where
  loops := h.loops
  resolving := h.resolving
  param n hn := by
    rw [Frame.param?_push, Frame.param?_push]
    by_cases hmem : n ∈ names
    · obtain ⟨b, hb⟩ := Option.isSome_iff_exists.mp (hnames n hmem)
      rw [hb, Option.some_or, Option.some_or]
    · rw [h.param n fun hhidden => hn ⟨hhidden, hmem⟩]
  hidden n hn := h.hidden n hn.1

lemma Alike.resolve {ind : Frame → LoopId → Probing Bound} {hidden : String → Prop}
    {frame frame' : Frame} (h : Alike captured hidden frame frame')
    (hind : ∀ loop, ind frame loop = ind frame' loop) (name : String) (ty : DataType)
    (hname : ¬hidden name) : resolve p ctx ind frame name ty = resolve p ctx ind frame' name ty := by
  have hparam := h.param name hname
  have hloop : loopOf? p ctx frame name = loopOf? p ctx frame' name := by
    rw [loopOf?, loopOf?, h.loops]
  unfold Frame.param? at hparam
  unfold Evaluation.resolve
  rw [hparam, hloop]
  simp only [hind]

/-- No stored range of a loop mentions a captured name. -/
def RangesAvoid (p : Program) (ctx : Context) (captured : String → Prop) : Prop :=
  ∀ loop start stop step, rangeParts p ctx loop = some (start, stop, step) →
    ∀ n ∈ (Bound.range start stop step).names, ¬captured n

/-- The variable of a loop has the same bound in frames that are alike. -/
lemma inductionBound_alike (hranges : RangesAvoid p ctx captured) (depth : Nat) :
    ∀ {hidden : String → Prop} {frame frame' : Frame}, Alike captured hidden frame frame' →
      ∀ loop, inductionBound p ctx depth frame loop = inductionBound p ctx depth frame' loop := by
  induction depth with
  | zero =>
    intro hidden frame frame' _ loop
    rw [inductionBound, inductionBound]
  | succ depth ih =>
    intro hidden frame frame' h loop
    have hagree : Agreement p p ctx ctx (inductionBound p ctx depth) (inductionBound p ctx depth)
        (Alike captured) fun _ => True :=
      ⟨fun h name ty => h.resolve (ih h) name ty, fun h => h.push, fun _ _ _ => rfl⟩
    have hinner : Alike captured hidden { frame with resolving := loop :: frame.resolving }
        { frame' with resolving := loop :: frame'.resolving } :=
      ⟨h.loops, congrArg (loop :: ·) h.resolving, h.param, h.hidden⟩
    rw [inductionBound, inductionBound, h.resolving]
    split
    · rfl
    · cases hparts : rangeParts p ctx loop with
      | none => rfl
      | some parts =>
        obtain ⟨start, stop, step⟩ := parts
        have havoid : ∀ b ∈ [start, stop, step], ∀ n ∈ b.names, ¬hidden n := by
          intro b hb n hn hhidden
          refine hranges loop start stop step hparts n ?_ (h.hidden n hhidden)
          simp only [List.mem_cons, List.not_mem_nil, or_false] at hb
          rcases hb with rfl | rfl | rfl <;> simp [Bound.names, hn]
        have hnarrow : ∀ b ∈ [start, stop, step],
            narrow p ctx (inductionBound p ctx depth)
              { frame with resolving := loop :: frame.resolving } b =
            narrow p ctx (inductionBound p ctx depth)
              { frame' with resolving := loop :: frame'.resolving } b :=
          fun b hb => narrow_agrees hagree b hinner (havoid b hb) fun _ _ => trivial
        rw [h.resolving] at hnarrow
        simp only [hnarrow start (by simp), hnarrow stop (by simp), hnarrow step (by simp)]

end

end Evaluation

namespace Context

open Evaluation

variable {p : Program} {ctx : Context}

/-- Narrow the arguments of a call where it stands, and its result with nothing but them as
parameters. -/
def evaluateLexically (p : Program) (ctx : Context) (frame : Frame) (params : List (String × Bound))
    (ret : Bound) : Probing Bound := do
  let scope ← narrowParams p ctx (inductionBound p ctx (depth ctx frame)) frame params ∅
  ctx.evaluate p { frame with scopes := [scope] } ret

/-- A name captured at a call: a parameter of a caller that is no parameter of the callee. -/
def Captured (frame : Frame) (params : List (String × Bound)) (x : String) : Prop :=
  (frame.param? x).isSome ∧ x ∉ params.map (·.1)

/-- A call is scoped lexically if nothing that its result mentions is captured. -/
lemma evaluate_call_of_uncaptured {frame : Frame} {params : List (String × Bound)} {ret : Bound}
    (hret : ∀ x ∈ ret.names, ¬Captured frame params x)
    (hranges : RangesAvoid p ctx (Captured frame params)) (name : String) (ty : DataType) :
    ctx.evaluate p frame (.call name params ret ty) = ctx.evaluateLexically p frame params ret := by
  unfold evaluateLexically evaluate
  rw [narrow]
  refine bind_congr_on rfl fun s => ?_
  have hagree : Agreement p p ctx ctx (inductionBound p ctx (depth ctx frame))
      (inductionBound p ctx (depth ctx frame)) (Alike (Captured frame params)) fun _ => True :=
    ⟨fun h name ty => h.resolve (inductionBound_alike hranges _ h) name ty, fun h => h.push,
      fun _ _ _ => rfl⟩
  refine narrow_agrees hagree ret ⟨rfl, rfl, fun n hn => ?_, fun _ h => h⟩ hret fun _ _ => trivial
  set scope := ((narrowParams p ctx (inductionBound p ctx (depth ctx frame)) frame params ∅).run s).1
  have honly : Frame.param? { frame with scopes := [scope] } n = scope.get? n := by
    unfold Frame.param?
    rw [List.findSome?_cons]
    cases scope.get? n <;> rfl
  rw [honly]
  refine (Frame.param?_push scope frame n).trans ?_
  by_cases hparam : n ∈ params.map (·.1)
  · have hbound : (scope.get? n).isSome := narrowParams_binds frame params ∅ s n (.inl hparam)
    obtain ⟨b, hb⟩ := Option.isSome_iff_exists.mp hbound
    rw [hb, Option.some_or]
  · have hfree : frame.param? n = none :=
      Option.not_isSome_iff_eq_none.mp fun hsome => hn ⟨hsome, hparam⟩
    rw [hfree, Option.or_none]

/-- A name that a caller has bound is taken for the caller's parameter in every callee. Outside of the
calls it has another meaning, if only because its loop is being narrowed already. -/
lemma unbound_of_lexical {scopes : List (Table String Bound)}
    (hlaw : ∀ loops resolving name params ret ty,
      ctx.evaluate p ⟨loops, scopes, resolving⟩ (.call name params ret ty) =
        ctx.evaluateLexically p ⟨loops, scopes, resolving⟩ params ret) (x : String) :
    scopes.findSome? (·.get? x) = none := by
  cases hbound : scopes.findSome? (·.get? x) with
  | none => rfl
  | some b =>
    exfalso
    -- all loops are being narrowed, so as a loop variable the name would fail
    let outside : Frame := ⟨[], [∅], ctx.loops⟩
    have hdynamic : ∀ ty, (ctx.evaluate p ⟨[], scopes, ctx.loops⟩ (.call "" [] (.var x ty) ty)).run {} =
        (b, {}) := by
      intro ty
      rw [evaluate, narrow, narrowParams, pure_bind, narrow, resolve, List.findSome?_cons]
      simp only [Table.get?_empty, hbound]
      rfl
    have hlexical : ∀ ty, (resolve p ctx (inductionBound p ctx (depth ctx outside)) outside x ty).run {} =
        (b, {}) := by
      intro ty
      rw [← hdynamic ty, hlaw, evaluateLexically, narrowParams, pure_bind, evaluate, narrow]
    have hnone : outside.scopes.findSome? (·.get? x) = none := rfl
    unfold resolve at hlexical
    rw [hnone] at hlexical
    cases hconstant : ctx.constants.get? x with
    | some v =>
      rw [hconstant] at hlexical
      have hint : Bound.literal v .int = b := congrArg Prod.fst (hlexical .int)
      have hlong : Bound.literal v .long = b := congrArg Prod.fst (hlexical .long)
      cases hint.trans hlong.symm
    | none =>
      have hfails : ∀ m : Probing Bound, m = fail → m.run {} ≠ (b, {}) := by
        rintro m rfl h
        cases congrArg (fun out => out.2.safe) h
      rw [hconstant] at hlexical
      cases hloop : loopOf? p ctx outside x with
      | none =>
        rw [hloop] at hlexical
        exact hfails _ rfl (hlexical .int)
      | some loop =>
        rw [hloop] at hlexical
        refine hfails _ ?_ (hlexical .int)
        have hmem : loop ∈ outside.resolving := by
          have hfound := List.mem_of_find?_eq_some hloop
          simpa [outside] using hfound
        dsimp only
        rw [depth, inductionBound, if_pos hmem]

/-- Where nothing that the result mentions is captured, narrowing a call comes to the same as narrowing
its result with nothing but its own parameters. For all calls together this holds exactly where no
caller has bound anything. -/
theorem calls_lexical_iff_unbound (p : Program) (ctx : Context) :
    (∀ (frame : Frame) (name : String) (params : List (String × Bound)) (ret : Bound) (ty : DataType),
      (∀ x ∈ ret.names, ¬Captured frame params x) → RangesAvoid p ctx (Captured frame params) →
        ctx.evaluate p frame (.call name params ret ty) =
          ctx.evaluateLexically p frame params ret) ∧
    ∀ scopes : List (Table String Bound),
      (∀ loops resolving name params ret ty,
        ctx.evaluate p ⟨loops, scopes, resolving⟩ (.call name params ret ty) =
          ctx.evaluateLexically p ⟨loops, scopes, resolving⟩ params ret) ↔
      ∀ x, scopes.findSome? (·.get? x) = none := by
  refine ⟨fun frame name params ret ty hret hranges =>
    evaluate_call_of_uncaptured hret hranges name ty, fun scopes => ⟨unbound_of_lexical, ?_⟩⟩
  intro hunbound loops resolving name params ret ty
  have hfree : ∀ x, ¬Captured ⟨loops, scopes, resolving⟩ params x := by
    rintro x ⟨hsome, -⟩
    rw [Frame.param?, hunbound x] at hsome
    cases hsome
  exact evaluate_call_of_uncaptured (fun x _ => hfree x) (fun _ _ _ _ _ x _ => hfree x) name ty

end Context

/-! `A[f(2)]` in a loop, where `f(x)` returns `g()` and `g()` returns a name. The constants are
`x = 100` and `y = 3`, and `A` has five cells. -/
namespace Capture

open Evaluation

def functions : List FunctionDef := [⟨"f", [⟨"x", .int⟩], ⟨1⟩, .int⟩, ⟨"g", [], ⟨0⟩, .int⟩]

def file (name : String) : KernelFile where
  arrays := [⟨"A", .intArray, [5], none, false, none⟩]
  nodes :=
    [.var name .int none, .call ⟨1⟩ [], .literal (.int 2), .call ⟨0⟩ [⟨2⟩], .access ⟨0⟩ [⟨3⟩],
      .forLoop ⟨0⟩ ⟨4⟩]
  loops := [⟨"i", .int, .simple ⟨0, 4, 1⟩⟩]
  functions := functions
  regions := [⟨5⟩]
  constants := [⟨"x", .int 100, .int⟩, ⟨"y", .int 3, .int⟩]
  instantiations := []

def result (name : String) : Term := ⟨⟨0⟩, .var name .int none⟩
def inner : Term := ⟨⟨1⟩, .call ⟨1⟩ []⟩
def two : Term := ⟨⟨2⟩, .literal (.int 2)⟩
def outer : Term := ⟨⟨3⟩, .call ⟨0⟩ [two]⟩
def cell : Term := ⟨⟨4⟩, .access ⟨0⟩ [outer]⟩
def region : Term := ⟨⟨5⟩, .forLoop ⟨0⟩ cell⟩

def program (name : String) : Program where
  terms := #[result name, inner, two, outer, cell, region]
  loops := #[⟨"i", .int, .simple ⟨0, 4, 1⟩⟩]
  arrays := #[⟨"A", ⟨.intArray, [5]⟩, none, false⟩]
  functions := functions.toArray

def constants : Constants := .ofList [("x", 100), ("y", 3)]

def kernel (name : String) : Kernel where
  program := program name
  regions := [⟨5⟩]
  constants := constants
  instantiations := []

lemma toKernel_eq (name : String) : (file name).toKernel = .ok (kernel name) := rfl

/-- The session of the region after its bounds have been built and checked. -/
def prepared (name : String) : Except Error Unit × Session :=
  (Session.new region {} constants).prepare (program name)

/-- The call of `g`, and where it is narrowed: inside `f` with 2 for `x`. -/
def call (name : String) : Bound := .call "g" [] (.var name .int) .int
def caller : Frame := { loops := [⟨0⟩], scopes := [.ofList [("x", .literal 2 .int)]] }

lemma uncaptured : ∀ x ∈ (Bound.var "y" .int).names, ¬Context.Captured caller [] x := by
  intro x hx
  obtain rfl := List.mem_singleton.mp hx
  rintro ⟨hsome, -⟩
  cases hsome

lemma rangesAvoid : RangesAvoid (program "y") { constants } (Context.Captured caller []) := by
  intro loop start stop step hparts n hn
  obtain ⟨info, -, hparts⟩ := Option.bind_eq_some_iff.mp hparts
  obtain ⟨span, -, hparts⟩ := Option.bind_eq_some_iff.mp hparts
  cases hparts
  simp [Bound.names] at hn

/-- The name `y` is no parameter of `f`, so inside the call it is the constant. -/
theorem uncaptured_call_lexical :
    (∀ x ∈ (Bound.var "y" .int).names, ¬Context.Captured caller [] x) ∧
    RangesAvoid (program "y") { constants } (Context.Captured caller []) ∧
    (Context.evaluate (program "y") { constants } caller (call "y")).run {} = (.literal 3 .int, {}) ∧
    (Context.evaluateLexically (program "y") { constants } caller [] (.var "y" .int)).run {} =
      (.literal 3 .int, {}) := by
  have hvalue : (Context.evaluate (program "y") { constants } caller (call "y")).run {} =
      (.literal 3 .int, {}) := rfl
  have hlexical := (Context.calls_lexical_iff_unbound (program "y") { constants }).1 caller "g" []
    (.var "y" .int) .int uncaptured rangesAvoid
  refine ⟨uncaptured, rangesAvoid, hvalue, ?_⟩
  rw [← hlexical]
  exact hvalue

/-- The name `x` is a parameter of `f`, and inside the call it is 2 instead of 100: the access to the
cell at 100 loses its check. -/
theorem callers_parameter_captured :
    (file "x").toKernel = .ok (kernel "x") ∧ (kernel "x").regions = [⟨5⟩] ∧
    (kernel "x").program.term? ⟨5⟩ = some region ∧ (prepared "x").1 = .ok () ∧
    ((prepared "x").2.context.accessBounds.get? ⟨4⟩).map (·.map Bound.text) =
      some ["f() -> g() -> x"] ∧
    (prepared "x").2.context.accessVerdicts.get? ⟨4⟩ = some [false] ∧
    ((prepared "x").2.context.evaluate (program "x") caller (call "x")).run {} =
      (.literal 2 .int, {}) ∧
    ((prepared "x").2.context.evaluateLexically (program "x") caller [] (.var "x" .int)).run {} =
      (.literal 100 .int, {}) := by
  refine ⟨toKernel_eq "x", rfl, rfl, ?_, by decide +kernel, by decide +kernel, rfl, rfl⟩
  exact eq_ok_get (by decide +kernel)

end Capture

end LoopSafety
