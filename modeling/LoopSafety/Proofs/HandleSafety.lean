import LoopSafety.Proofs.ClosedSessions
import LoopSafety.Proofs.LabelTables

/-! The whole analysis of a region without a lookup that fails.

Lowering, counting and reporting walk over the region and over what the session has stored. In an
accepted file all of this lies within the program, so the analysis ends with a report or with an error
of its own, and it does so alike on every continuation of the program. -/
namespace LoopSafety

/-- Two computations come to the same: a result with a property, or an error other than that of a
lookup. -/
def Agrees {α : Type} (post : α → Prop) (m m' : Except Error α) : Prop := m' = m ∧ Lands post m

namespace Agrees

variable {α β : Type} {mid : α → Prop} {post : β → Prop} {m m' : Except Error α}
  {f f' : α → Except Error β}

theorem pure {b : β} (h : post b) : Agrees post (Pure.pure b) (Pure.pure b) := ⟨rfl, .ok h⟩

theorem throw {e : Error} (h : ∀ handle, e ≠ .missing handle) :
    Agrees post (MonadExcept.throw e) (MonadExcept.throw e) :=
  ⟨rfl, .error h⟩

theorem bind (h : Agrees mid m m') (hf : ∀ a, mid a → Agrees post (f a) (f' a)) :
    Agrees post (m >>= f) (m' >>= f') := by
  obtain ⟨rfl, hm⟩ := h
  cases hm with
  | ok ha => exact hf _ ha
  | error he => exact ⟨rfl, .error he⟩

end Agrees

/-- Nothing more is asked of a result. -/
abbrev AgreesOn {α : Type} (m m' : Except Error α) : Prop := Agrees (fun _ => True) m m'

namespace Context

variable {p q : Program} (hcont : p.Continues q) {ctx : Context}
include hcont

lemma resolvedRange_eq {loop : LoopId} (hloop : (p.loop? loop).isSome) :
    ctx.resolvedRange q loop = ctx.resolvedRange p loop := by
  rw [resolvedRange, resolvedRange, hcont.loop?_eq hloop]

end Context

namespace Lowering

variable {p q : Program} (hcont : p.Continues q)
include hcont

omit hcont in
lemma exprs_agrees {ts : List Term} (h : ∀ t ∈ ts, AgreesOn (expr p t) (expr q t)) :
    AgreesOn (exprs p ts) (exprs q ts) := by
  induction ts with
  | nil =>
    rw [exprs, exprs]
    exact .pure trivial
  | cons t ts ih =>
    obtain ⟨ht, hts⟩ := List.forall_mem_cons.mp h
    rw [exprs, exprs]
    exact .bind ht fun _ _ => .bind (ih hts) fun _ _ => .pure trivial

theorem expr_agrees {t : Term} (ht : t.Within p) : AgreesOn (expr p t) (expr q t) := by
  induction ht with
  | @mk id node entry linked parts ih =>
    have hself : (Term.mk id node).Within p := .mk entry linked parts
    cases node with
    | literal | var =>
      rw [expr, expr]
      exact .pure trivial
    | binary op left right ty =>
      rw [expr, expr]
      refine .bind (ih left (by simp [Node.references, Node.children])) fun _ _ => ?_
      exact .bind (ih right (by simp [Node.references, Node.children])) fun _ _ => .pure trivial
    | unary op operand ty =>
      rw [expr, expr]
      exact .bind (ih operand (by simp [Node.references, Node.children])) fun _ _ => .pure trivial
    | access array indices =>
      obtain ⟨binding, hbinding⟩ := Option.isSome_iff_exists.mp hself.array
      rw [expr, expr, hcont.array?_eq hself.array, hbinding]
      exact .bind (exprs_agrees ih) fun _ _ => .pure trivial
    | builtin | math =>
      rw [expr, expr]
      exact .bind (exprs_agrees ih) fun _ _ => .pure trivial
    | cond condition thenPart elsePart ty =>
      cases elsePart with
      | none =>
        rw [expr, expr, hcont.describe_eq hself]
        exact .throw (by simp)
      | some elsePart =>
        rw [expr, expr]
        refine .bind (ih condition (by simp [Node.references, Node.children])) fun _ _ => ?_
        refine .bind (ih thenPart (by simp [Node.references, Node.children])) fun _ _ => ?_
        exact .bind (ih elsePart (by simp [Node.references, Node.children])) fun _ _ => .pure trivial
    | call function args =>
      obtain ⟨f, hf⟩ := Option.isSome_iff_exists.mp hself.function
      rw [expr, expr, hcont.function?_eq hself.function, hf]
      exact .bind (exprs_agrees ih) fun _ _ => .pure trivial
    | forLoop | whileLoop | block | assign | ret | brk =>
      rw [expr, expr, hcont.describe_eq hself]
      exact .throw (by simp)

variable (closed : p.Closed)
include closed

lemma part_agrees {id? : Option NodeId} (hid : ∀ id ∈ id?, (p.term? id).isSome) (default : Int64) :
    AgreesOn (part p default id?) (part q default id?) := by
  cases id? with
  | none => exact .pure trivial
  | some id =>
    obtain ⟨t, ht⟩ := Option.isSome_iff_exists.mp (hid id rfl)
    have hterm : p.term id = .ok t := by rw [Program.term, ht]
    have hterm' : q.term id = .ok t := by rw [Program.term, hcont.term?_eq, ht]
    rw [part, part, hterm, hterm']
    exact expr_agrees hcont (closed.term ht)

variable {ctx : Context}

theorem loopHead_agrees {loop : LoopId} (hloop : (p.loop? loop).isSome) :
    AgreesOn (loopHead p ctx loop) (loopHead q ctx loop) := by
  obtain ⟨⟨name, ty, range⟩, hinfo⟩ := Option.isSome_iff_exists.mp hloop
  have hparts := closed.ranges _ (Array.mem_of_getElem? hinfo)
  unfold loopHead
  rw [hcont.loop?_eq hloop, hinfo, Context.resolvedRange_eq hcont hloop]
  cases ctx.resolvedRange p loop with
  | some span => exact .pure trivial
  | none =>
    cases range with
    | simple span => exact .pure trivial
    | symbolic start stop step defaults =>
      simp only [Program.rangeParts, List.forall_mem_append, Option.mem_toList] at hparts
      refine .bind (part_agrees hcont closed hparts.1.1 _) fun _ _ => ?_
      refine .bind (part_agrees hcont closed hparts.1.2 _) fun _ _ => ?_
      exact .bind (part_agrees hcont closed hparts.2 _) fun _ _ => .pure trivial

omit hcont closed in
lemma statement_within {t s : Term} (ht : t.Within p) (h : .statement s ∈ entries t) :
    s.Within p := by
  induction ht with
  | @mk id node entry linked parts ih =>
    have hself : (Term.mk id node).Within p := .mk entry linked parts
    cases node with
    | block statements =>
      rw [entries] at h
      obtain ⟨t, ht, h⟩ := mem_entriesOf.mp h
      exact ih t ht h
    | forLoop loop body =>
      rw [entries] at h
      exact ih body (by simp [Node.references, Node.children]) (by simpa using h)
    | assign target value =>
      rw [entries] at h
      obtain h | h := List.mem_append.mp h
      · unfold targetEntries at h
        split at h <;> simp at h
      · obtain rfl : s = _ := by simpa using h
        exact hself
    | cond condition thenPart elsePart ty =>
      have hthen := ih thenPart (by simp [Node.references, Node.children])
      cases elsePart with
      | none =>
        rw [entries] at h
        obtain h | h := List.mem_cons.mp h
        · cases h
          exact hself
        · exact hthen h
      | some elsePart =>
        rw [entries] at h
        obtain h | h := List.mem_cons.mp h
        · cases h
          exact hself
        · obtain h | h := List.mem_append.mp h
          · exact hthen h
          · exact ih elsePart (by simp [Node.references, Node.children]) h
    | whileLoop | ret =>
      rw [entries] at h
      cases h
    | brk | literal | var | binary | unary | access | builtin | math | call =>
      rw [entries] at h
      cases List.mem_singleton.mp h
      exact hself

omit hcont closed in
lemma blocks_agrees {ts : List Term} (h : ∀ t ∈ ts, AgreesOn (block p ctx t) (block q ctx t)) :
    AgreesOn (blocks p ctx ts) (blocks q ctx ts) := by
  induction ts with
  | nil =>
    rw [blocks, blocks]
    exact .pure trivial
  | cons t ts ih =>
    obtain ⟨ht, hts⟩ := List.forall_mem_cons.mp h
    rw [blocks, blocks]
    exact .bind ht fun _ _ => .bind (ih hts) fun _ _ => .pure trivial

theorem block_agrees {t : Term} (ht : t.Within p) : AgreesOn (block p ctx t) (block q ctx t) := by
  induction ht with
  | @mk id node entry linked parts ih =>
    have hself : (Term.mk id node).Within p := .mk entry linked parts
    cases node with
    | block statements =>
      rw [block, block]
      exact blocks_agrees ih
    | forLoop loop body =>
      rw [block, block]
      refine .bind (loopHead_agrees hcont closed hself.loop) fun _ _ => ?_
      exact .bind (ih body (by simp [Node.references, Node.children])) fun _ _ => .pure trivial
    | assign target value =>
      have hexpr := fun t ht => expr_agrees hcont (parts t ht)
      rw [block, block]
      refine .bind (hexpr target (by simp [Node.references, Node.children])) fun _ _ => ?_
      exact .bind (hexpr value (by simp [Node.references, Node.children])) fun _ _ => .pure trivial
    | cond condition thenPart elsePart ty =>
      have hcondition :=
        expr_agrees hcont (parts condition (by simp [Node.references, Node.children]))
      have hthen := ih thenPart (by simp [Node.references, Node.children])
      cases elsePart with
      | none =>
        rw [block, block]
        exact .bind hcondition fun _ _ => .bind hthen fun _ _ => .pure trivial
      | some elsePart =>
        rw [block, block]
        refine .bind hcondition fun _ _ => .bind hthen fun _ _ => ?_
        exact .bind (ih elsePart (by simp [Node.references, Node.children])) fun _ _ => .pure trivial
    | brk =>
      rw [block, block]
      exact .pure trivial
    | whileLoop | ret =>
      rw [block, block, hcont.describe_eq hself]
      exact .throw (by simp)
    | literal | var | binary | unary | access | builtin | math | call =>
      rw [block, block]
      exact .bind (expr_agrees hcont hself) fun _ _ => .pure trivial

theorem nest_agrees {root : Term} (hroot : root.Within p) :
    AgreesOn (nest p ctx root) (nest q ctx root) := by
  obtain ⟨id, node⟩ := root
  cases node with
  | forLoop loop body =>
    rw [nest_forLoop, nest_forLoop]
    refine .bind (loopHead_agrees hcont closed hroot.loop) fun _ _ => ?_
    exact .bind (block_agrees hcont closed (hroot.child (List.mem_singleton_self body))) fun _ _ =>
      .pure trivial
  | _ =>
    simp only [nest, lower, Term.node, hcont.describe_eq hroot]
    exact .throw (by simp)

/-- The tables are those of the region in both programs. -/
theorem lower_agrees {root : Term} (hroot : root.Within p) :
    Agrees (fun out => out.2 = labels root) ((lower p ctx root).run {}) ((lower q ctx root).run {}) := by
  obtain ⟨hnest, hlands⟩ : AgreesOn (nest p ctx root) (nest q ctx root) :=
    nest_agrees hcont closed hroot
  rw [lower_run, lower_run, hnest]
  refine ⟨rfl, ?_⟩
  generalize nest p ctx root = lowered at hlands ⊢
  cases hlands with
  | ok => exact .ok rfl
  | error he => exact .error he

omit hcont closed in
/-- The distance to zero of the least index fits into 64 bits unless the index is the least of all. -/
lemma toInt_shift (h : ctx.minimum ≠ Int64.minValue) :
    (shift ctx).toInt = max (-ctx.minimum.toInt) 0 := by
  have hlow : ctx.minimum.toInt ≠ Int64.minValue.toInt := fun heq => h (Int64.toInt_inj.mp heq)
  have hleast : -2 ^ 63 ≤ ctx.minimum.toInt := Int64.le_toInt ctx.minimum
  have hgreatest : ctx.minimum.toInt < 2 ^ 63 := Int64.toInt_lt ctx.minimum
  have hmin : Int64.minValue.toInt = -2 ^ 63 := rfl
  have hzero : (0 : Int64).toInt = 0 := rfl
  rw [shift, Saturating.toInt_max, hzero, Int64.toInt_neg,
    Int.bmod_eq_of_le_mul_two (by omega) (by omega)]

end Lowering

namespace Program

variable {p q : Program} (hcont : p.Continues q) {root : Term} (hroot : root.Within p)
include hcont hroot

lemma accessed_eq : q.accessed root = p.accessed root := by
  refine List.filterMap_congr fun o ho => ?_
  have hterm : o.term.Within p := (hroot.occurrences (by simp) o ho).1
  obtain ⟨⟨id, node⟩, loops⟩ := o
  cases node with
  | access array indices => exact hcont.array?_eq hterm.array
  | _ => rfl

lemma writtenArrays_eq : q.writtenArrays root = p.writtenArrays root := by
  refine List.filterMap_congr fun o ho => ?_
  have hterm : o.term.Within p := (hroot.occurrences (by simp) o ho).1
  obtain ⟨⟨id, node⟩, loops⟩ := o
  cases node with
  | assign target value =>
    have htarget : target.Within p := hterm.child List.mem_cons_self
    obtain ⟨id', node⟩ := target
    cases node with
    | access array indices => exact hcont.array?_eq htarget.array
    | _ => rfl
  | _ => rfl

lemma collision?_eq : q.collision? root = p.collision? root := by
  rw [collision?, collision?, accessed_eq hcont hroot, writtenArrays_eq hcont hroot]

lemma renderLabel_eq :
    q.renderLabel (Lowering.labels root).statements = p.renderLabel (Lowering.labels root).statements := by
  funext label
  unfold renderLabel
  split
  · next t ht =>
    rw [hcont.describe_eq (Lowering.statement_within hroot (Lowering.statement_mem_entries ht))]
  · rfl

/-- An oracle sees the same nest, and its verdicts and flows are read alike. -/
theorem dependences_agrees (closed : p.Closed) (ctx : Context) (oracle : Oracle) :
    AgreesOn (p.dependences ctx oracle root) (q.dependences ctx oracle root) := by
  unfold dependences
  refine .bind (Lowering.lower_agrees hcont closed hroot) ?_
  rintro ⟨nest, _⟩ rfl
  simp only [collision?_eq hcont hroot, renderLabel_eq hcont hroot]
  exact .pure trivial

end Program

namespace Walk

variable {p q : Program} (hcont : p.Continues q) {ctx : Context}
include hcont

lemma trips_eq {loop : LoopId} (hloop : (p.loop? loop).isSome) :
    trips q ctx loop = trips p ctx loop := by
  rw [trips, trips, Context.resolvedRange_eq hcont hloop]

omit hcont in
lemma visitAll_eq (ts : List Term) (h : ∀ t ∈ ts, ∀ w, visit q ctx t w = visit p ctx t w) (w : Walk) :
    visitAll q ctx ts w = visitAll p ctx ts w := by
  induction ts generalizing w with
  | nil => rw [visitAll, visitAll]
  | cons t ts ih =>
    obtain ⟨ht, hts⟩ := List.forall_mem_cons.mp h
    rw [visitAll, visitAll, ht, ih hts]

theorem visit_eq {t : Term} (ht : t.Within p) (w : Walk) : visit q ctx t w = visit p ctx t w := by
  induction ht generalizing w with
  | @mk id node entry linked parts ih =>
    have hself : (Term.mk id node).Within p := .mk entry linked parts
    cases node with
    | literal | var | brk => rw [visit, visit]
    | binary _ first second _ | whileLoop first second | assign first second =>
      rw [visit, visit, ih first (by simp [Node.references, Node.children]),
        ih second (by simp [Node.references, Node.children])]
    | unary _ part _ | ret part =>
      rw [visit, visit, ih part (by simp [Node.references, Node.children])]
    | access _ args | builtin _ args _ | math _ args _ | block args | call _ args =>
      rw [visit, visit, visitAll_eq args ih]
    | cond condition thenPart elsePart ty =>
      have hcondition := ih condition (by simp [Node.references, Node.children])
      have hthen := ih thenPart (by simp [Node.references, Node.children])
      cases elsePart with
      | none => rw [visit, visit, hcondition, hthen]
      | some elsePart =>
        rw [visit, visit, hcondition, hthen, ih elsePart (by simp [Node.references, Node.children])]
    | forLoop loop body =>
      rw [visit, visit, bodyWeight, bodyWeight, trips_eq hcont hself.loop,
        ih body (by simp [Node.references, Node.children])]

end Walk

theorem Context.profile_eq {p q : Program} (hcont : p.Continues q) {ctx : Context} {root : Term}
    (hroot : root.Within p) : ctx.profile q root = ctx.profile p root := by
  obtain ⟨id, node⟩ := root
  unfold profile
  rw [Walk.visit_eq hcont hroot]
  cases node with
  | forLoop loop body => simp only [Term.node, Walk.trips_eq hcont hroot.loop]
  | _ => rfl

namespace Analyzer

variable {p q : Program} (hcont : p.Continues q) (closed : p.Closed) (shares : p.SharesContents)
include hcont closed shares

lemma instantiateAll_agrees (instantiations : List Constants) {s : Session} (hs : s.Closed p) :
    Agrees (Session.Closed p) (instantiateAll p instantiations s) (instantiateAll q instantiations s) := by
  induction instantiations generalizing s with
  | nil => exact .pure hs
  | cons constants instantiations ih =>
    obtain ⟨hsame, ⟨_, s₁, hout, hs₁, -⟩ | ⟨e, s₁, hout, hs₁, he⟩⟩ :=
      (Session.instantiate_follows hcont closed shares constants).outcome hs
    · rw [instantiateAll, instantiateAll, hsame, hout]
      exact ih hs₁
    · rw [instantiateAll, instantiateAll, hsame, hout]
      exact .throw he

theorem settle_agrees {root : Term} (hroot : root.Within p) (config : Config) (constants : Constants)
    (instantiations : List Constants) :
    Agrees (Session.Closed p) (settle p root config constants instantiations)
      (settle q root config constants instantiations) := by
  obtain ⟨hsame, ⟨_, s, hout, hs, -⟩ | ⟨e, s, hout, hs, he⟩⟩ :=
    (Session.prepare_follows hcont closed shares).outcome (Session.new_closed hroot config constants)
  · rw [settle, settle, hsame, hout]
    exact instantiateAll_agrees hcont closed shares instantiations hs
  · rw [settle, settle, hsame, hout]
    exact .throw he

omit closed shares in
/-- Only cached contents are reported, and these are of arrays of the program. -/
lemma scannedArrays_eq {ctx : Context} (hctx : ctx.Closed p) :
    q.arrays.toList.filterMap (fun b => (ctx.scans.get? b).map (ScannedArray.mk b.name ·)) =
      p.arrays.toList.filterMap fun b => (ctx.scans.get? b).map (ScannedArray.mk b.name ·) := by
  obtain ⟨added, hadded, hfresh⟩ := hcont.arrays
  rw [hadded, List.filterMap_append, List.append_right_eq_self, List.filterMap_eq_nil_iff]
  intro b' hb'
  rw [Option.map_eq_none_iff, ScanCache.get?, Option.bind_eq_none_iff]
  intro i hi
  refine Option.eq_none_iff_forall_not_mem.mpr fun found hfound => ?_
  obtain ⟨b, hb, hidentity⟩ := hctx.scans i found hfound
  exact hfresh b hb b' hb' i hidentity hi

omit closed shares in
lemma reports_eq {ctx : Context} {targets : List Occurrence} (htargets : ∀ o ∈ targets, o.Within p) :
    targets.map (accessReport q ctx) = targets.map (accessReport p ctx) ∧
      targets.map (operationReport q ctx) = targets.map (operationReport p ctx) := by
  constructor
  · refine List.map_congr_left fun o ho => ?_
    rw [accessReport, accessReport, hcont.describe_eq (htargets o ho).1]
  · refine List.map_congr_left fun o ho => ?_
    rw [operationReport, operationReport, hcont.describe_eq (htargets o ho).1]

omit closed shares in
lemma loopReports_eq {ctx : Context} (hctx : ctx.Closed p) :
    (ctx.loops.filterMap fun l =>
      (q.loop? l).map fun info => LoopRangeReport.mk info.induction (ctx.resolvedRange q l)) =
    ctx.loops.filterMap fun l =>
      (p.loop? l).map fun info => LoopRangeReport.mk info.induction (ctx.resolvedRange p l) := by
  refine List.filterMap_congr fun l hl => ?_
  rw [hcont.loop?_eq (hctx.loops l hl), Context.resolvedRange_eq hcont (hctx.loops l hl)]

/-- The analysis of a region within a closed program comes to a report or to an error of its own, and to
the same on every continuation of the program. -/
theorem analyzeLoop_agrees {root : Term} (hroot : root.Within p) (a : Analyzer) (constants : Constants)
    (instantiations : List Constants) :
    AgreesOn (a.analyzeLoop p root constants instantiations)
      (a.analyzeLoop q root constants instantiations) := by
  unfold analyzeLoop
  refine .bind (settle_agrees hcont closed shares hroot a.config constants instantiations)
    fun s hs => ?_
  have hctx : s.context.Closed p := hs
  simp only [Context.profile_eq hcont hroot, (reports_eq hcont hctx.accesses).1,
    (reports_eq hcont hctx.overflowChecks).2, loopReports_eq hcont hctx, scannedArrays_eq hcont hctx]
  split
  · rw [bind_map_left, bind_map_left]
    exact .bind (Program.dependences_agrees hcont hroot closed s.context a.oracle) fun _ _ =>
      .pure trivial
  · exact .pure trivial

end Analyzer

namespace KernelFile

/-- In an accepted file every region lies within a closed program. Sessions on it stay within the
program, whatever they are asked for. The analysis of the region fails in no lookup, with whatever
oracle, and owes nothing to what lies past the end of a table: entries that follow there do not change
it. The distance by which indices are shifted is exact unless the least index is the least number. -/
theorem analysis_stays_in_tables {file : KernelFile} {k : Kernel} (h : file.toKernel = .ok k)
    {root : NodeId} (hroot : root ∈ k.regions) :
    ∃ t, k.program.term? root = some t ∧ t.Within k.program ∧ k.program.Closed ∧
      (∀ config constants requests,
        ((Session.new t config constants).after k.program requests).context.Closed k.program) ∧
      ∀ (a : Analyzer) (constants : Constants) (instantiations : List Constants),
        (∀ handle, a.analyzeLoop k.program t constants instantiations ≠ .error (.missing handle)) ∧
        (∀ q, k.program.Continues q → a.analyzeLoop q t constants instantiations =
          a.analyzeLoop k.program t constants instantiations) ∧
        ∀ s, Analyzer.settle k.program t a.config constants instantiations = .ok s →
          s.context.Closed k.program ∧ (s.context.minimum ≠ Int64.minValue →
            (Lowering.shift s.context).toInt = max (-s.context.minimum.toInt) 0) := by
  obtain ⟨closed, hregions⟩ := toKernel_closed h
  have shares := toKernel_sharesContents h
  obtain ⟨t, ht⟩ := hregions root hroot
  have hwithin := closed.term ht
  have hself : k.program.Continues k.program := .refl k.program
  refine ⟨t, ht, hwithin, closed, fun config constants requests => ?_,
    fun a constants instantiations => ⟨?_, fun q hcont => ?_, fun s hs => ⟨?_, Lowering.toInt_shift⟩⟩⟩
  · exact Session.after_closed closed shares (Session.new_closed hwithin config constants) requests
  · exact (Analyzer.analyzeLoop_agrees hself closed shares hwithin a constants
      instantiations).2.ne_missing
  · exact (Analyzer.analyzeLoop_agrees hcont closed shares hwithin a constants instantiations).1
  · have hsettle := (Analyzer.settle_agrees hself closed shares hwithin a.config constants
      instantiations).2
    rw [hs] at hsettle
    cases hsettle with
    | ok hclosed => exact hclosed

end KernelFile

/-! `A[f(i)] = A[B[i]]` for `i` from 0 to before the constant `n = 4`, where `f(x)` is `x - 1` and `B`
is read-only with the contents 0, 2, 4, 6. -/
namespace Behind

def file : KernelFile where
  arrays := [⟨"A", .intArray, [10], none, false, none⟩, ⟨"B", .intArray, [4], some [0, 2, 4, 6], true, none⟩]
  nodes :=
    [.var "i" .int none, .literal (.int 1), .var "x" .int none, .binary .sub ⟨2⟩ ⟨1⟩ .int,
      .call ⟨0⟩ [⟨0⟩], .access ⟨0⟩ [⟨4⟩], .access ⟨1⟩ [⟨0⟩], .access ⟨0⟩ [⟨6⟩], .assign ⟨5⟩ ⟨7⟩,
      .var "n" .int none, .forLoop ⟨0⟩ ⟨8⟩]
  loops := [⟨"i", .int, .symbolic none (some ⟨9⟩) none ⟨0, 0, 1⟩⟩]
  functions := [⟨"f", [⟨"x", .int⟩], ⟨3⟩, .int⟩]
  regions := [⟨10⟩]
  constants := [⟨"n", .int 4, .int⟩]
  instantiations := []

def index : Term := ⟨⟨0⟩, .var "i" .int none⟩
def one : Term := ⟨⟨1⟩, .literal (.int 1)⟩
def param : Term := ⟨⟨2⟩, .var "x" .int none⟩
def result : Term := ⟨⟨3⟩, .binary .sub param one .int⟩
def call : Term := ⟨⟨4⟩, .call ⟨0⟩ [index]⟩
def target : Term := ⟨⟨5⟩, .access ⟨0⟩ [call]⟩
def inner : Term := ⟨⟨6⟩, .access ⟨1⟩ [index]⟩
def source : Term := ⟨⟨7⟩, .access ⟨0⟩ [inner]⟩
def body : Term := ⟨⟨8⟩, .assign target source⟩
def stop : Term := ⟨⟨9⟩, .var "n" .int none⟩
def region : Term := ⟨⟨10⟩, .forLoop ⟨0⟩ body⟩

def program : Program where
  terms := #[index, one, param, result, call, target, inner, source, body, stop, region]
  loops := #[⟨"i", .int, .symbolic none (some ⟨9⟩) none ⟨0, 0, 1⟩⟩]
  arrays := #[⟨"A", ⟨.intArray, [10]⟩, none, false⟩, ⟨"B", ⟨.intArray, [4]⟩, some ⟨1, [0, 2, 4, 6]⟩, true⟩]
  functions := #[⟨"f", [⟨"x", .int⟩], ⟨3⟩, .int⟩]

def constants : Constants := .ofList [("n", 4)]

def kernel : Kernel := ⟨program, [⟨10⟩], constants, []⟩

/-- The program with one more entry in each table. -/
def continued : Program :=
  { program with
    loops := program.loops.push ⟨"j", .int, .simple ⟨0, 1, 1⟩⟩
    arrays := program.arrays.push ⟨"C", ⟨.intArray, [3]⟩, some ⟨2, [7]⟩, true⟩
    functions := program.functions.push ⟨"g", [], ⟨0⟩, .int⟩ }

lemma toKernel_eq : file.toKernel = .ok kernel := rfl

lemma continues : program.Continues continued := by
  refine ⟨rfl, ⟨_, rfl⟩, ⟨_, rfl⟩, _, rfl, ?_⟩
  decide

def settled : Except Error Session := Analyzer.settle program region {} constants []

lemma settled_isSome : settled.toOption.isSome := by decide +kernel

/-- The session in which the region settles. Its least index is that of `A[f(0)]`. -/
def session : Session := settled.toOption.get settled_isSome

lemma minimum_eq : session.context.minimum = -1 := by decide +kernel

/-- Every call, part of the range and cell of the region is found, also with more entries around, and
indices are shifted by one. -/
theorem earlier_cell_in_tables :
    file.toKernel = .ok kernel ∧ ⟨10⟩ ∈ kernel.regions ∧
      (({} : Analyzer).analyzeLoop program region constants []).toOption.isSome ∧
      ({} : Analyzer).analyzeLoop continued region constants [] =
        ({} : Analyzer).analyzeLoop program region constants [] ∧
      (Lowering.shift session.context).toInt = 1 := by
  obtain ⟨t, ht, -, -, -, hanalysis⟩ :=
    KernelFile.analysis_stays_in_tables toKernel_eq (List.mem_singleton_self (⟨10⟩ : NodeId))
  cases ht
  obtain ⟨-, hsame, hsettled⟩ := hanalysis {} constants []
  refine ⟨rfl, List.mem_singleton_self _, by decide +kernel, hsame continued continues, ?_⟩
  rw [(hsettled session (eq_ok_get settled_isSome)).2 (by rw [minimum_eq]; decide), minimum_eq]
  rfl

end Behind

end LoopSafety
