import LoopSafety.Proofs.Aliases
import LoopSafety.Session.Basic

/-! Scanned contents and the assignments of a region.

Contents are scanned under names that are declared read-only. A declaration speaks for its own name,
while contents belong to a storage that may have other names, so a region that respects every
declaration writes scanned contents exactly if it does so under another name. -/
namespace LoopSafety

lemma KernelFile.toKernel_readOnly {file : KernelFile} {k : Kernel} (h : file.toKernel = .ok k) :
    k.program.arrays.toList.map (·.readOnly) = file.arrays.map (·.readOnly) := by
  refine toKernel_arrays h (fun decls bindings => bindings.map (·.readOnly) = decls.map (·.readOnly))
    rfl fun {done bindings d bindings'} hinv hstep => ?_
  unfold KernelFile.bindArray at hstep
  split at hstep
  · split at hstep
    · cases hstep
      simp [hinv]
    · cases hstep
  · obtain ⟨shape, -, hstep⟩ := bind_eq_ok hstep
    cases hstep
    simp [hinv]

lemma KernelFile.binding_readOnly {file : KernelFile} {k : Kernel} (h : file.toKernel = .ok k)
    {id : ArrayId} {d : ArrayDecl} {b : Binding} (hd : file.arrays[id.toNat]? = some d)
    (hb : k.program.array? id = some b) : b.readOnly = d.readOnly := by
  have hflags := congrArg (fun flags => flags[id.toNat]?) (toKernel_readOnly h)
  rw [array?_eq] at hb
  simpa [List.getElem?_map, hd, hb] using hflags

/-- Only contents that are live and under a name that is read-only are scanned. -/
lemma Context.eligible_of_evaluate {p : Program} {ctx : Context} {frame : Frame} {probe : Probe}
    {id : ArrayId} {name : String} {ty : DataType}
    (h : ((ctx.evaluate p frame (.array id name ty)).run probe).1.isFail = false) :
    ∃ b s, p.array? id = some b ∧ b.readOnly = true ∧ b.storage = some s := by
  rw [Context.evaluate, Evaluation.narrow, Evaluation.arrayContents] at h
  split at h
  · cases h
  · next b hfilter =>
    obtain ⟨hb, heligible⟩ := Option.filter_eq_some_iff.mp hfilter
    simp only [Binding.isScanEligible, Bool.and_eq_true] at heligible
    obtain ⟨s, hs⟩ := Option.isSome_iff_exists.mp heligible.1.1.2
    exact ⟨b, s, hb, heligible.1.1.1, hs⟩

namespace KernelFile

/-- A declaration denotes one storage. -/
lemma Denotes.unique {decls : List ArrayDecl} {i r r' : Nat} (h : Denotes decls i r)
    (h' : Denotes decls i r') : r' = r := by
  induction h with
  | own declared plain =>
    cases h' with
    | own _ _ => rfl
    | shared declared' named _ _ =>
      cases declared.symm.trans declared'
      cases plain.symm.trans named
  | shared declared named first _ ih =>
    cases h' with
    | own declared' plain =>
      cases declared.symm.trans declared'
      cases plain.symm.trans named
    | shared declared' named' first' denotes' =>
      cases declared.symm.trans declared'
      cases named.symm.trans named'
      cases first.symm.trans first'
      exact ih denotes'

/-- In a region that assigns under no name that is read-only, scanned contents are not assigned
exactly if every declaration of their storage under which the region assigns is read-only. -/
theorem scanned_unassigned_iff {file : KernelFile} {k : Kernel} (h : file.toKernel = .ok k) {t : Term}
    (truthful : ∀ w b, t.Assigns w → k.program.array? w = some b → b.readOnly = false)
    {ctx : Context} {frame : Frame} {probe : Probe} {id : ArrayId} {name : String} {ty : DataType}
    (scanned : ((ctx.evaluate k.program frame (.array id name ty)).run probe).1.isFail = false) :
    (∀ b, k.program.array? id = some b →
        ∀ w b', t.Assigns w → k.program.array? w = some b' → b'.identity? ≠ b.identity?) ↔
      ∀ r, Denotes file.arrays id.toNat r →
        ∀ w d, t.Assigns w → file.arrays[w.toNat]? = some d → Denotes file.arrays w.toNat r →
          d.readOnly = true := by
  obtain ⟨b, s, hb, hreadOnly, hs⟩ := Context.eligible_of_evaluate scanned
  obtain ⟨d, hd⟩ := exists_decl h hb
  have hidentity : b.identity? = some s.identity := by rw [Binding.identity?, hs]; rfl
  obtain ⟨hdenotes, hlive⟩ := (binding_identity_iff h hd hb).mp hidentity
  constructor
  · intro hunassigned r hr w dw hw hdw hdenotesw
    obtain rfl := hdenotes.unique hr
    obtain ⟨b', hb'⟩ := exists_binding h hdw
    have hsame := (binding_identity_iff h hdw hb').mpr ⟨hdenotesw, hlive⟩
    exact absurd (hsame.trans hidentity.symm) (hunassigned b hb w b' hw hb')
  · intro hflags b₁ hb₁ w b' hw hb' hsame
    cases hb.symm.trans hb₁
    obtain ⟨dw, hdw⟩ := exists_decl h hb'
    obtain ⟨hdenotesw, -⟩ := (binding_identity_iff h hdw hb').mp (hsame.trans hidentity)
    have hflag := hflags s.identity hdenotes w dw hw hdw hdenotesw
    rw [← binding_readOnly h hdw hb', truthful w b' hw hb'] at hflag
    cases hflag

end KernelFile

/-! `A[i] = 100` and a read of `D[B[i]]` over four cells, where `B` is declared read-only. It has the
same contents as `A`, either its own or as an alias. -/
namespace Gather

def values : List Int64 := [0, 1, 2, 3]

def aliased : ArrayDecl := ⟨"B", .intArray, [4], none, true, some "A"⟩
def copied : ArrayDecl := ⟨"B", .intArray, [4], some values, true, none⟩

def file (second : ArrayDecl) : KernelFile where
  arrays :=
    [⟨"A", .intArray, [4], some values, false, none⟩, second, ⟨"D", .intArray, [4], none, false, none⟩]
  nodes :=
    [.var "i" .int none, .literal (.int 100), .access ⟨0⟩ [⟨0⟩], .assign ⟨2⟩ ⟨1⟩, .access ⟨1⟩ [⟨0⟩],
      .access ⟨2⟩ [⟨4⟩], .block [⟨3⟩, ⟨5⟩], .forLoop ⟨0⟩ ⟨6⟩]
  loops := [⟨"i", .int, .simple ⟨0, 4, 1⟩⟩]
  functions := []
  regions := [⟨7⟩]
  constants := []
  instantiations := []

def index : Term := ⟨⟨0⟩, .var "i" .int none⟩
def target : Term := ⟨⟨2⟩, .access ⟨0⟩ [index]⟩
def statement : Term := ⟨⟨3⟩, .assign target ⟨⟨1⟩, .literal (.int 100)⟩⟩
def inner : Term := ⟨⟨4⟩, .access ⟨1⟩ [index]⟩
def outer : Term := ⟨⟨5⟩, .access ⟨2⟩ [inner]⟩
def body : Term := ⟨⟨6⟩, .block [statement, outer]⟩
def region : Term := ⟨⟨7⟩, .forLoop ⟨0⟩ body⟩

/-- The kernel in which the second array has the given storage. -/
def kernel (identity : Nat) : Kernel where
  program :=
    { terms := #[index, ⟨⟨1⟩, .literal (.int 100)⟩, target, statement, inner, outer, body, region]
      loops := #[⟨"i", .int, .simple ⟨0, 4, 1⟩⟩]
      arrays := #[⟨"A", ⟨.intArray, [4]⟩, some ⟨0, values⟩, false⟩,
        ⟨"B", ⟨.intArray, [4]⟩, some ⟨identity, values⟩, true⟩, ⟨"D", ⟨.intArray, [4]⟩, none, false⟩] }
  regions := [⟨7⟩]
  constants := ∅
  instantiations := []

lemma toKernel_copied : (file copied).toKernel = .ok (kernel 1) := rfl

lemma toKernel_aliased : (file aliased).toKernel = .ok (kernel 0) := rfl

lemma assigns_iff {w : ArrayId} : region.Assigns w ↔ w = ⟨0⟩ := by
  have hall : region.occurrences [] = [⟨region, []⟩, ⟨body, [⟨0⟩]⟩, ⟨statement, [⟨0⟩]⟩,
      ⟨target, [⟨0⟩]⟩, ⟨index, [⟨0⟩]⟩, ⟨⟨⟨1⟩, .literal (.int 100)⟩, [⟨0⟩]⟩, ⟨outer, [⟨0⟩]⟩,
      ⟨inner, [⟨0⟩]⟩, ⟨index, [⟨0⟩]⟩] := rfl
  rw [Term.Assigns, hall]
  constructor
  · rintro ⟨o, ho, id, indices, value, hnode⟩
    simp only [List.mem_cons, List.not_mem_nil, or_false] at ho
    rcases ho with rfl | rfl | rfl | rfl | rfl | rfl | rfl | rfl | rfl <;> cases hnode
    rfl
  · rintro rfl
    exact ⟨⟨statement, [⟨0⟩]⟩, by simp, ⟨2⟩, [index], _, rfl⟩

lemma truthful (identity : Nat) : ∀ w b, region.Assigns w →
    (kernel identity).program.array? w = some b → b.readOnly = false := by
  intro w b hw hb
  obtain rfl := assigns_iff.mp hw
  cases hb
  rfl

def session (identity : Nat) : Session :=
  ((Session.new region {} ∅).prepare (kernel identity).program).2

/-- What the contents of the second array resolve to once the session is prepared. -/
def scanned (identity : Nat) : Bound :=
  (((session identity).context.evaluate (kernel identity).program { loops := [⟨0⟩] }
    (.array ⟨1⟩ "B" .int)).run {}).1

/-- Contents of its own are scanned, and nothing is assigned to them. -/
theorem copied_contents_unassigned :
    (file copied).toKernel = .ok (kernel 1) ∧ (scanned 1).interval? = some (0, 3) ∧
    ∀ w b, region.Assigns w → (kernel 1).program.array? w = some b → b.identity? ≠ some 1 := by
  have hscanned : (scanned 1).isFail = false := by decide +kernel
  refine ⟨toKernel_copied, by decide +kernel, ?_⟩
  refine (KernelFile.scanned_unassigned_iff toKernel_copied (truthful 1) hscanned).mpr ?_ _ rfl
  have hfirst : KernelFile.Denotes (file copied).arrays 0 0 := .own rfl rfl
  have hsecond : KernelFile.Denotes (file copied).arrays 1 1 := .own rfl rfl
  intro r hr w d hw _ hdenotes
  obtain rfl := assigns_iff.mp hw
  obtain rfl := hsecond.unique hr
  cases hfirst.unique hdenotes

/-- Contents of an alias are scanned just so, and the region assigns to them under the other name:
`D[B[i]]` keeps no check although `B[i]` is a hundred when it is read. -/
theorem aliased_contents_assigned :
    (file aliased).toKernel = .ok (kernel 0) ∧ (kernel 0).regions = [⟨7⟩] ∧
    (kernel 0).program.term? ⟨7⟩ = some region ∧
    (∀ w b, region.Assigns w → (kernel 0).program.array? w = some b → b.readOnly = false) ∧
    (Session.new region {} ∅).prepare (kernel 0).program = (.ok (), session 0) ∧
    ⟨outer, [⟨0⟩]⟩ ∈ (session 0).context.accesses ∧
    (session 0).context.accessBounds.get? ⟨5⟩ = some [.array ⟨1⟩ "B" .int] ∧
    (scanned 0).interval? = some (0, 3) ∧
    (session 0).context.accessVerdicts.get? ⟨5⟩ = some [false] ∧
    ∃ w b b', region.Assigns w ∧ (kernel 0).program.array? w = some b' ∧
      (kernel 0).program.array? ⟨1⟩ = some b ∧ b'.identity? = b.identity? := by
  have hok : ((Session.new region {} ∅).prepare (kernel 0).program).1 = .ok () := by decide +kernel
  refine ⟨toKernel_aliased, rfl, rfl, truthful 0, Prod.ext hok rfl, ?_, rfl, by decide +kernel,
    by decide +kernel, ⟨0⟩, _, _, assigns_iff.mpr rfl, rfl, rfl, rfl⟩
  have htargets : (session 0).context.accesses =
      [⟨target, [⟨0⟩]⟩, ⟨outer, [⟨0⟩]⟩, ⟨inner, [⟨0⟩]⟩] := rfl
  rw [htargets]
  simp

end Gather

end LoopSafety
