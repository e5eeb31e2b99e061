import Mathlib.Data.List.Nodup
import Mathlib.Data.List.Sort
import LoopSafety.Proofs.Verdicts

/-! Caches of scanned contents over any number of requests.

Requests may ask for uniqueness or not, come through any of the names of a storage, and be mixed with
look-ups and resets. Every entry is the result of some scan of its storage, and a storage is read for
the first request and for the first that asks for uniqueness, and for no other. What narrowing comes to
does not show which requests there were. -/
namespace LoopSafety

namespace Contents

/-- In an ascending list a value that comes again comes right after itself: what stands between is
neither smaller nor larger. -/
lemma hasEqualNeighbours_iff {sorted : List Int64} (h : sorted.Pairwise (· ≤ ·)) :
    hasEqualNeighbours sorted ↔ ¬sorted.Nodup := by
  induction sorted with
  | nil => simp [hasEqualNeighbours]
  | cons v vs ih =>
    obtain ⟨hfirst, hrest⟩ := List.pairwise_cons.mp h
    cases vs with
    | nil => simp [hasEqualNeighbours]
    | cons w vs =>
      have hagain : v ∈ w :: vs ↔ v = w := by
        refine ⟨fun hv => ?_, fun heq => heq ▸ List.mem_cons_self⟩
        rcases List.mem_cons.mp hv with heq | hv
        · exact heq
        · exact Int64.le_antisymm (hfirst w List.mem_cons_self) ((List.pairwise_cons.mp hrest).1 v hv)
      rw [List.nodup_cons, hagain, hasEqualNeighbours, Bool.or_eq_true, beq_iff_eq, ih hrest]
      tauto

/-- Sorting keeps how often a value occurs, so equal neighbours are values that were repeated. -/
lemma hasRepeats_iff (values : List Int64) : hasRepeats values ↔ ¬values.Nodup := by
  have hsorted : values.mergeSort.Pairwise (· ≤ ·) := List.pairwise_mergeSort' (· ≤ ·) values
  rw [hasRepeats, hasEqualNeighbours_iff hsorted, (List.mergeSort_perm values _).nodup_iff]

/-- What is known of values is true of them. -/
structure Fits (values : List Int64) (found : Contents) : Prop where
  min : values.min? = some found.min
  max : values.max? = some found.max
  uniqueness : found.uniqueness = .unknown ∨
    found.uniqueness = if values.Nodup then .unique else .repeated

lemma scan_fits {u : Bool} {values : List Int64} {found : Contents}
    (h : scan u values = some found) : found.Fits values := by
  cases values with
  | nil => simp [scan] at h
  | cons v vs =>
    simp only [scan, Option.some.injEq] at h
    subst h
    refine ⟨List.min?_cons', List.max?_cons', ?_⟩
    have hrepeats := hasRepeats_iff (v :: vs)
    cases u with
    | false => exact .inl rfl
    | true =>
      by_cases hnodup : (v :: vs).Nodup
      · simp_all
      · simp_all

/-- Uniqueness is known exactly if it was asked for. -/
lemma scan_uniqueness {u : Bool} {values : List Int64} {found : Contents}
    (h : scan u values = some found) : found.uniqueness = .unknown ↔ u = false := by
  cases values with
  | nil => simp [scan] at h
  | cons v vs =>
    simp only [scan, Option.some.injEq] at h
    subst h
    cases u with
    | false => simp
    | true => cases hasRepeats (v :: vs) <;> simp

end Contents

/-- What storage numbers stand for agrees with the contents of a binding. -/
def Binding.Holds (contents : Nat → List Int64) (b : Binding) : Prop :=
  ∀ s, b.storage = some s → s.values = contents s.identity

namespace ScanCache

/-- What can be done with a cache. -/
inductive Step where
  | scan (b : Binding) (checkUnique : Bool)
  | look (b : Binding)
  | reset

/-- The binding that a step is about. -/
def Step.binding? : Step → Option Binding
  | scan b _ | look b => some b
  | reset => none

/-- For a scan of the given storage, whether it asks for uniqueness. -/
def Step.asks? (i : Nat) : Step → Option Bool
  | scan b u => if b.identity? = some i then some u else none
  | look _ | reset => none

def serve (c : ScanCache) : Step → ScanCache
  | .scan b u => (c.getOrScan b u).2
  | .look _ => c
  | .reset => {}

def after (steps : List Step) (c : ScanCache) : ScanCache := steps.foldl serve c

/-- Whether a step reads contents. -/
def reads (c : ScanCache) (step : Step) : Bool := c.scans < (c.serve step).scans

/-- The scans of a storage for which its contents are read. -/
def readings (i : Nat) : ScanCache → List Step → List Bool
  | _, [] => []
  | c, step :: steps =>
    (if c.reads step then (step.asks? i).toList else []) ++ readings i (c.serve step) steps

/-- Of the scans of one storage, the first and the first that asks for uniqueness. -/
def firsts : List Bool → List Bool
  | [] => []
  | true :: _ => [true]
  | false :: rest => if true ∈ rest then [false, true] else [false]

lemma length_firsts_le (asked : List Bool) : (firsts asked).length ≤ 2 := by
  unfold firsts
  split
  · simp
  · simp
  · split <;> simp

variable {contents : Nat → List Int64} {c : ScanCache} {b : Binding} {i : Nat}

/-- A request is answered from the cache, or reads contents and enters what it finds. -/
lemma getOrScan_cases {s : Storage} (hs : b.storage = some s) (c : ScanCache) (u : Bool) :
    (∃ found, c.entries.get? s.identity = some found ∧ answers u found = true ∧
        c.getOrScan b u = (some found, c)) ∨
      (∀ found, c.entries.get? s.identity = some found → answers u found = false) ∧
        (s.values = [] ∧ c.getOrScan b u = (none, c) ∨
          ∃ found, Contents.scan u s.values = some found ∧ c.getOrScan b u =
            (some found, { entries := c.entries.insert s.identity found, scans := c.scans + 1 })) := by
  unfold getOrScan
  rw [hs]
  cases hfilter : (c.entries.get? s.identity).filter (answers u) with
  | some found =>
    obtain ⟨hget, hanswers⟩ := Option.filter_eq_some_iff.mp hfilter
    exact .inl ⟨found, hget, hanswers, by simp [hfilter]⟩
  | none =>
    refine .inr ⟨fun found hget => ?_, ?_⟩
    · simpa using Option.filter_eq_none_iff.mp hfilter found hget
    · cases hscan : Contents.scan u s.values with
      | none =>
        exact .inl ⟨(Contents.scan_eq_none_iff u s.values).mp hscan, by simp [hfilter, hscan]⟩
      | some found => exact .inr ⟨found, rfl, by simp [hfilter, hscan]⟩

/-- Every entry is the result of a scan of its storage. -/
def Faithful (contents : Nat → List Int64) (c : ScanCache) : Prop :=
  ∀ i found, c.entries.get? i = some found → ∃ u, Contents.scan u (contents i) = some found

/-- All bindings that steps are about have the given contents. -/
def StepsHold (contents : Nat → List Int64) (steps : List Step) : Prop :=
  ∀ step ∈ steps, ∀ b ∈ step.binding?, b.Holds contents

lemma serve_faithful (h : c.Faithful contents) {step : Step}
    (hstep : ∀ b ∈ step.binding?, b.Holds contents) : (c.serve step).Faithful contents := by
  cases step with
  | look b => exact h
  | reset =>
    intro i found hget
    simp [serve] at hget
  | scan b u =>
    rw [serve]
    obtain heq | ⟨s, fresh, hs, hfresh, heq⟩ := getOrScan_snd c b u
    · rw [heq]
      exact h
    · rw [heq]
      intro i found hget
      rw [Table.get?_insert] at hget
      split at hget
      · next hid =>
        subst hid
        cases hget
        exact ⟨u, by rw [← hstep b rfl s hs, hfresh]⟩
      · exact h i found hget

theorem after_faithful (h : c.Faithful contents) {steps : List Step}
    (hsteps : StepsHold contents steps) : (c.after steps).Faithful contents := by
  induction steps generalizing c with
  | nil => exact h
  | cons step steps ih =>
    obtain ⟨hstep, hrest⟩ := List.forall_mem_cons.mp hsteps
    exact ih (serve_faithful h hstep) hrest

lemma faithful_empty (contents : Nat → List Int64) : Faithful contents {} := by
  intro i found hget
  simp at hget

lemma asks?_eq_some {step : Step} {u : Bool} (h : step.asks? i = some u) :
    ∃ b s, step = .scan b u ∧ b.storage = some s ∧ s.identity = i := by
  cases step with
  | scan b u' =>
    rw [Step.asks?] at h
    split at h
    · next hid =>
      cases h
      obtain ⟨s, hs, hi⟩ := Option.map_eq_some_iff.mp hid
      exact ⟨b, s, rfl, hs, hi⟩
    · cases h
  | look b => cases h
  | reset => cases h

/-- Steps on other storages leave an entry alone. -/
lemma serve_other {step : Step} (hreset : step ≠ .reset) (h : step.asks? i = none) :
    (c.serve step).entries.get? i = c.entries.get? i := by
  cases step with
  | look b => rfl
  | reset => exact absurd rfl hreset
  | scan b u =>
    rw [serve]
    obtain heq | ⟨s, fresh, hs, -, heq⟩ := getOrScan_snd c b u
    · rw [heq]
    · have hne : s.identity ≠ i := by
        rintro rfl
        simp [Step.asks?, Binding.identity?, hs] at h
      rw [heq, Table.get?_insert, if_neg hne]

/-- An entry that can answer stays, and nothing is read. -/
lemma serve_answered {step : Step} {u : Bool} (h : step.asks? i = some u) {found : Contents}
    (hget : c.entries.get? i = some found) (hanswers : answers u found = true) :
    c.serve step = c := by
  obtain ⟨b, s, rfl, hs, rfl⟩ := asks?_eq_some h
  obtain ⟨_, -, -, heq⟩ | ⟨hnone, -⟩ := getOrScan_cases hs c u
  · rw [serve, heq]
  · rw [hnone found hget] at hanswers
    cases hanswers

/-- Where no entry can answer, the contents are read and entered. -/
lemma serve_unanswered {step : Step} {u : Bool} (h : step.asks? i = some u)
    (hstep : ∀ b ∈ step.binding?, b.Holds contents) (hcontents : contents i ≠ [])
    (hnone : ∀ found, c.entries.get? i = some found → answers u found = false) :
    c.reads step = true ∧ ∃ found, Contents.scan u (contents i) = some found ∧
      (c.serve step).entries.get? i = some found := by
  obtain ⟨b, s, rfl, hs, rfl⟩ := asks?_eq_some h
  rw [← hstep b rfl s hs] at hcontents ⊢
  obtain ⟨found, hget, hanswers, -⟩ | ⟨-, ⟨hempty, -⟩ | ⟨found, hscan, heq⟩⟩ := getOrScan_cases hs c u
  · rw [hnone found hget] at hanswers
    cases hanswers
  · exact absurd hempty hcontents
  · refine ⟨by simp [reads, serve, heq], found, hscan, ?_⟩
    rw [serve, heq, Table.get?_insert, if_pos rfl]

/-- An entry of known uniqueness answers every request, and stays until the cache is reset. -/
lemma serve_known {step : Step} (hreset : step ≠ .reset) {found : Contents}
    (hget : c.entries.get? i = some found) (hknown : found.uniqueness ≠ .unknown) :
    (c.serve step).entries.get? i = some found := by
  cases hasks : step.asks? i with
  | none => rw [serve_other hreset hasks, hget]
  | some u => rw [serve_answered hasks hget (by simp [answers, hknown]), hget]

theorem after_known {steps : List Step} (hreset : .reset ∉ steps) {found : Contents}
    (hget : c.entries.get? i = some found) (hknown : found.uniqueness ≠ .unknown) :
    (c.after steps).entries.get? i = some found := by
  induction steps generalizing c with
  | nil => exact hget
  | cons step steps ih =>
    rw [List.mem_cons, not_or] at hreset
    exact ih hreset.2 (serve_known (Ne.symm hreset.1) hget hknown)

/-- The scans of a storage. -/
def asked (i : Nat) (steps : List Step) : List Bool := steps.filterMap (Step.asks? i)

/-- With known uniqueness nothing is read any more. -/
lemma readings_known {steps : List Step} (hreset : .reset ∉ steps) {found : Contents}
    (hget : c.entries.get? i = some found) (hknown : found.uniqueness ≠ .unknown) :
    readings i c steps = [] := by
  induction steps generalizing c with
  | nil => rfl
  | cons step steps ih =>
    rw [List.mem_cons, not_or] at hreset
    rw [readings, ih hreset.2 (serve_known (Ne.symm hreset.1) hget hknown)]
    cases hasks : step.asks? i with
    | none => simp
    | some u =>
      have hserve := serve_answered hasks hget (by simp [answers, hknown])
      simp [reads, hserve]

/-- With an entry of unknown uniqueness, contents are read for the first request of uniqueness. -/
lemma readings_unknown {steps : List Step} (hreset : .reset ∉ steps)
    (hsteps : StepsHold contents steps) (hcontents : contents i ≠ []) {found : Contents}
    (hget : c.entries.get? i = some found) (hunknown : found.uniqueness = .unknown) :
    readings i c steps = if true ∈ asked i steps then [true] else [] := by
  induction steps generalizing c with
  | nil => rfl
  | cons step steps ih =>
    rw [List.mem_cons, not_or] at hreset
    obtain ⟨hstep, hrest⟩ := List.forall_mem_cons.mp hsteps
    rw [readings]
    cases hasks : step.asks? i with
    | none =>
      have hsame := serve_other (c := c) (Ne.symm hreset.1) hasks
      simp [ih hreset.2 hrest (hsame.trans hget), asked, List.filterMap_cons_none hasks]
    | some u =>
      cases u with
      | false =>
        have hserve := serve_answered hasks hget (by simp [answers])
        rw [hserve, ih hreset.2 hrest hget]
        simp [reads, hserve, asked, List.filterMap_cons_some hasks]
      | true =>
        obtain ⟨hreads, found', hscan, hget'⟩ := serve_unanswered (c := c) hasks hstep hcontents
          fun f hf => by
            cases hget.symm.trans hf
            simp [answers, hunknown]
        have hknown := mt (Contents.scan_uniqueness hscan).mp (by simp)
        rw [readings_known hreset.2 hget' hknown]
        simp [hreads, asked, List.filterMap_cons_some hasks]

/-- Without an entry, contents are read for the first request and for the first of uniqueness. -/
lemma readings_new {steps : List Step} (hreset : .reset ∉ steps)
    (hsteps : StepsHold contents steps) (hcontents : contents i ≠ [])
    (hget : c.entries.get? i = none) : readings i c steps = firsts (asked i steps) := by
  induction steps generalizing c with
  | nil => rfl
  | cons step steps ih =>
    rw [List.mem_cons, not_or] at hreset
    obtain ⟨hstep, hrest⟩ := List.forall_mem_cons.mp hsteps
    rw [readings]
    cases hasks : step.asks? i with
    | none =>
      have hsame := serve_other (c := c) (Ne.symm hreset.1) hasks
      simp [ih hreset.2 hrest (hsame.trans hget), asked, List.filterMap_cons_none hasks]
    | some u =>
      obtain ⟨hreads, found, hscan, hget'⟩ := serve_unanswered (c := c) hasks hstep hcontents
        (by simp [hget])
      have huniqueness := Contents.scan_uniqueness hscan
      rw [asked, List.filterMap_cons_some hasks, ← asked]
      cases u with
      | false =>
        rw [readings_unknown hreset.2 hrest hcontents hget' (huniqueness.mpr rfl)]
        by_cases htrue : true ∈ asked i steps <;> simp [hreads, firsts, htrue]
      | true =>
        rw [readings_known hreset.2 hget' (mt huniqueness.mp (by simp))]
        simp [hreads, firsts]

/-- Storage without contents is never counted as read. -/
lemma readings_empty {steps : List Step} (hsteps : StepsHold contents steps)
    (hcontents : contents i = []) : readings i c steps = [] := by
  induction steps generalizing c with
  | nil => rfl
  | cons step steps ih =>
    obtain ⟨hstep, hrest⟩ := List.forall_mem_cons.mp hsteps
    rw [readings, ih hrest, List.append_nil]
    cases hasks : step.asks? i with
    | none => simp
    | some u =>
      obtain ⟨b, s, rfl, hs, rfl⟩ := asks?_eq_some hasks
      rw [← hstep b rfl s hs] at hcontents
      obtain heq | ⟨s', found, hs', hscan, -⟩ := getOrScan_snd c b u
      · simp [reads, serve, heq]
      · cases hs.symm.trans hs'
        simp [hcontents, Contents.scan] at hscan

lemma after_eq_empty {earlier : List Step}
    (h : earlier = [] ∨ earlier.getLast? = some .reset) : ({} : ScanCache).after earlier = {} := by
  rcases h with rfl | h
  · rfl
  · obtain ⟨steps, rfl⟩ := List.getLast?_eq_some_iff.mp h
    rw [after, List.foldl_append]
    rfl

lemma Faithful.describes (h : c.Faithful contents) {p : Program}
    (harrays : ∀ b ∈ p.arrays, b.Holds contents) : c.Describes p := by
  intro b hb s hs found hget
  obtain ⟨u, hscan⟩ := h s.identity found hget
  exact ⟨u, by rw [harrays b hb s hs, hscan]⟩

lemma sharesContents_of_holds {p : Program} (harrays : ∀ b ∈ p.arrays, b.Holds contents) :
    p.SharesContents := by
  intro b hb b' hb' s s' hs hs' hid
  rw [harrays b hb s hs, harrays b' hb' s' hs', hid]

/-- Narrowing comes to the same from every faithful cache. -/
lemma evaluate_unseen {p : Program} (shares : p.SharesContents) (hc : c.Describes p) (ctx : Context)
    (frame : Frame) (b : Bound) (safe : Bool) :
    let narrow cache := (Checker.evaluate p frame b).run ⟨{ ctx with scans := cache }, safe⟩
    (narrow c).1 = (narrow {}).1 ∧ (narrow c).2.safe = (narrow {}).2.safe := by
  intro narrow
  have hbasis : ∀ cache, ({ ctx with scans := cache } : Context).evaluate p frame b =
      ctx.evaluate p frame b := by
    intro cache
    rw [← Context.evaluate_basis, ← Context.evaluate_basis p ctx]
    rfl
  have hrun : ∀ {cache : ScanCache}, cache.Describes p →
      (narrow cache).1 = ((ctx.evaluate p frame b).run {}).1 ∧
        (narrow cache).2.safe = (safe && ((ctx.evaluate p frame b).run {}).2.safe) := by
    intro cache hcache
    obtain ⟨_, -, heq⟩ := (ctx.evaluate_steady shares frame b).run_eq safe hcache
    simp only [narrow, Checker.evaluate_run, hbasis, heq, and_self]
  obtain ⟨hbound, hflag⟩ := hrun hc
  obtain ⟨hbound', hflag'⟩ := hrun (describes_empty p)
  exact ⟨hbound.trans hbound'.symm, hflag.trans hflag'.symm⟩

/-- Whatever has been done with a cache, its entries are true of the contents, and known uniqueness
stays known until a reset. Since the last reset, a storage has been read for the first request and for
the first that asked for uniqueness, so at most twice. Narrowing is as with an empty cache. -/
theorem scan_histories_sound {contents : Nat → List Int64} {steps : List Step}
    (hsteps : StepsHold contents steps) :
    let c := ({} : ScanCache).after steps
    (∀ i found, c.entries.get? i = some found → found.Fits (contents i)) ∧
    (∀ more i found, .reset ∉ more → c.entries.get? i = some found →
      found.uniqueness ≠ .unknown → (c.after more).entries.get? i = some found) ∧
    (∀ earlier recent, steps = earlier ++ recent →
      (earlier = [] ∨ earlier.getLast? = some .reset) → .reset ∉ recent → ∀ i,
      let read := readings i (({} : ScanCache).after earlier) recent
      read = (if contents i = [] then [] else firsts (asked i recent)) ∧ read.length ≤ 2) ∧
    ∀ p : Program, (∀ b ∈ p.arrays, b.Holds contents) →
      ∀ (ctx : Context) (frame : Frame) (b : Bound) (safe : Bool),
      let narrow cache := (Checker.evaluate p frame b).run ⟨{ ctx with scans := cache }, safe⟩
      (narrow c).1 = (narrow {}).1 ∧ (narrow c).2.safe = (narrow {}).2.safe := by
  intro c
  have hfaithful : c.Faithful contents := after_faithful (faithful_empty contents) hsteps
  refine ⟨fun i found hget => ?_, fun more i found hreset => after_known hreset, ?_, ?_⟩
  · obtain ⟨u, hscan⟩ := hfaithful i found hget
    exact Contents.scan_fits hscan
  · intro earlier recent hsplit hearlier hreset i
    dsimp only
    rw [after_eq_empty hearlier]
    have hrecent : StepsHold contents recent := fun step hstep =>
      hsteps step (by simp [hsplit, hstep])
    by_cases hcontents : contents i = []
    · simp [readings_empty hrecent hcontents, hcontents]
    · rw [readings_new hreset hrecent hcontents rfl, if_neg hcontents]
      exact ⟨rfl, length_firsts_le _⟩
  · intro p harrays ctx frame b safe
    exact evaluate_unseen (sharesContents_of_holds harrays) (hfaithful.describes harrays) ctx frame b
      safe

end ScanCache

/-! Two names for one storage and an array of its own, scanned with and without uniqueness around a
reset. -/
namespace SharedIndex

def permutation : Storage := ⟨0, [3, 1, 2]⟩
def repeating : Storage := ⟨1, [4, -2, 9, 4]⟩

def index : Binding := ⟨"A", ⟨.intArray, [3]⟩, some permutation, true⟩
def renamed : Binding := ⟨"B", ⟨.intArray, [3]⟩, some permutation, true⟩
def other : Binding := ⟨"C", ⟨.intArray, [4]⟩, some repeating, true⟩

def contents : Nat → List Int64
  | 0 => permutation.values
  | 1 => repeating.values
  | _ => []

def earlier : List ScanCache.Step := [.scan index true, .look renamed, .scan other false, .reset]

def recent : List ScanCache.Step :=
  [.scan renamed false, .scan other true, .scan index true, .scan renamed true, .look other]

def program : Program where
  arrays := #[index, renamed, other]

lemma arrays_hold : ∀ b ∈ [index, renamed, other], b.Holds contents := by
  simp [Binding.Holds, index, renamed, other, permutation, repeating, contents]

lemma steps_hold : ScanCache.StepsHold contents (earlier ++ recent) := by
  have hall := arrays_hold
  simp only [List.forall_mem_cons] at hall
  simp [ScanCache.StepsHold, ScanCache.Step.binding?, earlier, recent, hall]

lemma scan_permutation : Contents.scan true [3, 1, 2] = some ⟨1, 3, .unique⟩ := by
  have hrepeats : ¬Contents.hasRepeats [3, 1, 2] := by simp [Contents.hasRepeats_iff]
  rw [Contents.scan, if_neg hrepeats]
  rfl

/-- The entry that the first scan leaves does not answer the third, and what that one enters stays. -/
lemma permutation_known :
    (({} : ScanCache).after (earlier ++ recent)).entries.get? 0 = some ⟨1, 3, .unique⟩ := by
  let c := ({} : ScanCache).after (earlier ++ [.scan renamed false, .scan other true])
  have hget : c.entries.get? 0 = some ⟨1, 3, .unknown⟩ := rfl
  have hholds : ∀ b ∈ (ScanCache.Step.scan index true).binding?, b.Holds contents := by
    simpa [ScanCache.Step.binding?] using arrays_hold index List.mem_cons_self
  obtain ⟨-, found, hscan, hfound⟩ := ScanCache.serve_unanswered (c := c) (i := 0) rfl hholds
    (by decide) fun found hold => by
      obtain rfl := Option.some.inj (hget.symm.trans hold)
      rfl
  obtain rfl : ⟨1, 3, .unique⟩ = found := Option.some.inj (scan_permutation.symm.trans hscan)
  have hkept : ScanCache.Step.reset ∉ [.scan renamed true, .look other] := by simp
  exact ScanCache.after_known hkept hfound (by simp)

/-- The shared storage is read again for uniqueness and then known to be a permutation, whichever name
it is scanned through; narrowing is as without the scans. -/
theorem permutation_read_twice :
    ScanCache.StepsHold contents (earlier ++ recent) ∧
    (({} : ScanCache).after (earlier ++ recent)).entries.get? 0 = some ⟨1, 3, .unique⟩ ∧
    Contents.Fits [3, 1, 2] ⟨1, 3, .unique⟩ ∧
    ScanCache.readings 0 (({} : ScanCache).after earlier) recent = [false, true] ∧
    ScanCache.readings 1 (({} : ScanCache).after earlier) recent = [true] ∧
    ∀ (ctx : Context) (frame : Frame) (b : Bound) (safe : Bool),
      let narrow cache := (Checker.evaluate program frame b).run ⟨{ ctx with scans := cache }, safe⟩
      (narrow (({} : ScanCache).after (earlier ++ recent))).1 = (narrow {}).1 := by
  obtain ⟨hfits, -, hread, hnarrow⟩ := ScanCache.scan_histories_sound steps_hold
  have hstart := hread earlier recent rfl (.inr rfl) (by simp [recent])
  refine ⟨steps_hold, permutation_known, hfits 0 _ permutation_known, (hstart 0).1, (hstart 1).1, ?_⟩
  intro ctx frame b safe
  exact (hnarrow program (by simpa [program] using arrays_hold) ctx frame b safe).1

end SharedIndex

end LoopSafety
