import SreAgent.Rca.AnalysisWorkflow

/-!
# The bundle of a workflow

What a run returns is a partition of the kinds it routed and of those that failed discovery. The proof
reads the two dictionaries of a finished run kind by kind, along the trail of the kind's task; sorting
the bundle then moves a result to the failures, or leaves it.
-/

namespace SreAgent.Rca
open Base Retries Slots

/-! ## Sorting a bundle -/

section Normalize

variable {bundle sorted : SpecialistAnalysisBundle} {d : Sorted}
  {failures : SpecialistKind → Option SpecialistFailure}

/-- The results that stay results. -/
def usable (result : SpecialistAnalysisResult) : Bool := !decide result.analysis.Unusable

/-- The results that become failures. -/
def unusable (result : SpecialistAnalysisResult) : Bool := decide result.analysis.Unusable

/-- The fold files the usable results, and the failures of the others. -/
theorem foldl_sort (results : List SpecialistAnalysisResult) : results.foldl Sorted.sort d =
    ⟨file SpecialistAnalysisResult.specialist (results.filter usable) d.results,
      file SpecialistFailure.specialist ((results.filter unusable).map
        SpecialistAnalysisResult.failure) d.failures⟩ := by
  induction results generalizing d with
  | nil => rfl
  | cons result results ih =>
    rw [List.foldl_cons, ih]
    unfold Sorted.sort
    by_cases h : result.analysis.Unusable
    · rw [if_pos h, List.filter_cons_of_neg (by simp [usable, h]),
        List.filter_cons_of_pos (by simp [unusable, h]), List.map_cons, file_cons]
      rfl
    · rw [if_neg h, List.filter_cons_of_pos (by simp [usable, h]),
        List.filter_cons_of_neg (by simp [unusable, h]), file_cons]

def Stable (failure : SpecialistFailure) : Prop := failure.code ∈ stableSpecialistCodes

theorem stable_stableFailure (kind : SpecialistKind) (code : StableSpecialistCode) :
    Stable (stableFailure kind code) := text_mem_stable code

/-- A bundle of stable failures in order is valid. -/
theorem validate_inOrder {results : List SpecialistAnalysisResult}
    (stable : ∀ kind failure, failures kind = some failure → Stable failure) :
    ∃ b, SpecialistAnalysisBundle.validate results (inOrder SpecialistKind.order failures) = some b ∧
      b.results = results ∧
      b.failures = inOrder SpecialistKind.order failures := by
  have all : ∀ failure ∈ inOrder SpecialistKind.order failures, failure.code ∈ stableSpecialistCodes := by
    intro failure h
    obtain ⟨kind, -, found⟩ := mem_inOrder.1 h
    exact stable kind failure found
  exact ⟨_, dif_pos all, rfl, rfl⟩

/-- A bundle sorted: the results that are usable, and the failures with those that the others become. -/
theorem normalize_eq (bundle : SpecialistAnalysisBundle) :
    ∃ sorted, normalizeSpecialistAnalysisBundle bundle = some sorted ∧
    sorted.results =
      inOrder SpecialistKind.order (file SpecialistAnalysisResult.specialist (bundle.results.filter usable)
      fun _ => none) ∧
    sorted.failures = inOrder SpecialistKind.order (file SpecialistFailure.specialist
      ((bundle.results.filter unusable).map SpecialistAnalysisResult.failure)
      (file SpecialistFailure.specialist bundle.failures fun _ => none)) := by
  unfold normalizeSpecialistAnalysisBundle
  rw [foldl_sort]
  apply validate_inOrder
  intro kind failure found
  rcases of_file found with ⟨moved, -⟩ | before
  · obtain ⟨result, -, rfl⟩ := List.mem_map.1 moved
    exact stable_stableFailure _ _
  · rcases of_file before with ⟨old, -⟩ | none
    · exact bundle.stable failure old
    · cases none

theorem bundle_ext {b b' : SpecialistAnalysisBundle} (results : b.results = b'.results)
    (failures : b.failures = b'.failures) : b = b' := by
  cases b
  cases b'
  cases results
  cases failures
  rfl

/-- Every bundle is sorted, and a sorted one to itself. -/
theorem normalize_idempotent (bundle : SpecialistAnalysisBundle) :
    ∃ sorted, normalizeSpecialistAnalysisBundle bundle = some sorted ∧
      normalizeSpecialistAnalysisBundle sorted = some sorted := by
  obtain ⟨sorted, eq, results, failures⟩ := normalize_eq bundle
  obtain ⟨again, eq', results', failures'⟩ := normalize_eq sorted
  have kept : sorted.results.filter usable = sorted.results := by
    rw [List.filter_eq_self]
    intro result hresult
    rw [results] at hresult
    obtain ⟨kind, -, found⟩ := mem_inOrder.1 hresult
    rcases of_file found with ⟨mem, -⟩ | none
    · exact (List.mem_filter.1 mem).2
    · cases none
  have moved : sorted.results.filter unusable = [] := by
    rw [List.filter_eq_nil_iff]
    intro result hresult un
    have us := (List.filter_eq_self.1 kept) result hresult
    simp only [usable, unusable] at us un
    rw [un] at us
    cases us
  refine ⟨sorted, eq, eq'.trans (congrArg some (bundle_ext ?_ ?_))⟩
  · rw [results', kept, results, file_inOrder (filed_none.file _) (by decide) SpecialistKind.mem_order]
    simp only [Option.or_none]
  · rw [failures', moved, List.map_nil, failures,
      file_inOrder ((filed_none.file _).file _) (by decide) SpecialistKind.mem_order]
    simp only [Option.or_none]
    rfl

/-- A listed bundle, sorted kind by kind. -/
theorem normalize_inOrder {results : SpecialistKind → Option SpecialistAnalysisResult}
    (hresults : bundle.results = inOrder SpecialistKind.order results)
    (hfailures : bundle.failures = inOrder SpecialistKind.order failures)
    (own : Filed SpecialistAnalysisResult.specialist results)
    (filed : Filed SpecialistFailure.specialist failures) :
    ∃ sorted, normalizeSpecialistAnalysisBundle bundle = some sorted ∧
      sorted.results = inOrder SpecialistKind.order (fun kind => (results kind).filter usable) ∧
      sorted.failures = inOrder SpecialistKind.order
        (fun kind => (((results kind).filter unusable).map SpecialistAnalysisResult.failure).or
          (failures kind)) := by
  obtain ⟨sorted, eq, rs, fs⟩ := normalize_eq bundle
  have usableOwn : Filed SpecialistAnalysisResult.specialist fun kind => (results kind).filter usable := by
    intro kind result found
    exact own kind result (Option.filter_eq_some_iff.1 found).1
  have movedOwn : Filed SpecialistFailure.specialist fun kind =>
      ((results kind).filter unusable).map SpecialistAnalysisResult.failure := by
    intro kind failure found
    obtain ⟨result, hresult, rfl⟩ := Option.map_eq_some_iff.1 found
    exact own kind result (Option.filter_eq_some_iff.1 hresult).1
  refine ⟨sorted, eq, ?_, ?_⟩
  · rw [rs, hresults, filter_inOrder, file_inOrder usableOwn (by decide) SpecialistKind.mem_order]
    simp only [Option.or_none]
  · rw [fs, hresults, hfailures, map_filter_inOrder, file_inOrder filed (by decide) SpecialistKind.mem_order,
      file_inOrder movedOwn (by decide) SpecialistKind.mem_order]
    simp only [Option.or_none]

end Normalize

/-! ## The end of a task -/

/-- An exception after which a branch may be invoked again: one of the transport, or a code that says so. -/
def Raised.TransportFailure (e : Raised) : Prop :=
  e.timeoutError = false ∧ (e.transport = true ∨
    e.mcpPayloadTooLarge = false ∧ e.mcpResultInvalid = false ∧ e.analysisValidation = false ∧
      e.code = some "MCP_TRANSPORT")

/-- A code other than `analysis_failed` is the one the exception carries. -/
theorem code_of_exceptionCode {allowedCodes : List String} {e : Raised} {code : StableSpecialistCode}
    (h : exceptionCode allowedCodes e = code) (ne : code ≠ .ANALYSIS_FAILED) : e.code = some code.text := by
  unfold exceptionCode at h
  split at h
  · exact absurd h.symm ne
  · next c found =>
    split at h
    · cases read : StableSpecialistCode.ofText c with
      | none =>
        rw [read] at h
        exact absurd h.symm ne
      | some code' =>
        rw [read] at h
        rw [found, ← StableSpecialistCode.text_of_ofText read]
        exact congrArg (some ·.text) h
    · exact absurd h.symm ne

/-- Only a transport failure of the first attempt is tried again. -/
theorem invokeCode_eq_none {attempt : Nat} {e : Raised} (h : invokeCode attempt e = none) :
    attempt = 0 ∧ e.TransportFailure := by
  unfold invokeCode at h
  split_ifs at h with timeout transport first payload result validation
  · exact ⟨first, by simpa using timeout, .inl transport⟩
  · dsimp only at h
    split at h
    · next again =>
      refine ⟨again.2, by simpa using timeout,
        .inr ⟨by simpa using payload, by simpa using result, by simpa using validation, ?_⟩⟩
      exact code_of_exceptionCode again.1 (by decide)
    · cases h

/-- A branch is invoked again after a transport failure of its first attempt, and after nothing else. -/
theorem settleBranch_eq_again {kind : SpecialistKind} {attempt : Nat} {o : BranchEnd}
    (h : settleBranch kind attempt o = .again) :
    attempt = 0 ∧ ∃ e, o = .raised e ∧ e.TransportFailure := by
  cases o with
  | returned result =>
    unfold settleBranch at h
    dsimp only at h
    split at h <;> cases h
  | raised e =>
    unfold settleBranch at h
    dsimp only at h
    split at h
    · next again => exact ⟨(invokeCode_eq_none again).1, e, rfl, (invokeCode_eq_none again).2⟩
    · cases h

/-- A result is filed only if the branch returned it, and under its own kind. -/
theorem settleBranch_eq_filed {kind : SpecialistKind} {attempt : Nat} {o : BranchEnd}
    {result : SpecialistAnalysisResult} (h : settleBranch kind attempt o = .filed result) :
    o = .returned result ∧ result.specialist = kind := by
  cases o with
  | returned result' =>
    unfold settleBranch at h
    dsimp only at h
    split at h
    · cases h
    · next same =>
      cases h
      exact ⟨rfl, not_not.1 same⟩
  | raised e =>
    unfold settleBranch at h
    dsimp only at h
    split at h <;> cases h

/-- The failure of a branch is filed under its kind, with a stable code. -/
theorem settleBranch_eq_failed {kind : SpecialistKind} {attempt : Nat} {o : BranchEnd}
    {failure : SpecialistFailure} (h : settleBranch kind attempt o = .failed failure) :
    failure.specialist = kind ∧ Stable failure := by
  cases o with
  | returned result =>
    unfold settleBranch at h
    dsimp only at h
    split at h
    · cases h
      exact ⟨rfl, stable_stableFailure _ _⟩
    · cases h
  | raised e =>
    unfold settleBranch at h
    dsimp only at h
    split at h
    · cases h
    · cases h
      exact ⟨rfl, stable_stableFailure _ _⟩

/-- A branch is refused for its deadline only. -/
theorem admit_eq_some {deadline : Timestamp} {kind : SpecialistKind} {now : Option Timestamp}
    {failure : SpecialistFailure} (h : (invoke deadline).refuses kind now = some failure) :
    failure = stableFailure kind .ANALYSIS_TIMEOUT := by
  unfold invoke at h
  dsimp only at h
  split at h <;> cases h
  rfl

/-! ## The kinds of a run -/

/-- Discovery failed at the endpoint of a kind. -/
def CapabilitySet.Failed (capabilities : CapabilitySet) (kind : SpecialistKind) : Prop :=
  ∃ failure ∈ capabilities.discoveryFailures, failure.specialist = kind

/-- A run of the workflow, by the turns its tasks take. -/
def runs (context : IncidentContext) (capabilities : CapabilitySet) (deadline : Timestamp)
    (events : List (SpecialistKind × Event (Option Timestamp) BranchEnd))
    (s : State SpecialistKind SpecialistAnalysisResult SpecialistFailure) : Prop :=
  (tasks (invoke deadline)).exec (startAnalyses context capabilities) events = some s

/-- What a finished run has filed under a kind. -/
inductive KindEnd (context : IncidentContext) (capabilities : CapabilitySet)
    (events : List (SpecialistKind × Event (Option Timestamp) BranchEnd)) (kind : SpecialistKind) :
    Option SpecialistAnalysisResult → Option SpecialistFailure → Prop where
  | result (r : SpecialistAnalysisResult) (routed : kind ∈ (route context capabilities).selected)
      (mine : r.specialist = kind)
      (returned : Event.ended (.returned r) ∈ own kind events) :
        KindEnd context capabilities events kind (some r) none
  | failure (f : SpecialistFailure)
      (expected : kind ∈ (route context capabilities).selected ∨ capabilities.Failed kind)
      (mine : f.specialist = kind)
      (stable : Stable f) : KindEnd context capabilities events kind none (some f)
  | absent (unrouted : kind ∉ (route context capabilities).selected) (unfailed : ¬ capabilities.Failed kind) :
      KindEnd context capabilities events kind none none

section Kinds

variable {context : IncidentContext} {capabilities : CapabilitySet} {deadline : Timestamp}
  {kind : SpecialistKind} {failure : SpecialistFailure}
  {events events' : List (SpecialistKind × Event (Option Timestamp) BranchEnd)}
  {s s' : State SpecialistKind SpecialistAnalysisResult SpecialistFailure}

/-- The dictionary of discovery failures has an entry for the kinds whose discovery failed. -/
theorem discoveryFailures_isSome : (discoveryFailures capabilities kind).isSome ↔
      capabilities.Failed kind := by
  unfold discoveryFailures
  rw [file_isSome, List.map_map]
  constructor
  · rintro (mem | none)
    · obtain ⟨failure, hfailure, same⟩ := List.mem_map.1 mem
      exact ⟨failure, hfailure, same⟩
    · cases none
  · rintro ⟨failure, hfailure, same⟩
    exact .inl (List.mem_map.2 ⟨failure, hfailure, same⟩)

theorem of_discoveryFailures (h : discoveryFailures capabilities kind = some failure) :
    failure.specialist = kind ∧ Stable failure := by
  rcases of_file h with ⟨mem, same⟩ | none
  · obtain ⟨found, -, rfl⟩ := List.mem_map.1 mem
    exact ⟨same, stable_stableFailure _ _⟩
  · cases none

/-- A kind that was not routed keeps what discovery filed. -/
theorem kindEnd_of_unrouted (unrouted : kind ∉ (route context capabilities).selected) :
    KindEnd context capabilities events kind none (discoveryFailures capabilities kind) := by
  cases found : discoveryFailures capabilities kind with
  | none =>
    refine .absent unrouted fun failed => ?_
    rw [← discoveryFailures_isSome, found] at failed
    cases failed
  | some failure =>
    have failed : capabilities.Failed kind := discoveryFailures_isSome.1 (by rw [found]; rfl)
    exact .failure failure (.inr failed) (of_discoveryFailures found).1 (of_discoveryFailures found).2

/-- A finished task has filed one entry, since its second attempt never asks for a third. -/
theorem kindEnd_of_trail {slot : Slot SpecialistAnalysisResult SpecialistFailure}
    (trail : Trail (invoke deadline) kind none (own kind events) slot) (finished : slot.task = .finished)
    (routed : kind ∈ (route context capabilities).selected) :
    KindEnd context capabilities events kind slot.result slot.failure := by
  cases trail with
  | waiting => cases finished
  | running => cases finished
  | refused n now failure within again read refusal =>
    rw [admit_eq_some refusal]
    exact .failure _ (.inl routed) rfl (stable_stableFailure _ _)
  | filed n o result within again ended verdict =>
    obtain ⟨rfl, same⟩ := settleBranch_eq_filed verdict
    exact .result result routed same ended
  | failed n o failure within again ended verdict =>
    exact .failure failure (.inl routed) (settleBranch_eq_failed verdict).1 (settleBranch_eq_failed verdict).2
  | exhausted n o last again ended verdict =>
    have first := (settleBranch_eq_again verdict).1
    subst first
    cases last

/-- When the graph has finished, what is filed for a kind is the end of its own branch. -/
theorem kindEnd (run : runs context capabilities deadline events s) (finished : s.Finished)
    (separate : ∀ kind ∈ (route context capabilities).selected, ¬ capabilities.Failed kind)
    (kind : SpecialistKind) :
    KindEnd context capabilities events kind (s.results kind) (s.failures kind) := by
  by_cases routed : kind ∈ (route context capabilities).selected
  · have trail := trail_of_selected (by decide : 0 < 2) run routed
    have clear : discoveryFailures capabilities kind = none := by
      rw [← Option.not_isSome_iff_eq_none, discoveryFailures_isSome]
      exact separate kind routed
    rw [clear] at trail
    exact kindEnd_of_trail trail (finished kind) routed
  · have slot := slot_of_unselected run routed
    have results : s.results kind = none := congrArg Slot.result slot
    have failures : s.failures kind = discoveryFailures capabilities kind := congrArg Slot.failure slot
    rw [results, failures]
    exact kindEnd_of_unrouted routed

/-- A branch is invoked at most twice, the second time after a transport failure. -/
def Bounded (events : List (SpecialistKind × Event (Option Timestamp) BranchEnd))
    (s : State SpecialistKind SpecialistAnalysisResult SpecialistFailure) :
    Prop :=
  ∀ kind, s.invoked kind ≤ 2 ∧
    (s.invoked kind = 2 → ∃ e, (ends (own kind events)).head? = some (.raised e) ∧ e.TransportFailure)

/-- No kind is invoked more than twice. -/
theorem bounded (run : runs context capabilities deadline events s) : Bounded events s := by
  intro kind
  by_cases routed : kind ∈ (route context capabilities).selected
  · obtain ⟨most, again⟩ := (trail_of_selected (by decide : 0 < 2) run routed).invoked
    refine ⟨most, fun twice => ?_⟩
    obtain ⟨o, first, verdict⟩ := again 0 (by change 0 < s.invoked kind - 1; omega)
    obtain ⟨-, e, rfl, transport⟩ := settleBranch_eq_again verdict
    exact ⟨e, List.head?_eq_getElem?.trans first, transport⟩
  · have none : s.invoked kind = 0 := congrArg Slot.invoked (slot_of_unselected run routed)
    rw [none]
    exact ⟨Nat.zero_le 2, nofun⟩

end Kinds

/-! ## The bundle -/

/-- The kinds of the results of a bundle. -/
def SpecialistAnalysisBundle.resultKinds (b : SpecialistAnalysisBundle) : List SpecialistKind :=
  b.results.map SpecialistAnalysisResult.specialist

/-- The kinds of its failures. -/
def SpecialistAnalysisBundle.failureKinds (b : SpecialistAnalysisBundle) : List SpecialistKind :=
  b.failures.map SpecialistFailure.specialist

/-- What a bundle has under a kind. -/
def SpecialistAnalysisBundle.entry (b : SpecialistAnalysisBundle) (kind : SpecialistKind) :
    Option SpecialistAnalysisResult × Option SpecialistFailure :=
  (b.results.find? fun r => r.specialist = kind, b.failures.find? fun f => f.specialist = kind)

/-- The results and the failures of a bundle are the routed kinds and those that failed discovery,
each in one place and in order. -/
structure Partitions (context : IncidentContext) (capabilities : CapabilitySet)
    (b : SpecialistAnalysisBundle) : Prop where
  results_ordered : b.resultKinds.Sublist SpecialistKind.order
  failures_ordered : b.failureKinds.Sublist SpecialistKind.order
  covered : ∀ kind, kind ∈ b.resultKinds ∨ kind ∈ b.failureKinds ↔
    kind ∈ (route context capabilities).selected ∨ capabilities.Failed kind
  disjoint : ∀ kind ∈ b.resultKinds, kind ∉ b.failureKinds
  failed : ∀ kind, capabilities.Failed kind → kind ∈ b.failureKinds
  stable : ∀ failure ∈ b.failures, Stable failure

/-- A result is one that the branch of its own kind returned, with observations. -/
def Returned (events : List (SpecialistKind × Event (Option Timestamp) BranchEnd))
    (r : SpecialistAnalysisResult) : Prop :=
  (r.analysis.specialist, Event.ended (.returned r)) ∈ events ∧ r.analysis.observations ≠ [] ∧
    r.analysis.status ≠ .FAILED

section Bundle

variable {context : IncidentContext} {capabilities : CapabilitySet} {deadline : Timestamp}
  {bundle bundle' : SpecialistAnalysisBundle}
  {events events' : List (SpecialistKind × Event (Option Timestamp) BranchEnd)}
  {s s' : State SpecialistKind SpecialistAnalysisResult SpecialistFailure}

/-- What is listed of a kind in the end. -/
def finalResults (s : State SpecialistKind SpecialistAnalysisResult SpecialistFailure)
    (kind : SpecialistKind) : Option SpecialistAnalysisResult :=
  (s.results kind).filter usable

def finalFailures (s : State SpecialistKind SpecialistAnalysisResult SpecialistFailure)
    (kind : SpecialistKind) : Option SpecialistFailure :=
  (((s.results kind).filter unusable).map SpecialistAnalysisResult.failure).or (s.failures kind)

theorem inOrder_none {κ α : Type} (order : List κ) : inOrder order (fun _ => (none : Option α)) = [] := by
  induction order with
  | nil => rfl
  | cons _ _ ih => exact ih

/-- What is filed for a kind carries its name, and a failure a stable code. -/
theorem KindEnd.mine {kind : SpecialistKind} {result : Option SpecialistAnalysisResult}
    {failure : Option SpecialistFailure} (h : KindEnd context capabilities events kind result failure) :
    (∀ r, result = some r → r.specialist = kind) ∧ ∀ f, failure = some f →
      f.specialist = kind ∧ Stable f := by
  cases h with
  | result r _ mine =>
    refine ⟨fun r' found => ?_, nofun⟩
    cases found
    exact mine
  | failure f _ mine stable =>
    refine ⟨nofun, fun f' found => ?_⟩
    cases found
    exact ⟨mine, stable⟩
  | absent => exact ⟨nofun, nofun⟩

/-- The bundle of a run that filed everything under its own kind. -/
theorem analyses_eq (run : runs context capabilities deadline events s)
    (own : Filed SpecialistAnalysisResult.specialist s.results)
    (filed : Filed SpecialistFailure.specialist s.failures)
    (stable : ∀ kind f, s.failures kind = some f → Stable f) :
    ∃ bundle, analyses context capabilities s = some bundle ∧
      bundle.results = inOrder SpecialistKind.order (finalResults s) ∧
      bundle.failures = inOrder SpecialistKind.order (finalFailures s) := by
  unfold analyses
  split
  · next none_routed =>
    have slots : ∀ kind, s.slot kind = ⟨.finished, 0, none, discoveryFailures capabilities kind⟩ :=
      fun kind =>
      slot_of_unselected run (by rw [none_routed]; exact List.not_mem_nil)
    have results : finalResults s = fun _ => none := by
      funext kind
      have none : s.results kind = none := congrArg Slot.result (slots kind)
      rw [finalResults, none, Option.filter_none]
    have failures : finalFailures s = discoveryFailures capabilities := by
      funext kind
      have none : s.results kind = none := congrArg Slot.result (slots kind)
      have same : s.failures kind = discoveryFailures capabilities kind := congrArg Slot.failure (slots kind)
      rw [finalFailures, none, same, Option.filter_none, Option.map_none, Option.none_or]
    rw [results, failures, inOrder_none]
    exact validate_inOrder fun kind failure found => (of_discoveryFailures found).2
  · obtain ⟨b, valid, rs, fs⟩ := @validate_inOrder s.failures (inOrder SpecialistKind.order s.results) stable
    rw [valid, Option.bind_some]
    exact normalize_inOrder rs fs own filed

theorem filed_of_ends (ends : ∀ kind,
      KindEnd context capabilities events kind (s.results kind) (s.failures kind)) :
    Filed SpecialistAnalysisResult.specialist s.results ∧ Filed SpecialistFailure.specialist s.failures ∧
      ∀ kind f, s.failures kind = some f → Stable f :=
  ⟨fun kind => (ends kind).mine.1, fun kind f found => ((ends kind).mine.2 f found).1,
    fun kind f found => ((ends kind).mine.2 f found).2⟩

/-- What is listed of a kind, case by case. -/
theorem KindEnd.final {kind : SpecialistKind}
    (h : KindEnd context capabilities events kind (s.results kind) (s.failures kind)) :
    (∃ r, finalResults s kind = some r ∧ finalFailures s kind = none ∧ r.specialist = kind ∧
      kind ∈ (route context capabilities).selected ∧
      ¬ r.analysis.Unusable ∧ Event.ended (.returned r) ∈ own kind events) ∨
    (∃ f, finalResults s kind = none ∧ finalFailures s kind = some f ∧ f.specialist = kind ∧ Stable f ∧
      (kind ∈ (route context capabilities).selected ∨ capabilities.Failed kind)) ∨
    (finalResults s kind = none ∧ finalFailures s kind = none ∧
      kind ∉ (route context capabilities).selected ∧ ¬ capabilities.Failed kind) := by
  unfold finalResults finalFailures
  generalize s.results kind = result at h ⊢
  generalize s.failures kind = failure at h ⊢
  cases h with
  | result r routed mine returned =>
    by_cases un : r.analysis.Unusable
    · refine .inr (.inl ⟨r.failure, ?_, ?_, mine, stable_stableFailure _ _, .inl routed⟩)
      · simp [Option.filter, usable, un]
      · simp [Option.filter, unusable, un]
    · refine .inl ⟨r, ?_, ?_, mine, routed, un, returned⟩
      · simp [Option.filter, usable, un]
      · simp [Option.filter, unusable, un]
  | failure f expected mine stable => exact .inr (.inl ⟨f, rfl, rfl, mine, stable, expected⟩)
  | absent unrouted unfailed => exact .inr (.inr ⟨rfl, rfl, unrouted, unfailed⟩)

/-- A kind is among the results of the bundle exactly if it has a final result. -/
theorem mem_resultKinds {kind : SpecialistKind}
    (results : bundle.results = inOrder SpecialistKind.order (finalResults s))
    (own : Filed SpecialistAnalysisResult.specialist (finalResults s)) : kind ∈ bundle.resultKinds ↔
      (finalResults s kind).isSome := by
  rw [SpecialistAnalysisBundle.resultKinds, results, map_inOrder own, List.mem_filter]
  exact and_iff_right (SpecialistKind.mem_order kind)

theorem mem_failureKinds {kind : SpecialistKind}
    (failures : bundle.failures = inOrder SpecialistKind.order (finalFailures s))
    (own : Filed SpecialistFailure.specialist (finalFailures s)) : kind ∈ bundle.failureKinds ↔
      (finalFailures s kind).isSome := by
  rw [SpecialistAnalysisBundle.failureKinds, failures, map_inOrder own, List.mem_filter]
  exact and_iff_right (SpecialistKind.mem_order kind)

/-- The final dictionaries file every entry under its own kind. -/
theorem filed_final (ends : ∀ kind,
      KindEnd context capabilities events kind (s.results kind) (s.failures kind)) :
    Filed SpecialistAnalysisResult.specialist (finalResults s) ∧
      Filed SpecialistFailure.specialist (finalFailures s) := by
  constructor
  · intro kind r found
    rcases (ends kind).final with ⟨r', hr, -, mine, -⟩ | ⟨f, hr, -⟩ | ⟨hr, -⟩
    · cases hr.symm.trans found
      exact mine
    · cases hr.symm.trans found
    · cases hr.symm.trans found
  · intro kind f found
    rcases (ends kind).final with ⟨_, -, hf, -⟩ | ⟨f', -, hf, mine, -⟩ | ⟨-, hf, -⟩
    · cases hf.symm.trans found
    · cases hf.symm.trans found
      exact mine
    · cases hf.symm.trans found

/-- The bundle partitions its kinds. -/
theorem partitions (ends : ∀ kind,
      KindEnd context capabilities events kind (s.results kind) (s.failures kind))
    (separate : ∀ kind ∈ (route context capabilities).selected, ¬ capabilities.Failed kind)
    (results : bundle.results = inOrder SpecialistKind.order (finalResults s))
    (failures : bundle.failures = inOrder SpecialistKind.order (finalFailures s)) :
    Partitions context capabilities bundle := by
  obtain ⟨ownResults, ownFailures⟩ := filed_final ends
  refine ⟨?_, ?_, fun kind => ?_, fun kind => ?_, fun kind failed => ?_, bundle.stable⟩
  · rw [SpecialistAnalysisBundle.resultKinds, results, map_inOrder ownResults]
    exact List.filter_sublist
  · rw [SpecialistAnalysisBundle.failureKinds, failures, map_inOrder ownFailures]
    exact List.filter_sublist
  · rw [mem_resultKinds results ownResults, mem_failureKinds failures ownFailures]
    rcases (ends kind).final with ⟨r, hr, hf, -, routed, -⟩ | ⟨f, hr, hf, -, -, expected⟩ |
      ⟨hr, hf, unrouted, unfailed⟩
    · simp [hr, routed]
    · simp [hf, expected]
    · simp [hr, hf, unrouted, unfailed]
  · rw [mem_resultKinds results ownResults, mem_failureKinds failures ownFailures]
    rcases (ends kind).final with ⟨r, hr, hf, -⟩ | ⟨f, hr, hf, -⟩ | ⟨hr, hf, -⟩
    · simp [hf]
    · simp [hr]
    · simp [hr]
  · rw [mem_failureKinds failures ownFailures]
    rcases (ends kind).final with ⟨r, -, -, -, routed, -⟩ | ⟨f, -, hf, -⟩ | ⟨-, -, -, unfailed⟩
    · exact absurd failed (separate kind routed)
    · rw [hf]
      rfl
    · exact absurd failed unfailed

theorem mem_of_own {kind : SpecialistKind} {e : Event (Option Timestamp) BranchEnd}
    (h : e ∈ own kind events) : (kind, e) ∈ events := by
  obtain ⟨event, filtered, rfl⟩ := List.mem_map.1 h
  obtain ⟨mem, same⟩ := List.mem_filter.1 filtered
  have here : event.1 = kind := of_decide_eq_true same
  rw [← here]
  exact mem

/-- Every result of the bundle was returned by its branch. -/
theorem returned (ends : ∀ kind, KindEnd context capabilities events kind (s.results kind) (s.failures kind))
    (results : bundle.results = inOrder SpecialistKind.order (finalResults s)) :
    ∀ r ∈ bundle.results, Returned events r := by
  intro r hr
  rw [results] at hr
  obtain ⟨kind, -, found⟩ := mem_inOrder.1 hr
  rcases (ends kind).final with ⟨r', hr', -, mine, -, un, event⟩ | ⟨_, hr', -⟩ | ⟨hr', -⟩
  · cases hr'.symm.trans found
    refine ⟨?_, fun none => un (.inr none), fun failed => un (.inl failed)⟩
    rw [show r.analysis.specialist = kind from mine]
    exact mem_of_own event
  · cases hr'.symm.trans found
  · cases hr'.symm.trans found

/-- The entry of a kind in the bundle is its final result and its final failure. -/
theorem entry_eq (ends : ∀ kind, KindEnd context capabilities events kind (s.results kind) (s.failures kind))
    (results : bundle.results = inOrder SpecialistKind.order (finalResults s))
    (failures : bundle.failures = inOrder SpecialistKind.order (finalFailures s)) (kind : SpecialistKind) :
    bundle.entry kind = (finalResults s kind, finalFailures s kind) := by
  obtain ⟨ownResults, ownFailures⟩ := filed_final ends
  rw [SpecialistAnalysisBundle.entry, results, failures, find?_inOrder ownResults SpecialistKind.mem_order,
    find?_inOrder ownFailures SpecialistKind.mem_order]

end Bundle

/-! ## Every run -/

section Runs

variable {lib : Libraries} {manifest : List (ManifestEntry lib)}
  {requiredBySpecialist : SpecialistKind → List String} {scope : Option CloudScope}
  {limit : Option Timestamp} {d : SpecialistKind → Discovering}

/-- A discovered specialist that is routed did not fail discovery. -/
theorem discovered_separate (context : IncidentContext) :
    ∀ kind ∈ (route context (discoverCapabilities scope manifest requiredBySpecialist limit d).1).selected,
      ¬ (discoverCapabilities scope manifest requiredBySpecialist limit d).1.Failed kind := by
  rintro kind routed ⟨failure, hfailure, rfl⟩
  exact tools_of_routed routed (tools_of_failure scope hfailure)

end Runs

/-- What a run of the workflow over discovered capabilities does: it bounds the invocations of every
branch, and once its tasks have ended it returns a partition of its kinds, in which the entry of a
kind is the same in every run with the same events of that kind; sorting a bundle again leaves it. -/
theorem specialist_kinds_partitioned {lib : Libraries} (scope : Option CloudScope)
    (manifest : List (ManifestEntry lib)) (requiredBySpecialist : SpecialistKind → List String)
    (limit : Option Timestamp) (d : SpecialistKind → Discovering) (context : IncidentContext)
    (deadline : Timestamp) {capabilities : CapabilitySet}
    (discovery : capabilities = (discoverCapabilities scope manifest requiredBySpecialist limit d).1)
    {events : List (SpecialistKind × Event (Option Timestamp) BranchEnd)}
    {s : State SpecialistKind SpecialistAnalysisResult SpecialistFailure}
    (run : runs context capabilities deadline events s) :
    Bounded events s ∧
    (s.Finished → ∃ bundle, analyses context capabilities s = some bundle ∧
      Partitions context capabilities bundle ∧
      (∀ r ∈ bundle.results, Returned events r) ∧
      ∀ events' s', runs context capabilities deadline events' s' → s'.Finished →
        ∀ bundle', analyses context capabilities s' = some bundle' →
        ∀ kind, own kind events = own kind events' → bundle.entry kind = bundle'.entry kind) ∧
    ∀ bundle, ∃ sorted, normalizeSpecialistAnalysisBundle bundle = some sorted ∧
      normalizeSpecialistAnalysisBundle sorted = some sorted := by
  have separate : ∀ kind ∈ (route context capabilities).selected, ¬ capabilities.Failed kind := by
    rw [discovery]
    exact discovered_separate context
  refine ⟨bounded run, fun finished => ?_, fun bundle => normalize_idempotent bundle⟩
  have ends := kindEnd run finished separate
  obtain ⟨own, filed, stable⟩ := filed_of_ends ends
  obtain ⟨bundle, eq, results, failures⟩ := analyses_eq run own filed stable
  refine ⟨bundle, eq, partitions ends separate results failures, returned ends results, ?_⟩
  intro events' s' run' finished' bundle' eq' kind same
  have ends' := kindEnd run' finished' separate
  obtain ⟨own', filed', stable'⟩ := filed_of_ends ends'
  obtain ⟨_, eq'', results', failures'⟩ := analyses_eq run' own' filed' stable'
  cases eq'.symm.trans eq''
  have slots : s.slot kind = s'.slot kind := isolated run run' rfl same
  have sameResult : s.results kind = s'.results kind := congrArg Slot.result slots
  have sameFailure : s.failures kind = s'.failures kind := congrArg Slot.failure slots
  rw [entry_eq ends results failures, entry_eq ends' results' failures', finalResults, finalFailures,
    finalResults, finalFailures, sameResult, sameFailure]

/-- Patterns that are plain names. -/
def plainNames : Libraries := ⟨fun _ => true, fun pattern name => pattern = name, fun _ => true, fun _ => ""⟩

def queryEntry (kind : SpecialistKind) (pattern : String)
    (capability_text : CapabilityText (kind.value ++ ".query")) (pattern_ne : pattern ≠ "") :
    ManifestEntry plainNames where
  endpointIdentity := kind
  capability := kind.value ++ ".query"
  toolNamePattern := pattern
  inputSchema := []
  capability_text := capability_text
  pattern_ne := pattern_ne
  pattern_compiles := rfl
  schema_checked := rfl

/-- A manifest with one entry for each kind. -/
def queryManifest : List (ManifestEntry plainNames) :=
  [queryEntry .METRICS "metrics_query" (by decide +kernel) (by decide),
    queryEntry .TRACE "trace_query" (by decide +kernel) (by decide),
    queryEntry .LOG "log_query" (by decide +kernel) (by decide)]

def connectionReset : Raised :=
  ⟨false, true, true, false, false, false, false, none, by decide, by decide, by decide, by decide, by decide⟩

/-- The metrics and log endpoints list their tool, the trace endpoint resets the connection. -/
def traceDown (kind : SpecialistKind) : Discovering :=
  ⟨0, .ok (), 0, if kind = .TRACE then .error connectionReset
    else .ok (some [⟨kind.value ++ "_query", [], [("readOnlyHint", .bool true)], by cases kind <;> decide⟩])⟩

def queried : SpecialistKind → List String := fun kind => [kind.value ++ ".query"]

def shopScope : CloudScope := ⟨.GCP, "shop", true, by decide⟩

def slowCheckout : IncidentContext := ⟨1, 2, "slow checkout", some shopScope, 0, 10, by decide, by decide⟩

def twoListed : CapabilitySet :=
  (discoverCapabilities (some shopScope) queryManifest queried none traceDown).1

def latencyFinding : SpecialistAnalysisResult :=
  ⟨⟨.METRICS, .COMPLETE, [⟨"latency doubled", .finite 1, .SUPPORTS, [⟨7⟩]⟩], []⟩, [⟨7⟩]⟩

def noLogs : SpecialistAnalysisResult := ⟨⟨.LOG, .PARTIAL, [], [.ANALYSIS_INPUT_TRUNCATED]⟩, []⟩

/-- The metrics branch loses its connection and is invoked again, while the log branch finds nothing. -/
def interleaved : List (SpecialistKind × Event (Option Timestamp) BranchEnd) :=
  [(.METRICS, .reading (some 0)), (.LOG, .reading (some 0)), (.METRICS, .ended (.raised connectionReset)),
    (.LOG, .ended (.returned noLogs)),
    (.METRICS, .reading (some 1)), (.METRICS, .ended (.returned latencyFinding))]

/-- The run has finished once the three tasks have. -/
theorem finished_of_tasks {ρ φ : Type} {s : State SpecialistKind ρ φ}
    (h : SpecialistKind.order.map s.tasks = [.finished, .finished, .finished]) : s.Finished := by
  simp only [SpecialistKind.order, List.map_cons, List.map_nil, List.cons.injEq] at h
  intro kind
  cases kind
  · exact h.1
  · exact h.2.1
  · exact h.2.2.1

/-- The bundle of the interleaved run has one result and two failures, and metrics was invoked
twice. -/
theorem interleaved_partitioned : ∃ s, runs slowCheckout twoListed 100 interleaved s ∧
      Bounded interleaved s ∧ s.invoked .METRICS = 2 ∧
    ∃ bundle, analyses slowCheckout twoListed s = some bundle ∧ Partitions slowCheckout twoListed bundle ∧
      bundle.resultKinds = [.METRICS] ∧ bundle.failureKinds = [.TRACE, .LOG] := by
  have ended : ((tasks (invoke 100)).exec (startAnalyses slowCheckout twoListed) interleaved).map (fun s =>
      (SpecialistKind.order.map s.tasks, s.invoked .METRICS,
        (analyses slowCheckout twoListed s).map fun b => (b.resultKinds, b.failureKinds))) =
      some ([.finished, .finished, .finished], 2, some ([.METRICS], [.TRACE, .LOG])) := by
    decide +kernel
  obtain ⟨s, run, observed⟩ := Option.map_eq_some_iff.1 ended
  obtain ⟨tasks, invoked, kinds⟩ : _ ∧ _ ∧ _ := by simpa only [Prod.mk.injEq] using observed
  have finished : s.Finished := finished_of_tasks tasks
  have discovery : twoListed =
      (discoverCapabilities (some shopScope) queryManifest queried none traceDown).1 := rfl
  obtain ⟨bound, partition, -⟩ :=
    specialist_kinds_partitioned (some shopScope) queryManifest queried none traceDown slowCheckout 100
      discovery run
  obtain ⟨bundle, eq, parts, -⟩ := partition finished
  rw [eq] at kinds
  simp only [Option.map_some, Option.some.injEq, Prod.mk.injEq] at kinds
  exact ⟨s, run, bound, invoked, bundle, eq, parts, kinds⟩

end SreAgent.Rca
