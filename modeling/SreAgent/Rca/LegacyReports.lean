import SreAgent.Rca.Legacy
import SreAgent.Rca.Partition

/-!
# Complete reports without specialist analyses

A complete report is downgraded where a specialist failed. What a specialist reports missing is not
looked at, so a report over part of the evidence stays complete.
-/

namespace SreAgent.Rca
open Base Retries Slots

/-! ## The kinds of a run -/

/-- What a finished run has filed under a kind. -/
inductive InvestigationEnd (context : IncidentContext) (capabilities : CapabilitySet)
    (events : List (SpecialistKind × Event Timestamp LegacyEnd)) (kind : SpecialistKind) :
    Option SpecialistResult → Option SpecialistFailure → Prop where
  | returned (result : SpecialistResult) (routed : kind ∈ (route context capabilities).selected)
      (ended : Event.ended (.returned result) ∈ own kind events) :
      InvestigationEnd context capabilities events kind (some result) (discoveryFailures capabilities kind)
  | failed (failure : SpecialistFailure) (routed : kind ∈ (route context capabilities).selected) :
      InvestigationEnd context capabilities events kind none (some failure)
  | unrouted (unrouted : kind ∉ (route context capabilities).selected) :
      InvestigationEnd context capabilities events kind none (discoveryFailures capabilities kind)

/-- Every endpoint was listed, and every specialist that was routed returned a result without missing
evidence. -/
structure AllCollected (context : IncidentContext) (capabilities : CapabilitySet)
    (s : State SpecialistKind SpecialistResult SpecialistFailure) :
    Prop where
  discovered : ∀ kind, ¬ capabilities.Failed kind
  collected : ∀ kind ∈ (route context capabilities).selected, s.failures kind = none ∧
    ∃ result, s.results kind = some result ∧ result.missingEvidence = []

section Kinds

variable {context : IncidentContext} {capabilities : CapabilitySet} {deadline : Timestamp}
  {kind : SpecialistKind}
  {events : List (SpecialistKind × Event Timestamp LegacyEnd)}
  {s : State SpecialistKind SpecialistResult SpecialistFailure}

/-- A specialist is run again after its first attempt only. -/
theorem settleSpecialist_eq_again {attempt : Nat} {o : LegacyEnd}
    (h : settleSpecialist kind attempt o = .again) : attempt = 0 := by
  cases o with
  | returned result => cases h
  | raised e =>
    unfold settleSpecialist at h
    dsimp only at h
    split at h
    · next again =>
      unfold legacyCode at again
      split_ifs at again with first
      exact first.2
    · cases h

/-- A result is filed only if the specialist returned it. -/
theorem settleSpecialist_eq_filed {attempt : Nat} {o : LegacyEnd} {result : SpecialistResult}
    (h : settleSpecialist kind attempt o = .filed result) :
    o = .returned result := by
  cases o with
  | returned result' =>
    cases h
    rfl
  | raised e =>
    unfold settleSpecialist at h
    dsimp only at h
    split at h <;> cases h

/-- When the graph has finished, what a specialist filed is the end of its own investigation. -/
theorem investigationEnd (run : investigates context capabilities deadline events s) (finished : s.Finished)
    (kind : SpecialistKind) :
    InvestigationEnd context capabilities events kind (s.results kind) (s.failures kind) := by
  by_cases routed : kind ∈ (route context capabilities).selected
  · have trail := trail_of_selected (by decide : 0 < 2) run routed
    have finished : (s.slot kind).task = .finished := finished kind
    change InvestigationEnd context capabilities events kind (s.slot kind).result (s.slot kind).failure
    generalize s.slot kind = slot at trail finished
    cases trail with
    | waiting => cases finished
    | running => cases finished
    | refused n now failure within again read refusal => exact .failed failure routed
    | filed n o result within again ended verdict =>
      cases settleSpecialist_eq_filed verdict
      exact .returned result routed ended
    | failed n o failure within again ended verdict => exact .failed failure routed
    | exhausted n o last again ended verdict =>
      have first : n = 0 := settleSpecialist_eq_again verdict
      subst first
      cases last
  · have slot := slot_of_unselected run routed
    have results : s.results kind = none := congrArg Slot.result slot
    have failures : s.failures kind = discoveryFailures capabilities kind := congrArg Slot.failure slot
    rw [results, failures]
    exact .unrouted routed

/-- A specialist without a result or a failure was not routed. -/
theorem routed_cases (run : investigates context capabilities deadline events s) (finished : s.Finished)
    (routed : kind ∈ (route context capabilities).selected) (unfailed : s.failures kind = none) :
    ∃ result, s.results kind = some result ∧ Event.ended (.returned result) ∈ own kind events := by
  have ended := investigationEnd run finished kind
  generalize s.results kind = results at ended ⊢
  rw [unfailed] at ended
  generalize hfailure : (none : Option SpecialistFailure) = none' at ended
  cases ended with
  | returned result routed ended => exact ⟨result, rfl, ended⟩
  | failed failure routed => cases hfailure
  | unrouted unrouted => exact absurd routed unrouted

theorem mem_kinds {α : Type} {d : SpecialistKind → Option α} {a : α} : a ∈ inOrder SpecialistKind.order d ↔
      ∃ kind, d kind = some a :=
  mem_inOrder.trans ⟨fun ⟨kind, _, found⟩ => ⟨kind, found⟩,
    fun ⟨kind, found⟩ => ⟨kind, SpecialistKind.mem_order kind, found⟩⟩

theorem kinds_eq_nil {α : Type} {d : SpecialistKind → Option α} : inOrder SpecialistKind.order d = [] ↔
      ∀ kind, d kind = none := by
  rw [List.eq_nil_iff_forall_not_mem]
  simp only [mem_kinds, not_exists]
  exact ⟨fun h kind => Option.eq_none_iff_forall_ne_some.2 fun a found => h a kind found,
    fun h a kind found => by cases (h kind).symm.trans found⟩

/-- The bundle of a finished run lists what was filed. -/
theorem investigation_eq (run : investigates context capabilities deadline events s) :
    investigation context capabilities s =
      ⟨inOrder SpecialistKind.order s.results, inOrder SpecialistKind.order s.failures⟩ := by
  unfold investigation
  split
  · next none_ =>
    have slots : ∀ kind, s.slot kind = ⟨.finished, 0, none, discoveryFailures capabilities kind⟩ := by
      intro kind
      exact slot_of_unselected run (by rw [none_]; exact List.not_mem_nil)
    have results : inOrder SpecialistKind.order s.results = [] :=
      kinds_eq_nil.2 fun kind => congrArg Slot.result (slots kind)
    have failures : s.failures = discoveryFailures capabilities :=
      funext fun kind => congrArg Slot.failure (slots kind)
    rw [results, failures]
  · rfl

/-- Everything was collected exactly if the bundle has no failure and no result with missing evidence. -/
theorem allCollected_iff (run : investigates context capabilities deadline events s) (finished : s.Finished) :
    AllCollected context capabilities s ↔ (investigation context capabilities s).failures = [] ∧
      ∀ result ∈ (investigation context capabilities s).results, result.missingEvidence = [] := by
  rw [investigation_eq run, kinds_eq_nil]
  constructor
  · intro all
    have clear : ∀ kind, discoveryFailures capabilities kind = none := by
      intro kind
      rw [← Option.not_isSome_iff_eq_none, discoveryFailures_isSome]
      exact all.discovered kind
    constructor
    · intro kind
      by_cases routed : kind ∈ (route context capabilities).selected
      · exact (all.collected kind routed).1
      · exact (congrArg Slot.failure (slot_of_unselected run routed)).trans (clear kind)
    · intro result hresult
      obtain ⟨kind, found⟩ := mem_kinds.1 hresult
      have routed : kind ∈ (route context capabilities).selected := by
        by_contra unrouted
        cases found.symm.trans (congrArg Slot.result (slot_of_unselected run unrouted))
      obtain ⟨-, result', found', none_⟩ := all.collected kind routed
      cases found.symm.trans found'
      exact none_
  · rintro ⟨unfailed, complete⟩
    refine ⟨fun kind failed => ?_, fun kind routed => ⟨unfailed kind, ?_⟩⟩
    · have filed := discoveryFailures_isSome.2 failed
      have ended := investigationEnd run finished kind
      rw [unfailed kind] at ended
      generalize s.results kind = results at ended
      generalize hfailure : (none : Option SpecialistFailure) = none' at ended
      cases ended with
      | returned | unrouted =>
        rw [← hfailure] at filed
        cases filed
      | failed failure routed => cases hfailure
    · obtain ⟨result, found, -⟩ := routed_cases run finished routed (unfailed kind)
      exact ⟨result, found, complete result (mem_kinds.2 ⟨kind, found⟩)⟩

end Kinds

/-! ## The report of a run -/

/-- The root agent claims completeness: over the evidence that was stored it returns a complete
report, which can be stored. -/
def ClaimsComplete (setting : ProcessorSetting) (bundle : InvestigationBundle) (p : Processing)
    (t : EvidenceTables) : Prop :=
  p.failuresStored = true ∧ ∃ references summaries report,
    (persistBundle setting.rcaRunId p.answers bundle.results t).1 = .ok (references, summaries) ∧
      references ≠ [] ∧
    setting.rootAgent.synthesizeLegacy setting.reader setting.context.alertIssue summaries references
      setting.deadline p.attempts = .ok report ∧
    report.status = .COMPLETE ∧ p.reportStored report = true

section Report

variable {setting : ProcessorSetting} {bundle : InvestigationBundle} {p : Processing} {t : EvidenceTables}
  {report : RcaReportDraft}

/-- A report that is persisted as complete is one of a run, not of a failure of the root agent. -/
theorem of_persistedReport {outcome : Except ProcessorFault ProcessorRunOutcome}
    (h : persistedReport p outcome = some report) (complete : report.status = .COMPLETE) :
    ∃ code, outcome = .ok ⟨report, code⟩ ∧ p.reportStored report = true := by
  unfold persistedReport processed at h
  split at h
  · next outcome' eq =>
    split at h
    · next stored =>
      cases h
      split at eq
      · next outcome =>
        cases eq
        exact ⟨outcome'.failureCode, rfl, stored⟩
      · cases eq
        cases complete
      · cases eq
        cases complete
      · cases eq
        cases complete
      · cases eq
    · cases h
  · cases h

/-- The report over a bundle is complete exactly if none failed, there are references, and the root
agent says so. -/
theorem legacyReport_complete {attempts : Nat → ModelAttempt} {references : List EvidenceReference}
    {summaries : List EvidenceSummary} :
    (legacyReport setting bundle attempts references summaries = .ok report ∧ report.status = .COMPLETE) ↔
      bundle.failures = [] ∧ references ≠ [] ∧ report.status = .COMPLETE ∧
        setting.rootAgent.synthesizeLegacy setting.reader setting.context.alertIssue summaries references
          setting.deadline attempts = .ok report := by
  unfold legacyReport
  by_cases none_ : references = []
  · rw [if_pos none_]
    constructor
    · rintro ⟨made, complete⟩
      cases made
      split at complete <;> cases complete
    · rintro ⟨-, some_, -⟩
      exact absurd none_ some_
  · rw [if_neg none_]
    generalize setting.rootAgent.synthesizeLegacy setting.reader setting.context.alertIssue summaries
      references setting.deadline attempts = answer
    cases answer with
    | error e => exact ⟨nofun, nofun⟩
    | ok draft =>
      constructor
      · rintro ⟨made, complete⟩
        cases made
        by_cases failed : bundle.failures ≠ []
        · dsimp only at complete
          rw [if_pos failed] at complete
          exact absurd complete RcaSynthesizer.withSpecialistFailures_status
        · dsimp only at complete ⊢
          rw [if_neg failed] at complete ⊢
          exact ⟨not_not.1 failed, none_, complete, rfl⟩
      · rintro ⟨unfailed, -, complete, made⟩
        cases made
        refine ⟨?_, complete⟩
        show Except.ok (if bundle.failures ≠ [] then RcaSynthesizer.withSpecialistFailures report
          else report) = .ok report
        rw [if_neg (not_not_intro unfailed)]

/-- A run persists a complete report exactly if no specialist failed and the root agent claims
completeness. -/
theorem persists_complete_iff :
    (∃ report, persistedReport p (runLegacy setting bundle p t).1 = some report ∧ report.status = .COMPLETE) ↔
    bundle.failures = [] ∧ ClaimsComplete setting bundle p t := by
  unfold runLegacy ClaimsComplete
  constructor
  · rintro ⟨report, persisted, complete⟩
    obtain ⟨code, eq, stored⟩ := of_persistedReport persisted complete
    split at eq
    · cases eq
    · next failuresStored =>
      split at eq
      · cases eq
      · split at eq
        · cases eq
        · next references summaries t' hbundle =>
          split at eq
          · cases eq
          · next report' made =>
            cases eq
            obtain ⟨unfailed, some_, -, answered⟩ := legacyReport_complete.1 ⟨made, complete⟩
            exact ⟨unfailed, by simpa using failuresStored, references, summaries, report, by rw [hbundle],
              some_, answered, complete, stored⟩
  · rintro ⟨unfailed, failuresStored, references, summaries, report, hbundle, some_, answered,
      complete, stored⟩
    obtain ⟨made, -⟩ := legacyReport_complete.2 ⟨unfailed, some_, complete, answered⟩
    have retried : ¬ RetryableTotalFailure bundle setting.attemptNumber := fun retry => retry.2.2.1 unfailed
    refine ⟨report, ?_, complete⟩
    rw [if_neg (by rw [failuresStored]; exact Bool.noConfusion), if_neg retried]
    generalize persistBundle setting.rcaRunId p.answers bundle.results t = persisted at hbundle ⊢
    obtain ⟨outcome, t'⟩ := persisted
    cases hbundle
    dsimp only
    rw [made]
    exact if_pos stored

end Report

/-- A complete report of a run is one over evidence that was all collected, unless a specialist
reported missing evidence, none failed and the root agent claims completeness. -/
theorem legacy_complete_iff {setting : ProcessorSetting} {capabilities : CapabilitySet} {p : Processing}
    {t : EvidenceTables} {deadline : Timestamp} {events : List (SpecialistKind × Event Timestamp LegacyEnd)}
    {s : State SpecialistKind SpecialistResult SpecialistFailure}
    (run : investigates setting.context capabilities deadline events s) (finished : s.Finished) :
    (∀ report, persistedReport p (runLegacy setting (investigation setting.context capabilities s) p t).1 =
      some report →
      report.status = .COMPLETE → AllCollected setting.context capabilities s) ↔
    ¬ ((∃ result ∈ (investigation setting.context capabilities s).results, result.missingEvidence ≠ []) ∧
      (investigation setting.context capabilities s).failures = [] ∧
      ClaimsComplete setting (investigation setting.context capabilities s) p t) := by
  rw [allCollected_iff run finished]
  constructor
  · rintro sound ⟨⟨result, hresult, missing⟩, unfailed, claims⟩
    obtain ⟨report, persisted, complete⟩ := persists_complete_iff.2 ⟨unfailed, claims⟩
    exact missing ((sound report persisted complete).2 result hresult)
  · intro looked report persisted complete
    obtain ⟨unfailed, claims⟩ := persists_complete_iff.1 ⟨report, persisted, complete⟩
    refine ⟨unfailed, fun result hresult => ?_⟩
    by_contra missing
    exact looked ⟨⟨result, hresult, missing⟩, unfailed, claims⟩

/-! ## A report that overlooks the logs -/

/-- A tool of each of two endpoints. -/
def twoRouted : CapabilitySet :=
  ⟨[(.METRICS, [⟨"metrics_query", "metrics.query", .METRICS, .obj []⟩]),
    (.LOG, [⟨"log_query", "log.query", .LOG, .obj []⟩])], []⟩

/-- The metrics endpoint answers, the input of the log tool is not supported. -/
def twoReturned : List (SpecialistKind × Event Timestamp LegacyEnd) :=
  [(.METRICS, .reading 0), (.LOG, .reading 0),
    (.LOG, .ended
      (.returned ((⟨.LOG, 1024, by decide⟩ : McpSpecialist).result [] ["UNSUPPORTED_TOOL_INPUT"]))),
    (.METRICS, .ended (.returned ((⟨.METRICS, 1024, by decide⟩ : McpSpecialist).result [latencyDraft] [])))]

/-- A complete report that cites the metrics. -/
def latencyReport : RcaReportDraft where
  status := .COMPLETE
  summaryZhTw := "延遲加倍"
  hypotheses :=
    [⟨"latency doubled", .finite 1, [⟨"latency doubled", .SUPPORTS, [⟨7⟩], by decide, by decide⟩],
      by decide, by decide, by decide⟩]
  missingEvidence := []
  remediation := []
  verificationSteps := []
  summary_ne := by decide
  complete_cited := fun _ => ⟨List.cons_ne_nil _ _, rfl⟩
  failed_bare := nofun

/-- The text of the report. -/
def latencyReportText : String :=
  JsonText.dumps ⟨false, false, fun _ => "1.0"⟩
    (.obj [("status", .str "COMPLETE"), ("summary_zh_tw", .str "延遲加倍"),
    ("hypotheses", .arr [.obj [("statement", .str "latency doubled"), ("confidence", .float (.finite 1)),
      ("claims", .arr [.obj [("statement", .str "latency doubled"), ("relation", .str "SUPPORTS"),
        ("evidence", .arr [(⟨7⟩ : EvidenceReference).payload])]])]]),
    ("missing_evidence", .arr []), ("remediation", .arr []), ("verification_steps", .arr [])])

/-- A setting whose root model may answer with the report. -/
def latencySetting : ProcessorSetting where
  rcaRunId := 2
  attemptNumber := 1
  deadline := 100
  context := slowCheckout
  reader :=
    ⟨⟨4300, 1000, fun _ => .nan⟩, fun _ => "1.0", fun text => if text = latencyReportText
      then some latencyReport else none, fun _ => none⟩
  rootAgent := ⟨1, Nat.le_refl 1⟩

/-- The root model answers at once, and everything is stored. -/
def answersComplete : Processing where
  failuresStored := true
  answers := ⟨fun _ => 1, fun _ => 7, false, false⟩
  attempts _ :=
    ⟨some 0, .ok (), some 0, .ok (), [⟨true, some [⟨some latencyReportText, false⟩]⟩], .ok (), .ok (),
      ⟨[], false⟩⟩
  reportStored _ := true

/-- The workflow finishes, with the logs missing, and the report is complete. -/
theorem two_returned : ∃ s, investigates slowCheckout twoRouted 100 twoReturned s ∧ s.Finished ∧
    (investigation slowCheckout twoRouted s).results.map SpecialistResult.missingEvidence =
      [[], ["UNSUPPORTED_TOOL_INPUT"]] ∧
    (persistedReport answersComplete
      (runLegacy latencySetting (investigation slowCheckout twoRouted s) answersComplete ⟨[], []⟩).1).map
      RcaReportDraft.status = some .COMPLETE := by
  have ended :
    ((tasks (invokeSpecialist 100)).exec (startInvestigation slowCheckout twoRouted) twoReturned).map
    (fun s =>
      (SpecialistKind.order.map s.tasks,
        (investigation slowCheckout twoRouted s).results.map SpecialistResult.missingEvidence,
        (persistedReport answersComplete
          (runLegacy latencySetting (investigation slowCheckout twoRouted s) answersComplete ⟨[], []⟩).1).map
          RcaReportDraft.status)) =
      some ([.finished, .finished, .finished], [[], ["UNSUPPORTED_TOOL_INPUT"]], some .COMPLETE) := by
    decide +kernel
  obtain ⟨s, run, observed⟩ := Option.map_eq_some_iff.1 ended
  obtain ⟨tasks, missing, status⟩ : _ ∧ _ ∧ _ := by simpa only [Prod.mk.injEq] using observed
  exact ⟨s, run, finished_of_tasks tasks, missing, status⟩

/-- The condition decides what the complete report of this run is worth. -/
theorem two_returned_iff : ∃ s, investigates slowCheckout twoRouted 100 twoReturned s ∧ s.Finished ∧
    ((∀ report, persistedReport answersComplete
        (runLegacy latencySetting (investigation slowCheckout twoRouted s) answersComplete ⟨[], []⟩).1 =
        some report → report.status = .COMPLETE → AllCollected slowCheckout twoRouted s) ↔
      ¬ ((∃ result ∈ (investigation slowCheckout twoRouted s).results, result.missingEvidence ≠ []) ∧
        (investigation slowCheckout twoRouted s).failures = [] ∧
        ClaimsComplete latencySetting (investigation slowCheckout twoRouted s) answersComplete ⟨[],
          []⟩)) := by
  obtain ⟨s, run, finished, -⟩ := two_returned
  have at_setting : investigates latencySetting.context twoRouted 100 twoReturned s := run
  exact ⟨s, run, finished, legacy_complete_iff at_setting finished⟩

/-- The report of this run is complete although not all was collected. -/
theorem missing_evidence_overlooked : ∃ s, investigates slowCheckout twoRouted 100 twoReturned s ∧
      s.Finished ∧
    ¬ ∀ report,
      persistedReport answersComplete (runLegacy latencySetting (investigation slowCheckout twoRouted s)
      answersComplete ⟨[], []⟩).1 =
      some report → report.status = .COMPLETE → AllCollected slowCheckout twoRouted s := by
  obtain ⟨s, run, finished, missing, status⟩ := two_returned
  obtain ⟨report, persisted, complete⟩ := Option.map_eq_some_iff.1 status
  refine ⟨s, run, finished, fun sound => ?_⟩
  have none_ := ((allCollected_iff run finished).1 (sound report persisted complete)).2
  have last : ["UNSUPPORTED_TOOL_INPUT"] ∈ (investigation slowCheckout twoRouted s).results.map
      SpecialistResult.missingEvidence := by
    rw [missing]
    decide
  obtain ⟨result, hresult, some_⟩ := List.mem_map.1 last
  cases some_.symm.trans (none_ result hresult)

end SreAgent.Rca
