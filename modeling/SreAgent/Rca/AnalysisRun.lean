import SreAgent.Rca.Legacy
import SreAgent.Rca.Partition

/-!
# The processor with specialist analyses

`_run_specialist_analysis` sorts what the workflow returned, stores each analysis in a transaction of its
own, which rejects one whose evidence is not its own, and asks the root agent for a report over the
analyses that are stored: by their summaries in the mode SHADOW, by the analyses in the mode ACTIVE.
-/

namespace SreAgent.Rca
open Base Retries Slots Lifecycle EvidenceToolSession

/-! ## A branch -/

/-- A call of `_invoke_specialist_branch`: the tables it finds, its session, the analysis that its
agent returns, where it does, and the exception that it raises otherwise. -/
structure BranchCall where
  found : Branch
  attempt : Attempt
  analysis : Option AnalysisFields
  exception : Raised

/-- `_invoke_specialist_branch`, with the tables it leaves. -/
def BranchCall.invoke (checks : Checks) (c : BranchCall) : BranchEnd × Branch :=
  match openBranch c.attempt.config c.found c.attempt.opening with
  | (.returned id, b, _) =>
    let after := sessionEnd checks (c.attempt.session id) b c.attempt.exchanges
    match c.analysis with
    | some analysis => (.returned ⟨analysis, knownEvidence after⟩, after)
    | none => (.raised c.exception, after)
  | (_, b, _) => (.raised c.exception, b)

/-! ## Audits -/

/-- What the settings, the skills and the mode contribute. -/
structure AnalysisSetting extends ProcessorSetting where
  mode : SpecialistAnalysisMode
  modelName : String
  skillName : SpecialistKind → String
  skillSha256 : SpecialistKind → String

/-- What happens after the workflow: the audits and the other transactions that the database
interrupts, the attempts of the root agent, and the reports that can be stored. -/
structure AnalysisProcessing where
  interrupted : SpecialistKind → Bool
  failuresStored : Bool
  attempts : Nat → ModelAttempt
  reportStored : RcaReportDraft → Bool

section Processor

variable (setting : AnalysisSetting) (p : AnalysisProcessing) (t : EvidenceTables)

/-- The transaction that stores an analysis. -/
def audit (result : SpecialistAnalysisResult) : Except UpsertError (SpecialistRun × AnalysisColumns) :=
  if p.interrupted result.specialist = true then .error .database
  else
    upsertSpecialistAnalysis t.specialistRuns t.records setting.rcaRunId result.specialist result.analysis
      setting.modelName
      (setting.skillName result.specialist) (setting.skillSha256 result.specialist)

/-- `_persist_specialist_analyses`. -/
def persistSpecialistAnalyses : List SpecialistAnalysisResult →
    Except ProcessorFault (List SpecialistAnalysisResult × List SpecialistFailure)
  | [] => .ok ([], [])
  | result :: results =>
    match audit setting p t result with
    | .error .database => .error .database
    | .error .ownership =>
      (persistSpecialistAnalyses results).map fun rest =>
        (rest.1, stableFailure result.specialist .ANALYSIS_UNKNOWN_EVIDENCE :: rest.2)
    | .ok _ => (persistSpecialistAnalyses results).map fun rest => (result :: rest.1, rest.2)

/-- `_ordered_analysis_bundle`. -/
def orderedAnalysisBundle (results : List SpecialistAnalysisResult) (failures : List SpecialistFailure) :
    Option SpecialistAnalysisBundle :=
  SpecialistAnalysisBundle.validate
    (inOrder SpecialistKind.order (file SpecialistAnalysisResult.specialist results fun _ => none))
    (inOrder SpecialistKind.order (file SpecialistFailure.specialist failures fun _ => none))

/-! ## Reports -/

/-- `_known_evidence`: every reference once, where it is first. -/
def knownReferences (results : List SpecialistAnalysisResult) : List EvidenceReference :=
  (results.flatMap SpecialistAnalysisResult.knownEvidence).eraseDups

/-- `_legacy_summaries`. -/
def legacySummaries (results : List SpecialistAnalysisResult) : List EvidenceSummary :=
  results.flatMap fun result => result.knownEvidence.map fun reference =>
    ⟨result.specialist, result.specialist.value ++ " MCP 回傳可用觀測資料", .finite (1 / 2), reference⟩

/-- `_ANALYSIS_FAILURE_CODES`. -/
def analysisFailureCodes : List (String × LifecycleFailureCode) :=
  [("MCP_TIMEOUT", .MCP_TIMEOUT), ("MCP_TRANSPORT", .MCP_TRANSPORT),
    ("MCP_PAYLOAD_TOO_LARGE", .MCP_PAYLOAD_TOO_LARGE),
    ("MCP_RESULT_INVALID", .MCP_RESULT_INVALID), ("ANALYSIS_TIMEOUT", .ANALYSIS_TIMEOUT),
    ("ANALYSIS_SCHEMA_INVALID", .ANALYSIS_SCHEMA_INVALID),
    ("ANALYSIS_UNKNOWN_EVIDENCE", .ANALYSIS_UNKNOWN_EVIDENCE),
    ("ANALYSIS_INPUT_TRUNCATED", .ANALYSIS_INPUT_TRUNCATED), ("ANALYSIS_FAILED", .ANALYSIS_FAILED),
    ("NO_SAFE_MCP_CAPABILITY", .NO_SAFE_MCP_CAPABILITY)]

/-- `_raise_if_retryable_analysis_total_failure`. -/
def RetryableAnalysisFailure (bundle : SpecialistAnalysisBundle) (attemptNumber : Nat) : Prop :=
  attemptNumber < 3 ∧ bundle.results = [] ∧ bundle.failures ≠ [] ∧ ∀ failure ∈ bundle.failures,
    failure.code = "MCP_TRANSPORT"

instance (bundle : SpecialistAnalysisBundle) (attemptNumber : Nat) :
    Decidable (RetryableAnalysisFailure bundle attemptNumber) := by
  unfold RetryableAnalysisFailure
  infer_instance

/-- The prompts that the root agent puts over the results, and its report: `synthesize_legacy` or
`synthesize`. -/
def rootTranscript (results : List SpecialistAnalysisResult) : Transcript String ModelFault RcaReportDraft :=
  let references := knownReferences results
  let synthesizePrompt := fun payload known => setting.rootAgent.synthesizePrompt setting.reader
    (JsonText.dumps setting.reader.options (.obj payload)) known setting.deadline p.attempts
  if setting.mode = .SHADOW then synthesizePrompt
    (legacyPayload setting.context.alertIssue (legacySummaries results) references) references
  else
    match canonicalActiveInputs (results.map fun result => .fields result.analysis)
        (references.map .reference) with
    | .error _ => ⟨[], .error (.rootFailure .VALIDATION_FAILED)⟩
    | .ok (canonicalAnalyses, canonicalKnown) =>
      let asked :=
        synthesizePrompt (activePayload setting.context.alertIssue canonicalAnalyses canonicalKnown)
          canonicalKnown
      ⟨asked.asked, asked.outcome.map fun draft => RcaSynthesizer.withIncompleteSpecialistAnalyses draft
        canonicalAnalyses⟩

/-- What `rootTranscript` returns is what the root agent does. -/
theorem rootTranscript_outcome (results : List SpecialistAnalysisResult) :
    (rootTranscript setting p results).outcome =
    if setting.mode = .SHADOW then
      setting.rootAgent.synthesizeLegacy setting.reader setting.context.alertIssue (legacySummaries results)
        (knownReferences results) setting.deadline p.attempts
    else setting.rootAgent.synthesize setting.reader setting.context.alertIssue (results.map
      SpecialistAnalysisResult.analysis)
      (knownReferences results) setting.deadline p.attempts := by
  unfold rootTranscript
  dsimp only
  by_cases shadow : setting.mode = .SHADOW
  · rw [if_pos shadow, if_pos shadow]
    rfl
  · rw [if_neg shadow, if_neg shadow]
    have same : results.map (fun result => AnalysisObject.fields result.analysis) =
        (results.map SpecialistAnalysisResult.analysis).map .fields := List.map_map.symm
    unfold RcaAgent.synthesize
    rw [same]
    generalize canonicalActiveInputs ((results.map SpecialistAnalysisResult.analysis).map .fields) _ =
      canonical
    cases canonical <;> rfl

/-- The report over the analyses that are stored, with the prompts it took. -/
def analysisReport (bundle : SpecialistAnalysisBundle) : Transcript String ModelFault ProcessorRunOutcome :=
  if bundle.results.filter (fun result => result.analysis.observations ≠ []) = [] then
    if bundle.failures ≠ [] ∨ bundle.results ≠ [] then
      ⟨[], .ok ⟨RcaSynthesizer.failedAnalysis, terminalFailureCode bundle.failures analysisFailureCodes⟩⟩
    else ⟨[], .ok ⟨RcaSynthesizer.insufficientEvidence (setting.context.scope.map CloudScope.provider), none⟩⟩
  else
    let root := rootTranscript setting p bundle.results
    let incomplete : Prop :=
      bundle.failures ≠ [] ∨ ∃ result ∈ bundle.results, result.analysis.status ≠ .COMPLETE
    ⟨root.asked, root.outcome.map fun report =>
      ⟨if incomplete then RcaSynthesizer.withSpecialistFailures report else report, none⟩⟩

/-- `_run_specialist_analysis`, after its workflow. -/
def runSpecialistAnalysis (bundle : Option SpecialistAnalysisBundle) :
    Transcript String ProcessorFault ProcessorRunOutcome :=
  match bundle.bind normalizeSpecialistAnalysisBundle |>.bind fun bundle =>
      orderedAnalysisBundle bundle.results bundle.failures with
  | none => ⟨[], .error (.model .other)⟩
  | some bundle =>
    match persistSpecialistAnalyses setting p t bundle.results with
    | .error e => ⟨[], .error e⟩
    | .ok (persisted, auditFailures) =>
      match orderedAnalysisBundle persisted (bundle.failures ++ auditFailures) with
      | none => ⟨[], .error (.model .other)⟩
      | some bundle =>
        if p.failuresStored = false then ⟨[], .error .database⟩
        else if RetryableAnalysisFailure bundle setting.attemptNumber then ⟨[], .error .transient⟩
        else
          let report := analysisReport setting p bundle
          ⟨report.asked, report.outcome.mapError .model⟩

/-- The report that is persisted, where one is. -/
def AnalysisProcessing.persisted (outcome : Except ProcessorFault ProcessorRunOutcome) :
    Option RcaReportDraft :=
  match processed outcome with
  | .ok outcome => if p.reportStored outcome.report = true then some outcome.report else none
  | .error _ => none

end Processor

end SreAgent.Rca
