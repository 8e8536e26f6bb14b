import SreAgent.Rca.AnalysisWorkflow
import SreAgent.Rca.Branches
import SreAgent.Rca.ModelCalls
import SreAgent.Rca.Specialist

/-!
# The processor without specialist analyses

`RcaWorkflow` runs the specialists that are routed, each at most twice, and files a result or a failure
under each kind. The results are stored in one transaction, with the evidence of every specialist,
and the root agent is given the references.
-/

namespace SreAgent.Rca
open Base Retries Slots Lifecycle

/-! ## `RcaWorkflow` -/

structure Finding where
  summary : String
  confidence : FloatVal
  evidence : List EvidenceDraft

structure SpecialistResult where
  specialist : SpecialistKind
  findings : List Finding
  missingEvidence : List String

/-- What `McpSpecialist.run` makes of what it collected. -/
def McpSpecialist.result (specialist : McpSpecialist) (drafts : List EvidenceDraft)
    (missing : List String) : SpecialistResult :=
  ⟨specialist.kind, drafts.map fun draft =>
    ⟨specialist.kind.value ++ " MCP 回傳可用觀測資料", .finite (1 / 2), [draft]⟩, missing⟩

/-- The evidence of a result. -/
def SpecialistResult.drafts (result : SpecialistResult) : List EvidenceDraft :=
  result.findings.flatMap Finding.evidence

theorem McpSpecialist.drafts_result {specialist : McpSpecialist} {drafts : List EvidenceDraft}
    {missing : List String} :
    (specialist.result drafts missing).drafts = drafts := by
  unfold SpecialistResult.drafts McpSpecialist.result
  rw [List.flatMap_map]
  exact List.flatMap_singleton' drafts

structure InvestigationBundle where
  results : List SpecialistResult
  failures : List SpecialistFailure

/-- How the run of a specialist ends. -/
inductive LegacyEnd where
  | returned (result : SpecialistResult)
  | raised (e : Raised)

/-- The `except` clauses of `invoke`: a code, or nothing where it tries again; a timeout is an
`OSError` too. -/
def legacyCode (attempt : Nat) (e : Raised) : Option String :=
  if e.transport ∧ attempt = 0 then none
  else if e.timeoutError then some "SPECIALIST_TIMEOUT"
  else if e.transport then some "SPECIALIST_TRANSPORT"
  else if e.mcpResultInvalid then some "MCP_RESULT_INVALID"
  else if e.mcpPayloadTooLarge then some "MCP_PAYLOAD_TOO_LARGE"
  else if e.valueError then some "SPECIALIST_VALIDATION"
  else some "SPECIALIST_FAILED"

/-- What `invoke` makes of the end of a run. -/
def settleSpecialist (kind : SpecialistKind) (attempt : Nat) : LegacyEnd →
      Verdict SpecialistResult SpecialistFailure
  | .returned result => .filed result
  | .raised e =>
    match legacyCode attempt e with
    | none => .again
    | some code => .failed ⟨kind, code⟩

/-- `invoke`: its two attempts, the check before each, and what it makes of their ends. -/
def invokeSpecialist (deadline : Timestamp) :
    Policy SpecialistKind Timestamp LegacyEnd SpecialistResult SpecialistFailure where
  limit := 2
  refuses kind now := if deadline - now ≤ 0 then some ⟨kind, "SPECIALIST_TIMEOUT"⟩ else none
  settle := settleSpecialist

/-- The tasks of a run, before the first attempt. -/
def startInvestigation (context : IncidentContext) (capabilities : CapabilitySet) :
    State SpecialistKind SpecialistResult SpecialistFailure :=
  .start (route context capabilities).selected (discoveryFailures capabilities)

/-- What `RcaWorkflow.run` returns when its tasks have ended. -/
def investigation (context : IncidentContext) (capabilities : CapabilitySet)
    (s : State SpecialistKind SpecialistResult SpecialistFailure) :
    InvestigationBundle :=
  if (route context capabilities).selected = []
    then ⟨[], inOrder SpecialistKind.order (discoveryFailures capabilities)⟩
  else ⟨inOrder SpecialistKind.order s.results, inOrder SpecialistKind.order s.failures⟩

/-- A run of the workflow, by the turns its tasks take. -/
def investigates (context : IncidentContext) (capabilities : CapabilitySet) (deadline : Timestamp)
    (events : List (SpecialistKind × Event Timestamp LegacyEnd))
    (s : State SpecialistKind SpecialistResult SpecialistFailure) : Prop :=
  (tasks (invokeSpecialist deadline)).exec (startInvestigation context capabilities) events = some s

/-! ## `_persist_bundle` -/

/-- The tables that evidence is stored in. -/
structure EvidenceTables where
  specialistRuns : List SpecialistRun
  records : List EvidenceRecord

/-- What the database answers to a transaction: the identifiers it generates, an error that rolls it
back, and an error after it was committed. -/
structure BundleAnswers where
  specialistRunIds : SpecialistKind → Uuid
  evidenceIds : Nat → Uuid
  interrupted : Bool
  unacknowledged : Bool

/-- `INSERT INTO specialist_runs ... ON CONFLICT`: the row that is there, or a new one. -/
def upsertSpecialistRun (rcaRunId : Uuid) (kind : SpecialistKind) (newId : Uuid)
    (runs : List SpecialistRun) : Uuid × List SpecialistRun :=
  match findSpecialistRun rcaRunId kind runs with
  | some run => (run.id, runs)
  | none => (newId, runs ++ [⟨newId, rcaRunId, kind⟩])

/-- The specialist runs of the results, with the results. -/
def upsertSpecialistRuns (rcaRunId : Uuid) (newIds : SpecialistKind → Uuid) :
    List SpecialistResult → List SpecialistRun → List (Uuid × SpecialistResult) × List SpecialistRun
  | [], runs => ([], runs)
  | result :: results, runs =>
    let first := upsertSpecialistRun rcaRunId result.specialist (newIds result.specialist) runs
    let rest := upsertSpecialistRuns rcaRunId newIds results first.2
    ((first.1, result) :: rest.1, rest.2)

/-- What is stored of a draft and told the root agent. -/
structure Saved where
  specialistRunId : Uuid
  specialist : SpecialistKind
  finding : Finding
  draft : EvidenceDraft

/-- The drafts of the results, in the order in which they are inserted. -/
def savedDrafts (owned : List (Uuid × SpecialistResult)) : List Saved :=
  owned.flatMap fun (specialistRunId, result) => result.findings.flatMap fun finding =>
    finding.evidence.map fun draft => ⟨specialistRunId, result.specialist, finding, draft⟩

/-- The summary of a draft. -/
def Saved.summary (saved : Saved) (id : Uuid) : EvidenceSummary :=
  ⟨saved.specialist, saved.finding.summary, saved.finding.confidence, ⟨id⟩⟩

/-- The rows of the drafts. -/
def savedRecords (rcaRunId : Uuid) (newIds : Nat → Uuid) (saved : List Saved) : List EvidenceRecord :=
  saved.zipIdx.map fun (saved, index) => saved.draft.record rcaRunId saved.specialistRunId (newIds index)

/-- The database takes a document as `jsonb`: all its strings are texts, since others have no
encoding, and `jsonb` takes it. -/
def storableDocument (document : PyJson) : Bool := document.text?.any Ingestion.storable

/-- The database takes a draft: its documents as `jsonb`, the names of its capability and its tool as
texts. -/
def EvidenceDraft.Storable (draft : EvidenceDraft) : Prop :=
  storableDocument draft.structuredJson = true ∧ Ingestion.storable draft.metadata = true ∧
    Ingestion.noNul draft.capability = true ∧ Ingestion.noNul draft.tool = true

instance (draft : EvidenceDraft) : Decidable draft.Storable := inferInstanceAs (Decidable (_ ∧ _ ∧ _ ∧ _))

def StorableResults (results : List SpecialistResult) : Prop :=
  ∀ result ∈ results, ∀ draft ∈ result.drafts, draft.Storable

instance (results : List SpecialistResult) : Decidable (StorableResults results) := by
  unfold StorableResults
  infer_instance

inductive ProcessorFault where
  | model (e : ModelFault)
  | transient
  | database
  deriving DecidableEq

/-- `_persist_bundle`: one transaction, which a draft that cannot be stored rolls back. -/
def persistBundle (rcaRunId : Uuid) (answers : BundleAnswers) (results : List SpecialistResult)
    (t : EvidenceTables) :
    Except ProcessorFault (List EvidenceReference × List EvidenceSummary) × EvidenceTables :=
  let owned := upsertSpecialistRuns rcaRunId answers.specialistRunIds results t.specialistRuns
  let saved := savedDrafts owned.1
  if ¬ StorableResults results ∨ answers.interrupted = true then (.error .database, t)
  else
    let t' : EvidenceTables := ⟨owned.2, t.records ++ savedRecords rcaRunId answers.evidenceIds saved⟩
    if answers.unacknowledged = true then (.error .database, t')
    else
      (.ok (saved.zipIdx.map fun (_, index) => ⟨answers.evidenceIds index⟩,
        saved.zipIdx.map fun (saved, index) => saved.summary (answers.evidenceIds index)), t')

/-! ## `_run_legacy` -/

/-- `_LEGACY_FAILURE_CODES`. -/
def legacyFailureCodes : List (String × LifecycleFailureCode) :=
  [("SPECIALIST_TIMEOUT", .MCP_TIMEOUT), ("SPECIALIST_TRANSPORT", .MCP_TRANSPORT),
    ("SPECIALIST_VALIDATION", .VALIDATION_FAILED),
    ("SPECIALIST_FAILED", .INTERNAL_ERROR), ("MCP_TIMEOUT", .MCP_TIMEOUT), ("MCP_TRANSPORT", .MCP_TRANSPORT),
    ("MCP_PAYLOAD_TOO_LARGE", .MCP_PAYLOAD_TOO_LARGE), ("MCP_RESULT_INVALID", .MCP_RESULT_INVALID)]

/-- `_terminal_failure_code`: that of the first kind that failed. -/
def terminalFailureCode (failures : List SpecialistFailure)
    (failureCodes : List (String × LifecycleFailureCode)) : Option LifecycleFailureCode :=
  if failures = [] then none
  else
    let first :=
      SpecialistKind.order.findSome? fun kind => failures.find? fun failure => failure.specialist = kind
    some ((first.bind fun failure => (failureCodes.find? fun item => item.1 = failure.code).map
      Prod.snd).getD .INTERNAL_ERROR)

/-- `_raise_if_retryable_total_failure`. -/
def RetryableTotalFailure (bundle : InvestigationBundle) (attemptNumber : Nat) : Prop :=
  attemptNumber < 3 ∧ bundle.results = [] ∧ bundle.failures ≠ [] ∧
    ∀ failure ∈ bundle.failures, failure.code ∈ ["SPECIALIST_TRANSPORT", "MCP_TRANSPORT"]

instance (bundle : InvestigationBundle) (attemptNumber : Nat) :
    Decidable (RetryableTotalFailure bundle attemptNumber) := by
  unfold RetryableTotalFailure
  infer_instance

/-- What a claim and its context contribute, and the root agent with the reader of its model. -/
structure ProcessorSetting where
  rcaRunId : Uuid
  attemptNumber : Nat
  deadline : Timestamp
  context : IncidentContext
  reader : ModelReader
  rootAgent : RcaAgent

/-- What happens after the workflow: whether the failures can be stored, the answers to the
transaction of the bundle, the attempts of the root agent, and whether a report can be stored. -/
structure Processing where
  failuresStored : Bool
  answers : BundleAnswers
  attempts : Nat → ModelAttempt
  reportStored : RcaReportDraft → Bool

/-- `_ProcessorRunOutcome`. -/
structure ProcessorRunOutcome where
  report : RcaReportDraft
  failureCode : Option LifecycleFailureCode

variable (setting : ProcessorSetting)

/-- The report of a bundle whose evidence is stored. -/
def legacyReport (bundle : InvestigationBundle) (attempts : Nat → ModelAttempt)
    (references : List EvidenceReference) (summaries : List EvidenceSummary) :
    Except ModelFault RcaReportDraft :=
  if references = [] then
    .ok (if bundle.failures ≠ [] then RcaSynthesizer.failedAnalysis
      else RcaSynthesizer.insufficientEvidence (setting.context.scope.map CloudScope.provider))
  else
    (setting.rootAgent.synthesizeLegacy setting.reader setting.context.alertIssue summaries references
      setting.deadline attempts).map
      fun report => if bundle.failures ≠ [] then RcaSynthesizer.withSpecialistFailures report else report

/-- `_run_legacy`, after its workflow. -/
def runLegacy (bundle : InvestigationBundle) (p : Processing) (t : EvidenceTables) :
    Except ProcessorFault ProcessorRunOutcome × EvidenceTables :=
  if p.failuresStored = false then (.error .database, t)
  else if RetryableTotalFailure bundle setting.attemptNumber then (.error .transient, t)
  else
    match persistBundle setting.rcaRunId p.answers bundle.results t with
    | (.error e, t') => (.error e, t')
    | (.ok (references, summaries), t') =>
      match legacyReport setting bundle p.attempts references summaries with
      | .error e => (.error (.model e), t')
      | .ok report => (.ok ⟨report, terminalFailureCode bundle.failures legacyFailureCodes⟩, t')

/-- What `__call__` makes of a run: the report it persists, and the status and failure code it returns. -/
def processed : Except ProcessorFault ProcessorRunOutcome → Except ProcessorFault ProcessorRunOutcome
  | .ok outcome => .ok outcome
  | .error (.model (.rootFailure .DEADLINE_EXCEEDED)) =>
    .ok ⟨RcaSynthesizer.failedAnalysis, some .DEADLINE_EXCEEDED⟩
  | .error (.model (.rootFailure .VALIDATION_FAILED)) =>
    .ok ⟨RcaSynthesizer.failedAnalysis, some .VALIDATION_FAILED⟩
  | .error (.model (.rootFailure .INTERNAL_ERROR)) =>
    .ok ⟨RcaSynthesizer.failedAnalysis, some .INTERNAL_ERROR⟩
  | .error e => .error e

/-- The report that is persisted, where one is. -/
def persistedReport (p : Processing) (outcome : Except ProcessorFault ProcessorRunOutcome) :
    Option RcaReportDraft :=
  match processed outcome with
  | .ok outcome => if p.reportStored outcome.report = true then some outcome.report else none
  | .error _ => none

end SreAgent.Rca
