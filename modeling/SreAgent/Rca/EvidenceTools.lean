import SreAgent.Base.Procedure
import SreAgent.Rca.Evidence

/-!
# `EvidenceToolSession`

The two tools of a specialist agent over the evidence of its run. A session caches a receipt or the
code of its first failure; what it hands out is read from committed rows. Between two awaits a
session is alone with its fields, since its lock admits one call at a time.
-/

namespace SreAgent.Rca
open Base Procedure

structure EvidenceReceipt where
  specialist : SpecialistKind
  references : List EvidenceReference
  firstChunks : List EvidenceChunk
  totalChunks : Nat
  truncated : Bool

/-- The exceptions that the session tells apart. -/
inductive ToolFault where
  | evidenceTool (code : StableSpecialistCode)
  | timeout
  | mcpPayloadTooLarge
  | mcpResultInvalid
  | connection
  | other
  deriving DecidableEq

/-- What the environment of a session answers: a reading of its clock (`none`: a naive one), the end
of an await, with the rows that other transactions have committed, or what it raises, the drafts of
the collector, the identifier of an inserted row, and a commit that took effect and was not
acknowledged. -/
inductive Answer where
  | clock (now : Option Timestamp)
  | done (meanwhile : List EvidenceRecord)
  | raises (e : ToolFault)
  | drafts (drafts : List EvidenceDraft)
  | inserted (id : Uuid)
  | unacknowledged (e : Option ToolFault)

/-- A row of `specialist_runs`, of which there is one for a run and a specialist. -/
structure SpecialistRun where
  id : Uuid
  rcaRunId : Uuid
  specialist : SpecialistKind

/-- The fields a session writes, the tables it works on and what its transaction has inserted;
`invocations` and `collections` record the calls of the collector and the drafts it returned. -/
structure Branch where
  toolCalls : Nat
  receipt : Option EvidenceReceipt
  terminalErrorCode : Option StableSpecialistCode
  specialistRuns : List SpecialistRun
  records : List EvidenceRecord
  pending : List EvidenceRecord
  invocations : Nat
  collections : List (List EvidenceDraft)

/-- A session at its start. -/
def Branch.renew (b : Branch) : Branch :=
  { b with toolCalls := 0, receipt := none, terminalErrorCode := none }

/-- Rows of other transactions. -/
def Branch.meanwhile (rows : List EvidenceRecord) (b : Branch) : Branch :=
  { b with records := b.records ++ rows }

/-- What happens to the tables while an answer is awaited. -/
def Answer.act : Answer → Branch → Branch
  | .done rows => Branch.meanwhile rows
  | _ => id

/-- What the session gets from libraries: the text of a float, the check of a tool schema, and the
limits of the interpreter. -/
structure Checks where
  floatText : FloatVal → String
  checkSchema : Json → Bool
  interpreter : JsonParse.Interpreter

/-- The arguments of `EvidenceToolSession`, with what its constructor checks. -/
structure SessionConfig where
  request : SpecialistRequest
  specialistRunId : Uuid
  kind : SpecialistKind
  deadline : Timestamp
  chunkChars : Nat
  maxChunks : Nat
  maxTotalChars : Nat
  maxToolCalls : Nat
  limits : ValidLimits chunkChars maxChunks maxTotalChars
  maxToolCalls_range : 0 < maxToolCalls ∧ maxToolCalls ≤ 5

abbrev ToolM := Procedure Branch Answer ToolFault

/-- The next answer of the environment. -/
def answer : ToolM Answer := ask Answer.act

/-- An await without a result. -/
def awaiting : ToolM Unit := do
  match ← answer with
  | .done _ => return ()
  | .raises e => raise e
  | _ => stop

/-- `self._clock()`. -/
def clock : ToolM (Option Timestamp) := do
  match ← answer with
  | .clock now => return now
  | _ => stop

def Branch.commit (b : Branch) : Branch := { b with records := b.records ++ b.pending, pending := [] }

/-- `async with self._sessions() as session, session.begin()`; what is pending when it is left
otherwise is rolled back. -/
def transaction {α : Type} (body : ToolM α) : ToolM α := do
  awaiting
  modify fun b => { b with pending := [] }
  let result ← body
  match ← answer with
  | .done _ =>
    modify Branch.commit
    return result
  | .raises e => raise e
  | .unacknowledged (some e) =>
    modify Branch.commit
    raise e
  | .unacknowledged none =>
    modify Branch.commit
    stop
  | _ => stop

namespace EvidenceToolSession

variable (checks : Checks) (config : SessionConfig)

/-- `_ensure_before_deadline`. -/
def ensureBeforeDeadline : ToolM Unit := do
  match ← clock with
  | none => raise (.evidenceTool .ANALYSIS_FAILED)
  | some now => if config.deadline ≤ now then raise (.evidenceTool .ANALYSIS_TIMEOUT)

/-- `_remaining_seconds`; a naive reading cannot be subtracted. -/
def remainingSeconds : ToolM Int := do
  match ← clock with
  | none => raise .other
  | some now =>
    if config.deadline - now ≤ 0 then raise (.evidenceTool .ANALYSIS_TIMEOUT)
      else return config.deadline - now

/-- `_admit_tool_call`. -/
def admitToolCall : ToolM Unit := do
  ensureBeforeDeadline config
  if config.maxToolCalls ≤ (← get).toolCalls then raise (.evidenceTool .ANALYSIS_FAILED)
  modify fun b => { b with toolCalls := b.toolCalls + 1 }

/-- `_list_persisted`. -/
def listPersisted : ToolM (List PersistedEvidence) := do
  let _ ← remainingSeconds config
  awaiting
  match listSpecialistEvidence config.request.rcaRunId config.specialistRunId (← get).records with
  | none => raise .other
  | some persisted =>
    ensureBeforeDeadline config
    return persisted

/-- The loop of `_approved_tools`, with the names it has seen. -/
def checkTools : List AllowedTool → List String → ToolM Unit
  | [], _ => return ()
  | tool :: tools, names => do
    if tool.endpointIdentity ≠ config.kind ∨ tool.capability ≠ config.kind.value ++ ".query" ∨
      tool.name ∈ names then
      raise (.evidenceTool .ANALYSIS_FAILED)
    if checks.checkSchema tool.inputSchema = false then raise .other
    checkTools tools (tool.name :: names)

/-- The scope is a safe one of GCP. -/
def SafeScope (scope : Option CloudScope) : Prop := ∃ s ∈ scope, s.provider = .GCP ∧ s.safe = true

instance (scope : Option CloudScope) : Decidable (SafeScope scope) := by
  unfold SafeScope
  infer_instance

/-- `_approved_tools`. -/
def approvedTools : ToolM (Option (List AllowedTool)) := do
  if ¬ SafeScope config.request.scope then return none
  if config.request.availableTools = [] then return none
  checkTools checks config config.request.availableTools []
  return some (config.request.availableTools.take 5)

/-- The collector, called with the approved tools; `invocations` counts the call. -/
def collectEvidenceDrafts (_request : SpecialistRequest) : ToolM (List EvidenceDraft) := do
  modify fun b => { b with invocations := b.invocations + 1 }
  match ← answer with
  | .drafts drafts =>
    modify fun b => { b with collections := b.collections ++ [drafts] }
    return drafts
  | .raises e => raise e
  | _ => stop

/-- What `_validated_drafts` checks of a draft. -/
def ValidDraft (approved : List AllowedTool) (draft : EvidenceDraft) : Prop :=
  draft.endpointIdentity = config.kind ∧
    (∃ tool ∈ approved, (tool.name, tool.capability) = (draft.tool, draft.capability)) ∧
    ∃ scope ∈ config.request.scope, draft.inputScope = scope ∧ draft.normalizedScope = scope

instance (approved : List AllowedTool) (draft : EvidenceDraft) :
    Decidable (ValidDraft config approved draft) := by
  unfold ValidDraft
  infer_instance

/-- `_validated_drafts`. -/
def validatedDrafts (drafts : List EvidenceDraft) (approved : List AllowedTool) :
    ToolM (List EvidenceDraft) :=
  if ∀ draft ∈ drafts, ValidDraft config approved draft then return drafts
    else raise (.evidenceTool .ANALYSIS_FAILED)

/-- `PersistEvidence.save`; a taken identifier violates the primary key. -/
def save (draft : EvidenceDraft) : ToolM EvidenceReference := do
  match ← answer with
  | .inserted id =>
    let b ← get
    if ∃ row ∈ b.records ++ b.pending, row.id = id then raise .other
    modify fun b =>
      { b with pending := b.pending ++ [draft.record config.request.rcaRunId config.specialistRunId id] }
    return ⟨id⟩
  | .raises e => raise e
  | _ => stop

/-- One draft of the loop in `_persist_all`. -/
def persistDraft (draft : EvidenceDraft) : ToolM EvidenceReference := do
  ensureBeforeDeadline config
  let reference ← save config draft
  ensureBeforeDeadline config
  return reference

/-- `_persist_all`. -/
def persistAll (drafts : List EvidenceDraft) : ToolM (List EvidenceReference) := do
  let _ ← remainingSeconds config
  let references ← transaction (each (persistDraft config) drafts)
  ensureBeforeDeadline config
  return references

/-- `_ensure_record_owned`. -/
def ensureRecordOwned (record : PersistedEvidence) : ToolM Unit :=
  if record.rcaRunId ≠ config.request.rcaRunId ∨ record.specialistRunId ≠ config.specialistRunId ∨
      record.sourceEndpoint ≠ config.kind.value ∨
        ¬ (config.kind.value ++ ".").toList <+: record.evidenceType.toList then
    raise (.evidenceTool .ANALYSIS_UNKNOWN_EVIDENCE)
  else return ()

/-- `_chunks`. -/
def chunks (persisted : PersistedEvidence) : ToolM (List EvidenceChunk) :=
  match buildEvidenceChunks checks.interpreter checks.floatText persisted.reference persisted.structuredData
      config.chunkChars config.maxChunks config.maxTotalChars with
  | none => raise .other
  | some chunks => return chunks

/-- One record of the loop in `_build_receipt`. -/
def recordChunks (record : PersistedEvidence) : ToolM (List EvidenceChunk) := do
  ensureBeforeDeadline config
  ensureRecordOwned config record
  let chunks ← chunks checks config record
  ensureBeforeDeadline config
  return chunks

/-- `_build_receipt`. -/
def buildReceipt (persisted : List PersistedEvidence) : ToolM EvidenceReceipt := do
  let allChunks ← each (recordChunks checks config) persisted
  ensureBeforeDeadline config
  return {
    specialist := config.kind
    references := persisted.map PersistedEvidence.reference
    firstChunks := allChunks.filterMap List.head?
    totalChunks := (allChunks.map List.length).sum
    truncated := allChunks.any fun chunks => chunks.any EvidenceChunk.truncated }

/-- `_empty_receipt`. -/
def emptyReceipt : ToolM EvidenceReceipt := do
  ensureBeforeDeadline config
  return ⟨config.kind, [], [], 0, false⟩

/-- `self._receipt = ...; return self._receipt`. -/
def keepReceipt (receipt : EvidenceReceipt) : ToolM EvidenceReceipt := do
  modify fun b => { b with receipt := some receipt }
  return receipt

/-- The body of the `try` in `collect_evidence`. -/
def collectOnce : ToolM EvidenceReceipt := do
  match ← approvedTools checks config with
  | none => keepReceipt (← emptyReceipt config)
  | some approved =>
    let persisted ← listPersisted config
    if persisted ≠ [] then keepReceipt (← buildReceipt checks config persisted)
    else
      let _ ← remainingSeconds config
      let drafts ← collectEvidenceDrafts { config.request with availableTools := approved }
      ensureBeforeDeadline config
      let drafts ← validatedDrafts config drafts approved
      if drafts = [] then keepReceipt (← emptyReceipt config)
      else
        let _ ← persistAll config drafts
        let committed ← listPersisted config
        if committed = [] then raise (.evidenceTool .ANALYSIS_FAILED)
        keepReceipt (← buildReceipt checks config committed)

/-- The code that an exception of `collect_evidence` becomes. -/
def terminalCode : ToolFault → StableSpecialistCode
  | .evidenceTool code => code
  | .timeout => .ANALYSIS_TIMEOUT
  | .mcpPayloadTooLarge => .MCP_PAYLOAD_TOO_LARGE
  | .mcpResultInvalid => .MCP_RESULT_INVALID
  | .connection => .MCP_TRANSPORT
  | .other => .ANALYSIS_FAILED

/-- An `except` branch of `collect_evidence`. -/
def failCollect (e : ToolFault) : ToolM EvidenceReceipt := do
  modify fun b => { b with terminalErrorCode := some (terminalCode e) }
  raise (.evidenceTool (terminalCode e))

/-- `collect_evidence` once its call is admitted. -/
def collectAdmitted : ToolM EvidenceReceipt := do
  let b ← get
  match b.terminalErrorCode, b.receipt with
  | some code, _ => raise (.evidenceTool code)
  | none, some receipt => return receipt
  | none, none => tryCatch (collectOnce checks config) failCollect

/-- `collect_evidence`. -/
def collectEvidence : ToolM EvidenceReceipt := do
  admitToolCall config
  collectAdmitted checks config

/-- The body of the `try` in `read_evidence_chunk`. -/
def readOnce (evidenceId : Uuid) (chunkIndex : Int) : ToolM EvidenceChunk := do
  let _ ← remainingSeconds config
  awaiting
  match getSpecialistEvidence config.request.rcaRunId config.specialistRunId evidenceId (← get).records with
  | none => raise .other
  | some found =>
    ensureBeforeDeadline config
    match found with
    | none => raise (.evidenceTool .ANALYSIS_UNKNOWN_EVIDENCE)
    | some persisted =>
      ensureRecordOwned config persisted
      let chunks ← chunks checks config persisted
      ensureBeforeDeadline config
      match chunks[chunkIndex.toNat]? with
      | none => raise (.evidenceTool .ANALYSIS_UNKNOWN_EVIDENCE)
      | some chunk => return chunk

/-- An `except` branch of `read_evidence_chunk`. -/
def failRead : ToolFault → ToolM EvidenceChunk
  | .evidenceTool code => raise (.evidenceTool code)
  | .timeout => raise (.evidenceTool .ANALYSIS_TIMEOUT)
  | _ => raise (.evidenceTool .ANALYSIS_FAILED)

/-- `read_evidence_chunk`; `none` is an argument that is no `UUID`, or no `int`. -/
def readEvidenceChunk (evidenceId : Option Uuid) (chunkIndex : Option Int) : ToolM EvidenceChunk := do
  admitToolCall config
  match evidenceId, chunkIndex with
  | some evidenceId, some chunkIndex =>
    if chunkIndex < 0 then raise (.evidenceTool .ANALYSIS_UNKNOWN_EVIDENCE)
    tryCatch (readOnce checks config evidenceId chunkIndex) failRead
  | _, _ => raise (.evidenceTool .ANALYSIS_UNKNOWN_EVIDENCE)

/-- `known_evidence`. -/
def knownEvidence (b : Branch) : List EvidenceReference :=
  match b.receipt with
  | none => []
  | some receipt => receipt.references

/-- `input_truncated`. -/
def inputTruncated (b : Branch) : Bool :=
  match b.receipt with
  | none => false
  | some receipt => receipt.truncated

end EvidenceToolSession

end SreAgent.Rca
