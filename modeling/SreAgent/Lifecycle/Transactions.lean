import SreAgent.Lifecycle.Tables
import SreAgent.Pubsub.Messages

/-!
# Transactions of the job lifecycle

Every `session.begin()` block of `RcaJobHandler`, and the report transaction of the processor,
as one function of the tables. `now` is the transaction's `now()`. A transaction that reads
`RETURNING id` into `updated` succeeds exactly when some row met its `WHERE`.
-/

namespace SreAgent.Lifecycle
open Base Pubsub

inductive JobDisposition where
  | ACK | NACK
  deriving DecidableEq, Repr

/-- `RcaJobHandler`: its settings, with the range its constructor checks. -/
structure RcaJobHandler where
  workerId : String
  deadlineSeconds : Int
  deadline_ge : 1 ≤ deadlineSeconds
  deadline_le : deadlineSeconds ≤ 300

structure RcaProcessingResult where
  status : ResultStatus
  failureCode : Option LifecycleFailureCode
  deriving DecidableEq

structure RcaJobClaim where
  workerJobId : Uuid
  rcaRunId : Uuid
  incidentId : Uuid
  attemptNumber : Nat
  deadlineAt : Timestamp
  leaseOwner : String
  deriving DecidableEq

/-- Why a transaction rolls back: a unique index refused an insert. -/
inductive DbError where
  | uniqueViolation
  deriving DecidableEq, Repr

/-- `job.created_at + interval '5 minutes'`. -/
def WorkerJob.deadline (job : WorkerJob) : Timestamp := job.createdAt + minutes 5

/-- `lease_expires_at < now()`, false on `NULL`. -/
def WorkerJob.LeaseExpired (job : WorkerJob) (now : Timestamp) : Prop :=
  ∃ t ∈ job.leaseExpiresAt, t < now

instance (job : WorkerJob) (now : Timestamp) : Decidable (job.LeaseExpired now) := by
  unfold WorkerJob.LeaseExpired; infer_instance

namespace RcaJobHandler

/-- `LEAST(job.created_at + interval '5 minutes', now() + make_interval(secs => :configured))`. -/
def deadlineAt (h : RcaJobHandler) (now : Timestamp) (job : WorkerJob) : Timestamp :=
  min job.deadline (now + seconds h.deadlineSeconds)

/-- The part of the `WHERE` of the claiming update that reads the job alone. -/
def Claimable (h : RcaJobHandler) (now : Timestamp) (job : WorkerJob) : Prop :=
  job.availableAt ≤ now ∧ job.attemptCount < 3 ∧ now < h.deadlineAt now job ∧
    (job.status = .QUEUED ∨ job.status = .RUNNING ∧ job.LeaseExpired now)

instance (h : RcaJobHandler) (now : Timestamp) (job : WorkerJob) : Decidable (h.Claimable now job) := by
  unfold Claimable; infer_instance

/-- The part that ties the job to the message, through the joined `rca_runs` row. -/
def Addressed (m : RcaJobMessage) (runs : List RcaRun) (job : WorkerJob) : Prop :=
  job.rcaRunId = m.rcaRunId ∧ ∃ run ∈ runs, run.id = job.rcaRunId ∧ run.incidentId = m.incidentId

instance (m : RcaJobMessage) (runs : List RcaRun) (job : WorkerJob) : Decidable (Addressed m runs job) := by
  unfold Addressed; infer_instance

/-- The job row the claiming update writes. -/
def claimedJob (h : RcaJobHandler) (now : Timestamp) (job : WorkerJob) : WorkerJob :=
  { job with
    status := .RUNNING
    leaseOwner := some h.workerId
    leaseExpiresAt := some (now + seconds 60)
    attemptCount := job.attemptCount + 1
    startedAt := some (job.startedAt.getD now)
    updatedAt := now }

/-- The run row of a claimed job. -/
def startedRun (now : Timestamp) (run : RcaRun) : RcaRun :=
  { run with status := .RUNNING, startedAt := some (run.startedAt.getD now), updatedAt := now }

/-- The attempt row a claim inserts. -/
def newAttempt (now : Timestamp) (jobId : Uuid) (attempt : Nat) : WorkerAttempt :=
  { workerJobId := jobId, attemptNumber := attempt, startedAt := now, completedAt := none,
    failureCode := none }

/-- `_claim`. -/
def claim (h : RcaJobHandler) (m : RcaJobMessage) (now : Timestamp) (db : WorkerTables) :
    Except DbError (Option RcaJobClaim × WorkerTables) :=
  let hit := fun job : WorkerJob =>
    job.id = m.workerJobId ∧ Addressed m db.rcaRuns job ∧ h.Claimable now job
  match db.workerJobs.find? fun job => decide (hit job) with
  | none => .ok (none, db)
  | some job =>
    let row := h.claimedJob now job
    match Table.insertUnique (fun a => (a.workerJobId, a.attemptNumber))
        (newAttempt now m.workerJobId row.attemptCount) db.workerAttempts with
    | none => .error .uniqueViolation
    | some attempts =>
      .ok (some
          { workerJobId := row.id
            rcaRunId := row.rcaRunId
            incidentId := m.incidentId
            attemptNumber := row.attemptCount
            deadlineAt := h.deadlineAt now job
            leaseOwner := h.workerId },
        { db with
          workerJobs := Table.updateWhere hit (h.claimedJob now) db.workerJobs
          rcaRuns := Table.updateWhere (fun run => run.id = m.rcaRunId) (startedRun now) db.rcaRuns
          workerAttempts := attempts })

/-- The row `_unclaimed_disposition` reads. -/
structure UnclaimedRow where
  status : JobStatus
  attemptCount : Nat
  runId : Uuid
  incidentId : Uuid
  expired : Bool

/-- The `SELECT` of `_unclaimed_disposition`. -/
def unclaimedRow (h : RcaJobHandler) (m : RcaJobMessage) (now : Timestamp) (db : WorkerTables) :
    Option UnclaimedRow := do
  let job ← db.workerJobs.find? fun job => job.id = m.workerJobId
  let run ← db.rcaRuns.find? fun run => run.id = job.rcaRunId
  some
    { status := job.status
      attemptCount := job.attemptCount
      runId := run.id
      incidentId := run.incidentId
      expired := decide (h.deadlineAt now job ≤ now) }

/-- What `_unclaimed_disposition` does after its read: answer, or terminate the job and acknowledge. -/
inductive UnclaimedDecision where
  | answer (d : JobDisposition)
  | terminate (code : LifecycleFailureCode)
  deriving DecidableEq

/-- The decision of `_unclaimed_disposition`. -/
def unclaimedDecision (m : RcaJobMessage) : Option UnclaimedRow → UnclaimedDecision
  | none => .answer .ACK
  | some row =>
    if row.runId ≠ m.rcaRunId ∨ row.incidentId ≠ m.incidentId then .answer .ACK
    else if row.status = .SUCCEEDED ∨ row.status = .FAILED then .answer .ACK
    else if row.expired = true ∨ 3 ≤ row.attemptCount then
      .terminate (if row.expired = true then .DEADLINE_EXCEEDED else .INTERNAL_ERROR)
    else .answer .NACK

/-- The job row a termination writes. -/
def failedJob (now : Timestamp) (job : WorkerJob) : WorkerJob :=
  { job with status := .FAILED, completedAt := some now, updatedAt := now, leaseOwner := none,
             leaseExpiresAt := none }

/-- The run row a termination writes. -/
def failedRun (now : Timestamp) (code : LifecycleFailureCode) (run : RcaRun) : RcaRun :=
  { run with status := .FAILED, failureCode := some code, completedAt := some now, updatedAt := now }

/-- `_mark_unclaimed_terminal`. -/
def markUnclaimedTerminal (m : RcaJobMessage) (code : LifecycleFailureCode) (now : Timestamp)
    (db : WorkerTables) : WorkerTables :=
  let hit := fun job : WorkerJob =>
    job.id = m.workerJobId ∧ job.rcaRunId = m.rcaRunId ∧ ¬ job.status.Terminal
  match db.workerJobs.find? fun job => decide (hit job) with
  | none => db
  | some _ =>
    { db with
      workerJobs := Table.updateWhere hit (failedJob now) db.workerJobs
      rcaRuns := Table.updateWhere (fun run => run.id = m.rcaRunId ∧ run.incidentId = m.incidentId)
        (failedRun now code) db.rcaRuns }

end RcaJobHandler

/-- `_unclaimed_disposition` with nothing between its read and its termination. -/
def RcaJobHandler.unclaimedDisposition (h : RcaJobHandler) (m : RcaJobMessage) (now : Timestamp)
    (db : WorkerTables) : JobDisposition × WorkerTables :=
  match unclaimedDecision m (h.unclaimedRow m now db) with
  | .answer d => (d, db)
  | .terminate code => (.ACK, markUnclaimedTerminal m code now db)

namespace RcaJobClaim

/-- The `WHERE` of renewal and settlement, the job identifier aside: `lease_owner` is still the
claim's owner and the job is `RUNNING`. The attempt number is not compared. -/
def Holds (c : RcaJobClaim) (job : WorkerJob) : Prop :=
  job.status = .RUNNING ∧ job.leaseOwner = some c.leaseOwner

instance (c : RcaJobClaim) (job : WorkerJob) : Decidable (c.Holds job) := by
  unfold Holds; infer_instance

/-- The update statement of a settlement or a renewal: `RETURNING id` and the table after it. -/
def updateHeld (c : RcaJobClaim) (f : WorkerJob → WorkerJob) (jobs : List WorkerJob) :
    Option Uuid × List WorkerJob :=
  ((jobs.find? fun job => decide (job.id = c.workerJobId ∧ c.Holds job)).map WorkerJob.id,
    Table.updateWhere (fun job => job.id = c.workerJobId ∧ c.Holds job) f jobs)

/-- The job row a renewal writes. -/
def renewedJob (now : Timestamp) (job : WorkerJob) : WorkerJob :=
  { job with leaseExpiresAt := some (now + seconds 60), updatedAt := now }

/-- One renewal of `_renew_lease`: whether the lease was still held, and the tables. -/
def renewLease (c : RcaJobClaim) (now : Timestamp) (db : WorkerTables) : Bool × WorkerTables :=
  let (renewed, jobs) := c.updateHeld (renewedJob now) db.workerJobs
  (renewed.isSome, { db with workerJobs := jobs })

/-- The update of the attempt row by a settlement. -/
def closeAttempt (c : RcaJobClaim) (now : Timestamp) (code : Option LifecycleFailureCode)
    (attempts : List WorkerAttempt) : List WorkerAttempt :=
  Table.updateWhere (fun a => a.workerJobId = c.workerJobId ∧ a.attemptNumber = c.attemptNumber)
    (fun a => { a with completedAt := some now, failureCode := code }) attempts

/-- The job row a settlement of a result writes. -/
def settledJob (now : Timestamp) (status : JobStatus) (job : WorkerJob) : WorkerJob :=
  { job with status := status, completedAt := some now, updatedAt := now, leaseOwner := none,
             leaseExpiresAt := none }

/-- `job_status` of `_settle_success`. -/
def jobStatusOf : ResultStatus → JobStatus
  | .FAILED => .FAILED
  | _ => .SUCCEEDED

/-- `run_status` of `_settle_success`. -/
def runStatusOf : ResultStatus → RcaRunStatus
  | .COMPLETE => .SUCCEEDED
  | .PARTIAL => .PARTIAL
  | .FAILED => .FAILED

/-- `failure_code` of `_settle_success`. -/
def failureCodeOf (r : RcaProcessingResult) : Option LifecycleFailureCode :=
  if r.status = .FAILED then some (r.failureCode.getD .INTERNAL_ERROR) else none

/-- The run row a settlement of a result writes. -/
def settledRun (now : Timestamp) (r : RcaProcessingResult) (run : RcaRun) : RcaRun :=
  { run with status := runStatusOf r.status, completedAt := some now, updatedAt := now,
             failureCode := failureCodeOf r }

/-- `_settle_success`. -/
def settleSuccess (c : RcaJobClaim) (r : RcaProcessingResult) (now : Timestamp) (db : WorkerTables) :
    JobDisposition × WorkerTables :=
  match c.updateHeld (settledJob now (jobStatusOf r.status)) db.workerJobs with
  | (none, _) => (.NACK, db)
  | (some _, jobs) =>
    (.ACK,
      { db with
        workerJobs := jobs
        rcaRuns := Table.updateWhere (fun run => run.id = c.rcaRunId) (settledRun now r) db.rcaRuns
        workerAttempts := c.closeAttempt now (failureCodeOf r) db.workerAttempts })

/-- `terminal` of `_settle_failure`. -/
def terminalFailure (c : RcaJobClaim) (code : LifecycleFailureCode) : Bool :=
  code ≠ .MCP_TRANSPORT || 3 ≤ c.attemptNumber

/-- The job row a settlement of a failure writes. -/
def unsettledJob (now : Timestamp) (terminal : Bool) (job : WorkerJob) : WorkerJob :=
  { job with status := if terminal then .FAILED else .QUEUED
             availableAt := if terminal then job.availableAt else now + seconds 30
             completedAt := if terminal then some now else none
             updatedAt := now, leaseOwner := none, leaseExpiresAt := none }

/-- The run row a settlement of a failure writes. -/
def unsettledRun (now : Timestamp) (terminal : Bool) (code : LifecycleFailureCode) (run : RcaRun) : RcaRun :=
  { run with status := if terminal then .FAILED else .QUEUED
             failureCode := if terminal then some code else none, updatedAt := now }

/-- `_settle_failure`. -/
def settleFailure (c : RcaJobClaim) (code : LifecycleFailureCode) (now : Timestamp) (db : WorkerTables) :
    JobDisposition × WorkerTables :=
  let terminal := c.terminalFailure code
  match c.updateHeld (unsettledJob now terminal) db.workerJobs with
  | (none, _) => (.NACK, db)
  | (some _, jobs) =>
    (if terminal then .ACK else .NACK,
      { db with
        workerJobs := jobs
        workerAttempts := c.closeAttempt now (some code) db.workerAttempts
        rcaRuns := Table.updateWhere (fun run => run.id = c.rcaRunId) (unsettledRun now terminal code)
          db.rcaRuns })

end RcaJobClaim

/-! ## The report transaction of the processor -/

structure EvidenceClaim where
  statement : String
  relation : EvidenceRelation
  evidence : List Uuid

structure RcaHypothesis where
  statement : String
  confidence : ℚ
  claims : List EvidenceClaim

/-- `RcaReportDraft`, with what its model validator enforces. -/
structure RcaReportDraft where
  status : ResultStatus
  summaryZhTw : String
  hypotheses : List RcaHypothesis
  missingEvidence : List String
  remediation : List String
  verificationSteps : List String
  complete_cited : status = .COMPLETE → hypotheses ≠ [] ∧ missingEvidence = []
  failed_bare : status = .FAILED → hypotheses = []

/-- The text of a result status. -/
def ResultStatus.text : ResultStatus → String
  | .COMPLETE => "COMPLETE"
  | .PARTIAL => "PARTIAL"
  | .FAILED => "FAILED"

/-- The text of an evidence relation. -/
def EvidenceRelation.text : EvidenceRelation → String
  | .SUPPORTS => "SUPPORTS"
  | .CONTRADICTS => "CONTRADICTS"
  | .MISSING => "MISSING"

/-- `serialize_claim`. -/
def serializeClaim (c : EvidenceClaim) : Json :=
  .obj [("statement", .str c.statement),
    ("evidence", .arr (c.evidence.map fun ref =>
      .obj [("evidenceId", .str (Uuid.text ref)), ("relation", .str c.relation.text)]))]

/-- `body` of `_persist_report`. -/
def RcaReportDraft.body (d : RcaReportDraft) : Json :=
  let claims := d.hypotheses.flatMap RcaHypothesis.claims
  let impact := String.intercalate "；" (claims.map EvidenceClaim.statement)
  .obj [("status", .str d.status.text),
    ("rootCause", .str ((d.hypotheses.head?.map RcaHypothesis.statement).getD "尚待確認")),
    ("confidence", (d.hypotheses.head?.map fun h => Json.float (.finite h.confidence)).getD .null),
    ("impact", .str (if impact = "" then "證據不足" else impact)),
    ("recommendations", .arr (d.remediation.map .str)),
    ("hypotheses", .arr (d.hypotheses.map fun h =>
      .obj [("statement", .str h.statement), ("confidence", .float (.finite h.confidence)),
        ("claims", .arr (h.claims.map serializeClaim))])),
    ("claims", .arr (claims.map serializeClaim)),
    ("verificationSteps", .arr (d.verificationSteps.map .str)),
    ("missingEvidence", .arr (d.missingEvidence.map .str))]

/-- `SELECT max(version)`, or `0`. -/
def maxVersion (reports : List RcaReport) : Nat := (reports.map RcaReport.version).foldr max 0

/-- The evidence rows of one hypothesis; `ON CONFLICT DO NOTHING` keeps the first of equal rows. -/
def linkEvidence (hypothesisId : Uuid) (h : RcaHypothesis) (rows : List HypothesisEvidence) :
    List HypothesisEvidence :=
  (h.claims.flatMap fun c => c.evidence.map fun ref =>
      ({ hypothesisId := hypothesisId, evidenceId := ref, relation := c.relation } :
        HypothesisEvidence)).foldl
    (fun rows row => if row ∈ rows then rows else rows ++ [row]) rows

/-- `_persist_report`; `newId` is the identifier the database generates for each hypothesis. -/
def persistReport (runId : Uuid) (d : RcaReportDraft) (newId : Nat → Uuid) (db : WorkerTables) :
    WorkerTables :=
  let numbered := d.hypotheses.zipIdx
  { db with
    rcaHypotheses := db.rcaHypotheses ++ numbered.map fun (h, i) =>
      { id := newId i, rcaRunId := runId, statement := h.statement, confidence := h.confidence }
    hypothesisEvidence := numbered.foldl (fun rows (h, i) => linkEvidence (newId i) h rows)
      db.hypothesisEvidence
    rcaReports := db.rcaReports ++
      [{ rcaRunId := runId, version := maxVersion (db.reports runId) + 1, summary := d.summaryZhTw,
         report := d.body, resultStatus := d.status }] }

end SreAgent.Lifecycle
