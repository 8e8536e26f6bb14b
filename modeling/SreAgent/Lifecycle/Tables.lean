import SreAgent.Base.Json
import SreAgent.Base.Uuid
import SreAgent.Base.Table
import SreAgent.Base.Time

/-!
# Worker tables

The rows of `rca_runs`, `worker_jobs`, `worker_attempts`, `rca_hypotheses`, `hypothesis_evidence` and
`rca_reports`, with the columns the RCA worker reads and writes. `WellFormed` collects the primary
keys, the unique indexes and the foreign keys of the migrations; every transaction of the worker keeps
it, so the model never has to drop a row to stay inside the schema.
-/

namespace SreAgent.Lifecycle
open Base

/-- The check of `worker_jobs.status`. -/
inductive JobStatus where
  | QUEUED | RUNNING | SUCCEEDED | FAILED
  deriving DecidableEq, Repr

/-- The domain's `RcaRunStatus`. -/
inductive RcaRunStatus where
  | WAITING_FOR_CLASSIFICATION | QUEUED | RUNNING | SUCCEEDED | PARTIAL | FAILED | CANCELLED
  deriving DecidableEq, Repr

/-- `LifecycleFailureCode`. -/
inductive LifecycleFailureCode where
  | DEADLINE_EXCEEDED | MCP_TIMEOUT | MCP_TRANSPORT | POLICY_DENIED | VALIDATION_FAILED
  | INTERNAL_ERROR | NO_SAFE_MCP_CAPABILITY | MCP_PAYLOAD_TOO_LARGE | MCP_RESULT_INVALID
  | ANALYSIS_TIMEOUT | ANALYSIS_SCHEMA_INVALID | ANALYSIS_UNKNOWN_EVIDENCE
  | ANALYSIS_INPUT_TRUNCATED | ANALYSIS_FAILED
  deriving DecidableEq, Repr

/-- The three outcomes of an analysis: `rca_reports.result_status`, `RcaProcessingResult.status`. -/
inductive ResultStatus where
  | COMPLETE | PARTIAL | FAILED
  deriving DecidableEq, Repr

structure WorkerJob where
  id : Uuid
  rcaRunId : Uuid
  status : JobStatus
  payload : Json
  availableAt : Timestamp
  startedAt : Option Timestamp
  completedAt : Option Timestamp
  createdAt : Timestamp
  updatedAt : Timestamp
  leaseOwner : Option String
  leaseExpiresAt : Option Timestamp
  attemptCount : Nat

structure RcaRun where
  id : Uuid
  incidentId : Uuid
  status : RcaRunStatus
  startedAt : Option Timestamp
  completedAt : Option Timestamp
  createdAt : Timestamp
  updatedAt : Timestamp
  failureCode : Option LifecycleFailureCode

structure WorkerAttempt where
  workerJobId : Uuid
  attemptNumber : Nat
  startedAt : Timestamp
  completedAt : Option Timestamp
  failureCode : Option LifecycleFailureCode
  deriving DecidableEq

/-- `EvidenceClaim.relation`, `hypothesis_evidence.relation`. -/
inductive EvidenceRelation where
  | SUPPORTS | CONTRADICTS | MISSING
  deriving DecidableEq, Repr

structure RcaHypothesisRow where
  id : Uuid
  rcaRunId : Uuid
  statement : String
  confidence : ℚ

structure HypothesisEvidence where
  hypothesisId : Uuid
  evidenceId : Uuid
  relation : EvidenceRelation
  deriving DecidableEq

structure RcaReport where
  rcaRunId : Uuid
  version : Nat
  summary : String
  report : Json
  resultStatus : ResultStatus

/-- The tables the RCA worker writes while it runs a job. -/
structure WorkerTables where
  rcaRuns : List RcaRun
  workerJobs : List WorkerJob
  workerAttempts : List WorkerAttempt
  rcaHypotheses : List RcaHypothesisRow
  hypothesisEvidence : List HypothesisEvidence
  rcaReports : List RcaReport

/-- A status no transaction leaves. -/
def JobStatus.Terminal (s : JobStatus) : Prop := s = .SUCCEEDED ∨ s = .FAILED

instance (s : JobStatus) : Decidable s.Terminal := inferInstanceAs (Decidable (_ ∨ _))

namespace WorkerTables

/-- The job stored under `id`. -/
def job (db : WorkerTables) (id : Uuid) : Option WorkerJob := Table.lookup WorkerJob.id id db.workerJobs

/-- The run stored under `id`. -/
def run (db : WorkerTables) (id : Uuid) : Option RcaRun := Table.lookup RcaRun.id id db.rcaRuns

/-- The attempts of a job, oldest first. -/
def attempts (db : WorkerTables) (id : Uuid) : List WorkerAttempt :=
  db.workerAttempts.filter fun a => a.workerJobId = id

/-- The reports of a run. -/
def reports (db : WorkerTables) (runId : Uuid) : List RcaReport :=
  db.rcaReports.filter fun r => r.rcaRunId = runId

/-- The report of a run with the greatest version. -/
def latestReport (db : WorkerTables) (runId : Uuid) : Option RcaReport :=
  (db.reports runId).argmax RcaReport.version

/-- The keys and references of the schema: primary keys, `uq_worker_jobs_run_type` (every job
is an `RCA_ANALYSIS` job) and the reference of a job to its run. -/
structure WellFormed (db : WorkerTables) : Prop where
  jobIds : Table.Keyed WorkerJob.id db.workerJobs
  runIds : Table.Keyed RcaRun.id db.rcaRuns
  jobRuns : Table.Keyed WorkerJob.rcaRunId db.workerJobs
  jobRunExists : ∀ job ∈ db.workerJobs, ∃ run, db.run job.rcaRunId = some run

end WorkerTables

end SreAgent.Lifecycle
