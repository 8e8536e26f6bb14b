import SreAgent.Lifecycle.Interleaving

/-!
# Job, run and attempts stay in lockstep

`View.Lockstep` is the relation the worker keeps between a job, its run and its attempts. It
holds of a freshly ingested job (`View.Fresh`), every transaction keeps it, and no transaction
touches a terminal job; so it holds in every state of every interleaving.
-/

namespace SreAgent.Lifecycle
open Base Pubsub

/-- A job nobody has claimed yet, as ingestion creates it. -/
structure View.Fresh (v : View) : Prop where
  job : v.job.status = .QUEUED
  run : v.run.status = .QUEUED
  leaseOwner : v.job.leaseOwner = none
  leaseExpiresAt : v.job.leaseExpiresAt = none
  attemptCount : v.job.attemptCount = 0
  attempts : v.attempts = []

/-- Statuses correspond, the lease is there exactly while the job runs, and the attempts are
numbered `1..attempt_count`. -/
structure View.Lockstep (v : View) : Prop where
  queued : v.job.status = .QUEUED ↔ v.run.status = .QUEUED
  running : v.job.status = .RUNNING ↔ v.run.status = .RUNNING
  succeeded : v.job.status = .SUCCEEDED ↔ v.run.status = .SUCCEEDED ∨ v.run.status = .PARTIAL
  failed : v.job.status = .FAILED ↔ v.run.status = .FAILED
  leased : v.job.status = .RUNNING → v.job.leaseOwner ≠ none ∧ v.job.leaseExpiresAt ≠ none
  unleased : v.job.status ≠ .RUNNING → v.job.leaseOwner = none ∧ v.job.leaseExpiresAt = none
  numbered : v.attempts.map WorkerAttempt.attemptNumber = List.range' 1 v.job.attemptCount
  bounded : v.job.attemptCount ≤ 3

theorem View.Fresh.lockstep {v : View} (fresh : v.Fresh) : v.Lockstep where
  queued := by simp [fresh.job, fresh.run]
  running := by simp [fresh.job, fresh.run]
  succeeded := by simp [fresh.job, fresh.run]
  failed := by simp [fresh.job, fresh.run]
  leased := by simp [fresh.job]
  unleased := fun _ => ⟨fresh.leaseOwner, fresh.leaseExpiresAt⟩
  numbered := by simp [fresh.attempts, fresh.attemptCount]
  bounded := by simp [fresh.attemptCount]

/-- Closing an attempt renumbers nothing. -/
theorem closeAttempt_numbers (c : RcaJobClaim) (now : Timestamp) (code : Option LifecycleFailureCode)
    (attempts : List WorkerAttempt) :
    (c.closeAttempt now code attempts).map WorkerAttempt.attemptNumber =
      attempts.map WorkerAttempt.attemptNumber :=
  Table.map_updateWhere fun _ => rfl

/-- Every transaction keeps the lockstep. -/
theorem View.Step.lockstep {v w : View} (step : v.Step w) (h : v.Lockstep) : w.Lockstep := by
  cases step with
  | claim hd now open_ =>
    have room : v.job.attemptCount < 3 := open_.2.1
    refine ⟨?_, ?_, ?_, ?_, ?_, ?_, ?_, ?_⟩
    any_goals simp [View.claimed, RcaJobHandler.claimedJob, RcaJobHandler.startedRun]
    · simp [RcaJobHandler.newAttempt, h.numbered, List.range'_1_concat, Nat.add_comm]
    · omega
  | renew c now held =>
    refine ⟨h.queued, h.running, h.succeeded, h.failed, fun hr => ⟨(h.leased hr).1, by simp [View.renewed,
      RcaJobClaim.renewedJob]⟩, fun hn => absurd held.1 hn, h.numbered, h.bounded⟩
  | mark code now live =>
    refine ⟨?_, ?_, ?_, ?_, ?_, ?_, h.numbered, h.bounded⟩
    all_goals simp [View.marked, RcaJobHandler.failedJob, RcaJobHandler.failedRun]
  | settleSuccess c r now held =>
    refine ⟨?_, ?_, ?_, ?_, ?_, fun _ => ⟨rfl, rfl⟩, (closeAttempt_numbers _ _ _ _).trans h.numbered,
      h.bounded⟩
    all_goals
      obtain ⟨status, failure⟩ := r
      cases status <;> simp [View.settled, RcaJobClaim.settledJob, RcaJobClaim.settledRun,
        RcaJobClaim.jobStatusOf, RcaJobClaim.runStatusOf]
  | settleFailure c code now held =>
    refine ⟨?_, ?_, ?_, ?_, ?_, fun _ => ⟨rfl, rfl⟩, (closeAttempt_numbers _ _ _ _).trans h.numbered,
      h.bounded⟩
    all_goals
      simp only [View.unsettled, RcaJobClaim.unsettledJob, RcaJobClaim.unsettledRun]
      cases c.terminalFailure code <;> simp

/-- No transaction moves a terminal job. -/
theorem View.Step.not_terminal {v w : View} (step : v.Step w) : ¬ v.job.status.Terminal := by
  have running : v.job.status = .RUNNING → ¬ v.job.status.Terminal := by
    intro h
    simp [h, JobStatus.Terminal]
  cases step with
  | claim hd now open_ =>
    rcases open_.2.2.2 with queued | ⟨busy, -⟩
    · simp [queued, JobStatus.Terminal]
    · exact running busy
  | renew c now held => exact running held.1
  | mark code now live => exact live
  | settleSuccess c r now held => exact running held.1
  | settleFailure c code now held => exact running held.1

/-- A terminal job, its run and its attempts stay as they are. -/
theorem terminal_stable {s t : LifecycleState} (sound : s.Sound) (run : lifecycle.Steps s t) {id : Uuid}
    {v : View} (hv : s.db.view id = some v) (terminal : v.job.status.Terminal) : t.db.view id = some v := by
  obtain ⟨w, hw, rfl⟩ := view_invariant (I := fun w => w = v)
    (fun u w hu step => absurd terminal (hu ▸ step.not_terminal)) sound run hv rfl
  exact hw

/-- From a fresh job, in every interleaving: the job and its run stay in lockstep, and once the
job is terminal nothing changes it. -/
theorem job_run_lockstep {s₀ s : LifecycleState} (init : lifecycle.init s₀) (run : lifecycle.Steps s₀ s)
    {id : Uuid} {v₀ : View} (stored : s₀.db.view id = some v₀) (fresh : v₀.Fresh) :
    ∃ v, s.db.view id = some v ∧ v.Lockstep ∧
      (v.job.status.Terminal → ∀ t, lifecycle.Steps s t → t.db.view id = some v) := by
  have sound₀ := sound_invariant (.init init)
  obtain ⟨v, hv, lockstep⟩ :=
    view_invariant (fun _ _ h step => step.lockstep h) sound₀ run stored fresh.lockstep
  exact ⟨v, hv, lockstep, fun terminal t later =>
    terminal_stable (sound_invariant ⟨s₀, init, run⟩) later hv terminal⟩

/-! ## A job as ingestion creates it -/

/-- The rows of one ingested incident: a queued run and its queued job. -/
def queuedTables (jobId runId incidentId : Uuid) (createdAt : Timestamp) : WorkerTables :=
  { rcaRuns := [{ id := runId, incidentId := incidentId, status := .QUEUED,
                  startedAt := none, completedAt := none,
                  createdAt := createdAt, updatedAt := createdAt, failureCode := none }]
    workerJobs :=
      [{ id := jobId, rcaRunId := runId, status := .QUEUED, payload := .obj [], availableAt := createdAt,
                     startedAt := none, completedAt := none, createdAt := createdAt, updatedAt := createdAt,
                     leaseOwner := none, leaseExpiresAt := none, attemptCount := 0 }]
    workerAttempts := []
    rcaHypotheses := []
    hypothesisEvidence := []
    rcaReports := [] }

/-- One ingested job and no call under way. -/
def queuedState (jobId runId incidentId : Uuid) (createdAt : Timestamp) : LifecycleState :=
  ⟨queuedTables jobId runId incidentId createdAt, createdAt, fun _ => none⟩

section Queued

variable (jobId runId incidentId : Uuid) (createdAt : Timestamp)

theorem queued_init : lifecycle.init (queuedState jobId runId incidentId createdAt) := by
  refine ⟨⟨by simp [Table.Keyed, queuedState, queuedTables], by simp [Table.Keyed, queuedState, queuedTables],
    by simp [Table.Keyed, queuedState, queuedTables], ?_⟩, fun _ => rfl⟩
  simp [queuedState, queuedTables, WorkerTables.run, Table.lookup]

theorem queued_fresh : ∃ v, (queuedState jobId runId incidentId createdAt).db.view jobId = some v ∧
      v.Fresh := by
  have stored : ∃ v, (queuedState jobId runId incidentId createdAt).db.view jobId = some v ∧
      v.job.status = .QUEUED ∧ v.run.status = .QUEUED ∧ v.job.leaseOwner = none ∧
      v.job.leaseExpiresAt = none ∧ v.job.attemptCount = 0 ∧ v.attempts = [] := by
    simp [queuedState, queuedTables, WorkerTables.view, WorkerTables.job, WorkerTables.run,
      WorkerTables.attempts, Table.lookup]
  obtain ⟨v, hv, job, run, owner, expires, count, attempts⟩ := stored
  exact ⟨v, hv, job, run, owner, expires, count, attempts⟩

end Queued

/-- A handler with the default deadline. -/
def RcaJobHandler.named (workerId : String) : RcaJobHandler := ⟨workerId, 300, by decide, by decide⟩

/-- A lease expires under a crashed worker, another worker takes over and fails the job. -/
def takeover : List Action :=
  [.deliver 0 (.named "a") ⟨1, 2, 3⟩, .move 0 .claim, .crash 0, .tick 61000000,
    .deliver 1 (.named "b") ⟨1, 2, 3⟩, .move 1 .claim, .move 1 (.start 239),
    .move 1 (.wake 1 (.processorRaised .other)), .move 1 .settle]

/-- The lockstep at the end of a takeover. -/
theorem job_run_lockstep_takeover :
    ∃ s v, lifecycle.exec (queuedState 1 2 3 0) takeover = some s ∧ s.db.view 1 = some v ∧ v.Lockstep := by
  have enabled : (lifecycle.exec (queuedState 1 2 3 0) takeover).isSome = true := by decide
  obtain ⟨s, hs⟩ := Option.isSome_iff_exists.1 enabled
  obtain ⟨v₀, stored, fresh⟩ := queued_fresh 1 2 3 0
  obtain ⟨v, hv, lockstep, -⟩ :=
    job_run_lockstep (queued_init 1 2 3 0) (System.run_of_exec hs) stored fresh
  exact ⟨s, v, hs, hv, lockstep⟩

end SreAgent.Lifecycle
