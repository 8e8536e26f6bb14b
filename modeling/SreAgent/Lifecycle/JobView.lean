import SreAgent.Lifecycle.Handler

/-!
# One job's rows and what a transaction does to them

`View` is one job with its run and its attempts. Every transaction of the lifecycle rewrites
the view of at most one job and leaves the view of every other job alone (`Rewrites`);
`View.Step` lists the rewritings with their guards. The two together are the only facts about
the tables that the invariants need: an invariant of `View.Step` is an invariant of every job
in every interleaving (`lifecycle_view_step`).
-/

namespace SreAgent.Lifecycle
open Base Pubsub

/-- A job, its run and its attempts. -/
structure View where
  job : WorkerJob
  run : RcaRun
  attempts : List WorkerAttempt

/-- The rows of the job stored under `id`. -/
def WorkerTables.view (db : WorkerTables) (id : Uuid) : Option View := do
  let job ← db.job id
  let run ← db.run job.rcaRunId
  some ⟨job, run, db.attempts id⟩

theorem WorkerTables.view_eq_some {db : WorkerTables} {id : Uuid} {v : View} :
    db.view id = some v ↔
      db.job id = some v.job ∧ db.run v.job.rcaRunId = some v.run ∧ db.attempts id = v.attempts := by
  unfold WorkerTables.view
  constructor
  · intro h
    obtain ⟨job, hj, h⟩ := Option.bind_eq_some_iff.1 h
    obtain ⟨run, hr, h⟩ := Option.bind_eq_some_iff.1 h
    cases h
    exact ⟨hj, hr, rfl⟩
  · rintro ⟨hj, hr, ha⟩
    simp [hj, hr, ha]

theorem WorkerTables.view_job_id {db : WorkerTables} {id : Uuid} {v : View} (h : db.view id = some v) :
    v.job.id = id :=
  Table.lookup_key (WorkerTables.view_eq_some.1 h).1

theorem WorkerTables.view_run_id {db : WorkerTables} {id : Uuid} {v : View} (h : db.view id = some v) :
    v.run.id = v.job.rcaRunId :=
  Table.lookup_key (WorkerTables.view_eq_some.1 h).2.1

/-- In well-formed tables a stored job has a view. -/
theorem WorkerTables.WellFormed.view_of_job {db : WorkerTables} (wf : db.WellFormed) {id : Uuid}
    {job : WorkerJob} (h : db.job id = some job) : ∃ v, db.view id = some v ∧ v.job = job := by
  obtain ⟨run, hr⟩ := wf.jobRunExists job (Table.mem_of_lookup h)
  exact ⟨⟨job, run, db.attempts id⟩, WorkerTables.view_eq_some.2 ⟨h, hr, rfl⟩, rfl⟩

/-- The message carries the identifiers of the job, its run and its incident. -/
def View.Matches (v : View) (m : RcaJobMessage) : Prop :=
  v.job.id = m.workerJobId ∧ v.job.rcaRunId = m.rcaRunId ∧ v.run.incidentId = m.incidentId

namespace View

/-- The view after a claim. -/
def claimed (v : View) (h : RcaJobHandler) (now : Timestamp) : View :=
  ⟨h.claimedJob now v.job, RcaJobHandler.startedRun now v.run,
    v.attempts ++ [RcaJobHandler.newAttempt now v.job.id (v.job.attemptCount + 1)]⟩

/-- The view after a renewal. -/
def renewed (v : View) (now : Timestamp) : View := { v with job := RcaJobClaim.renewedJob now v.job }

/-- The view after the termination of an unclaimed job. -/
def marked (v : View) (code : LifecycleFailureCode) (now : Timestamp) : View :=
  { v with job := RcaJobHandler.failedJob now v.job, run := RcaJobHandler.failedRun now code v.run }

/-- The view after the settlement of a result. -/
def settled (v : View) (c : RcaJobClaim) (r : RcaProcessingResult) (now : Timestamp) : View :=
  ⟨RcaJobClaim.settledJob now (RcaJobClaim.jobStatusOf r.status) v.job, RcaJobClaim.settledRun now r v.run,
    c.closeAttempt now (RcaJobClaim.failureCodeOf r) v.attempts⟩

/-- The view after the settlement of a failure. -/
def unsettled (v : View) (c : RcaJobClaim) (code : LifecycleFailureCode) (now : Timestamp) : View :=
  ⟨RcaJobClaim.unsettledJob now (c.terminalFailure code) v.job,
    RcaJobClaim.unsettledRun now (c.terminalFailure code) code v.run,
    c.closeAttempt now (some code) v.attempts⟩

/-- What one transaction can do to a job. -/
inductive Step : View → View → Prop where
  | claim {v : View} (h : RcaJobHandler) (now : Timestamp) (open_ : h.Claimable now v.job) :
      Step v (v.claimed h now)
  | renew {v : View} (c : RcaJobClaim) (now : Timestamp) (held : c.Holds v.job) : Step v (v.renewed now)
  | mark {v : View} (code : LifecycleFailureCode) (now : Timestamp) (live : ¬ v.job.status.Terminal) :
      Step v (v.marked code now)
  | settleSuccess {v : View} (c : RcaJobClaim) (r : RcaProcessingResult) (now : Timestamp)
      (held : c.Holds v.job) : Step v (v.settled c r now)
  | settleFailure {v : View} (c : RcaJobClaim) (code : LifecycleFailureCode) (now : Timestamp)
      (held : c.Holds v.job) : Step v (v.unsettled c code now)

end View

/-- `db'` is `db` with the view of job `id` rewritten by `f`; reports are left alone. -/
structure Rewrites (id : Uuid) (f : View → View) (db db' : WorkerTables) : Prop where
  wellFormed : db'.WellFormed
  here : ∀ v, db.view id = some v → db'.view id = some (f v)
  elsewhere : ∀ other, other ≠ id → db'.view other = db.view other
  reports : db'.rcaReports = db.rcaReports

/-! ## One update of the job table and one of the run table -/

/-- The tables after the updates of one transaction. -/
def updated (db : WorkerTables) (onJob : WorkerJob → Prop) [DecidablePred onJob]
    (setJob : WorkerJob → WorkerJob) (onRun : RcaRun → Prop) [DecidablePred onRun]
    (setRun : RcaRun → RcaRun) (attempts : List WorkerAttempt) : WorkerTables :=
  { db with
    workerJobs := Table.updateWhere onJob setJob db.workerJobs
    rcaRuns := Table.updateWhere onRun setRun db.rcaRuns
    workerAttempts := attempts }

section Update

variable {db : WorkerTables} {id : Uuid} {v : View}
  {onJob : WorkerJob → Prop} [DecidablePred onJob] {setJob : WorkerJob → WorkerJob}
  {onRun : RcaRun → Prop} [DecidablePred onRun] {setRun : RcaRun → RcaRun}
  {attempts : List WorkerAttempt}

/-- Updates that write no key keep the schema. -/
theorem updated_wellFormed (wf : db.WellFormed)
    (jobKeys : ∀ j, (setJob j).id = j.id ∧ (setJob j).rcaRunId = j.rcaRunId)
    (runId : ∀ r, (setRun r).id = r.id) :
    (updated db onJob setJob onRun setRun attempts).WellFormed where
  jobIds := wf.jobIds.updateWhere fun j => (jobKeys j).1
  runIds := wf.runIds.updateWhere runId
  jobRuns := wf.jobRuns.updateWhere fun j => (jobKeys j).2
  jobRunExists := by
    intro job hjob
    obtain ⟨old, hold, rfl⟩ := List.mem_map.1 hjob
    obtain ⟨run, hrun⟩ := wf.jobRunExists old hold
    have same : (if onJob old then setJob old else old).rcaRunId = old.rcaRunId := by
      split
      · exact (jobKeys old).2
      · rfl
    refine ⟨if onRun run then setRun run else run, ?_⟩
    rw [same, WorkerTables.run, updated, Table.lookup_updateWhere runId]
    rw [WorkerTables.run] at hrun
    simp [hrun]

/-- The view of the job the updates are restricted to. -/
theorem updated_here (hv : db.view id = some v)
    (jobKeys : ∀ j, (setJob j).id = j.id ∧ (setJob j).rcaRunId = j.rcaRunId)
    (runId : ∀ r, (setRun r).id = r.id) (job : onJob v.job) :
    (updated db onJob setJob onRun setRun attempts).view id =
      some ⟨setJob v.job, if onRun v.run then setRun v.run else v.run,
        attempts.filter fun a => a.workerJobId = id⟩ := by
  obtain ⟨hjob, hrun, -⟩ := WorkerTables.view_eq_some.1 hv
  refine WorkerTables.view_eq_some.2 ⟨?_, ?_, rfl⟩
  · rw [WorkerTables.job, updated, Table.lookup_updateWhere fun j => (jobKeys j).1]
    rw [WorkerTables.job] at hjob
    simp [hjob, job]
  · rw [WorkerTables.run, updated, Table.lookup_updateWhere runId]
    rw [WorkerTables.run] at hrun
    simp [(jobKeys _).2, hrun]

/-- The view of any other job. -/
theorem updated_elsewhere (wf : db.WellFormed) (hv : db.view id = some v)
    (jobKeys : ∀ j, (setJob j).id = j.id ∧ (setJob j).rcaRunId = j.rcaRunId)
    (runId : ∀ r, (setRun r).id = r.id)
    (onlyJob : ∀ j, onJob j → j.id = id) (onlyRun : ∀ r, onRun r → r.id = v.job.rcaRunId)
    (kept : ∀ other, other ≠ id → (attempts.filter fun a => a.workerJobId = other) = db.attempts other)
    {other : Uuid} (hne : other ≠ id) :
    (updated db onJob setJob onRun setRun attempts).view other = db.view other := by
  have hjob : (updated db onJob setJob onRun setRun attempts).job other = db.job other :=
    Table.lookup_updateWhere_of_ne (fun j => (jobKeys j).1) fun j hj => by
      rw [onlyJob j hj]; exact hne.symm
  cases hw : db.view other with
  | none =>
    have none_job : db.job other = none := by
      cases h : db.job other with
      | none => rfl
      | some job =>
        obtain ⟨w, hw', -⟩ := wf.view_of_job h
        rw [hw] at hw'
        cases hw'
    simp [WorkerTables.view, hjob, none_job]
  | some w =>
    obtain ⟨hj, hr, ha⟩ := WorkerTables.view_eq_some.1 hw
    have runs : w.job.rcaRunId ≠ v.job.rcaRunId := by
      intro same
      have := List.inj_on_of_nodup_map wf.jobRuns (Table.mem_of_lookup hj)
        (Table.mem_of_lookup (WorkerTables.view_eq_some.1 hv).1) same
      exact hne (by rw [← WorkerTables.view_job_id hw, ← WorkerTables.view_job_id hv, this])
    refine WorkerTables.view_eq_some.2 ⟨hjob.trans hj, ?_, (kept other hne).trans ha⟩
    rw [← hr]
    exact Table.lookup_updateWhere_of_ne runId fun r hr' => by rw [onlyRun r hr']; exact runs.symm

/-- A transaction restricted to one job and its run rewrites that job's view. -/
theorem updated_rewrites (wf : db.WellFormed) (hv : db.view id = some v) {f : View → View}
    (jobKeys : ∀ j, (setJob j).id = j.id ∧ (setJob j).rcaRunId = j.rcaRunId)
    (runId : ∀ r, (setRun r).id = r.id) (job : onJob v.job)
    (onlyJob : ∀ j, onJob j → j.id = id) (onlyRun : ∀ r, onRun r → r.id = v.job.rcaRunId)
    (kept : ∀ other, other ≠ id → (attempts.filter fun a => a.workerJobId = other) = db.attempts other)
    (hf : f v = ⟨setJob v.job, if onRun v.run then setRun v.run else v.run,
      attempts.filter fun a => a.workerJobId = id⟩) :
    Rewrites id f db (updated db onJob setJob onRun setRun attempts) where
  wellFormed := updated_wellFormed wf jobKeys runId
  here := by
    intro w hw
    cases hv.symm.trans hw
    rw [updated_here hv jobKeys runId job, hf]
  elsewhere := fun _ hne => updated_elsewhere wf hv jobKeys runId onlyJob onlyRun kept hne
  reports := rfl

end Update

/-! ## The transactions of a message -/

section Transactions

variable {db db' : WorkerTables} {m : RcaJobMessage} {h : RcaJobHandler} {now : Timestamp}

/-- A message is addressed to a job exactly when it matches the job's view. -/
theorem addressed_iff {v : View} (wf : db.WellFormed) (hv : db.view m.workerJobId = some v) :
    RcaJobHandler.Addressed m db.rcaRuns v.job ↔ v.Matches m := by
  have hid := WorkerTables.view_job_id hv
  have hrun := (WorkerTables.view_eq_some.1 hv).2.1
  constructor
  · rintro ⟨hr, run, hmem, hkey, hinc⟩
    have : v.run = run := by
      have := wf.runIds.lookup_of_mem hmem
      rw [hkey] at this
      exact Option.some.inj (hrun.symm.trans this)
    exact ⟨hid, hr, by rw [this]; exact hinc⟩
  · rintro ⟨-, hr, hinc⟩
    exact ⟨hr, v.run, Table.mem_of_lookup hrun, WorkerTables.view_run_id hv, hinc⟩

/-- The row a claim finds: the matching, claimable job of the message. -/
theorem claim_find (wf : db.WellFormed) :
    (db.workerJobs.find? fun job => decide (job.id = m.workerJobId ∧
        RcaJobHandler.Addressed m db.rcaRuns job ∧ h.Claimable now job)) =
      (db.job m.workerJobId).filter fun job =>
        decide (RcaJobHandler.Addressed m db.rcaRuns job ∧ h.Claimable now job) :=
  Table.find?_keyed wf.jobIds

/-- A refused claim writes nothing, and the message matches no claimable job. -/
theorem claim_refused (wf : db.WellFormed) (hc : h.claim m now db = .ok (none, db')) :
    db' = db ∧ ∀ v, db.view m.workerJobId = some v → v.Matches m → ¬ h.Claimable now v.job := by
  unfold RcaJobHandler.claim at hc
  simp only [claim_find wf] at hc
  split at hc
  · next hf =>
    cases hc
    refine ⟨rfl, fun v hv hm hcl => ?_⟩
    have hjob := (WorkerTables.view_eq_some.1 hv).1
    rw [hjob, Option.filter_eq_none_iff] at hf
    exact hf v.job rfl (by simpa using ⟨(addressed_iff wf hv).2 hm, hcl⟩)
  · split at hc <;> cases hc

/-- No matching claimable job: the claim is refused. -/
theorem claim_none (wf : db.WellFormed)
    (hn : ∀ v, db.view m.workerJobId = some v → v.Matches m → ¬ h.Claimable now v.job) :
    h.claim m now db = .ok (none, db) := by
  unfold RcaJobHandler.claim
  simp only [claim_find wf]
  have hf : ((db.job m.workerJobId).filter fun job =>
      decide (RcaJobHandler.Addressed m db.rcaRuns job ∧ h.Claimable now job)) = none := by
    rw [Option.filter_eq_none_iff]
    intro job hjob hd
    obtain ⟨v, hv, rfl⟩ := wf.view_of_job hjob
    simp only [decide_eq_true_eq] at hd
    exact hn v hv ((addressed_iff wf hv).1 hd.1) hd.2
  rw [hf]

/-- A successful claim: its guard, its claim and its effect. -/
theorem claim_claimed (wf : db.WellFormed) {c : RcaJobClaim} (hc : h.claim m now db = .ok (some c, db')) :
    ∃ v, db.view m.workerJobId = some v ∧ v.Matches m ∧ h.Claimable now v.job ∧
      c = ⟨m.workerJobId, m.rcaRunId, m.incidentId, v.job.attemptCount + 1, h.deadlineAt now v.job,
        h.workerId⟩ ∧
      Rewrites m.workerJobId (fun w => w.claimed h now) db db' := by
  unfold RcaJobHandler.claim at hc
  simp only [claim_find wf] at hc
  split at hc
  · cases hc
  · next job hf =>
    obtain ⟨hjob, hd⟩ := Option.filter_eq_some_iff.1 hf
    simp only [decide_eq_true_eq] at hd
    obtain ⟨v, hv, rfl⟩ := wf.view_of_job hjob
    have hm := (addressed_iff wf hv).1 hd.1
    split at hc
    · cases hc
    · next attempts hins =>
      obtain ⟨-, rfl⟩ := Table.insertUnique_eq_some.1 hins
      simp only [Except.ok.injEq, Prod.mk.injEq, Option.some.injEq] at hc
      obtain ⟨rfl, rfl⟩ := hc
      have own : v.run.id = m.rcaRunId := (WorkerTables.view_run_id hv).trans hm.2.1
      have ha : db.workerAttempts.filter (fun a => a.workerJobId = m.workerJobId) = v.attempts :=
        (WorkerTables.view_eq_some.1 hv).2.2
      refine ⟨v, hv, hm, hd.2, ?_, updated_rewrites wf hv (fun _ => ⟨rfl, rfl⟩) (fun _ => rfl) ⟨hm.1, hd⟩
        (fun _ hj => hj.1) (fun _ hr => hr.trans hm.2.1.symm) ?_ ?_⟩
      · simp [RcaJobHandler.claimedJob, hm.1, hm.2.1]
      · intro other hne
        simp [List.filter_append, WorkerTables.attempts, RcaJobHandler.newAttempt, hne.symm]
      · simp [own, View.claimed, List.filter_append, ha, RcaJobHandler.newAttempt, hm.1,
          RcaJobHandler.claimedJob]

/-- The row the unclaimed read returns. -/
theorem unclaimedRow_eq (wf : db.WellFormed) :
    h.unclaimedRow m now db = (db.view m.workerJobId).map fun v =>
      ⟨v.job.status, v.job.attemptCount, v.run.id, v.run.incidentId,
        decide (h.deadlineAt now v.job ≤ now)⟩ := by
  change (db.job m.workerJobId).bind (fun job => (db.run job.rcaRunId).bind _) = _
  cases hj : db.job m.workerJobId with
  | none => simp [WorkerTables.view, hj]
  | some job =>
    obtain ⟨v, hv, rfl⟩ := wf.view_of_job hj
    have hr := (WorkerTables.view_eq_some.1 hv).2.1
    simp [hv, hr]

/-- The row the termination finds: the job of the message, unless it is terminal. -/
theorem mark_find (wf : db.WellFormed) :
    (db.workerJobs.find? fun job => decide (job.id = m.workerJobId ∧ job.rcaRunId = m.rcaRunId ∧
        ¬ job.status.Terminal)) =
      (db.job m.workerJobId).filter fun job =>
        decide (job.rcaRunId = m.rcaRunId ∧ ¬ job.status.Terminal) :=
  Table.find?_keyed wf.jobIds

/-- A terminal job is left alone by the termination of an unclaimed job. -/
theorem mark_terminal (wf : db.WellFormed) (code : LifecycleFailureCode) {v : View}
    (hv : db.view m.workerJobId = some v) (ht : v.job.status.Terminal) :
    RcaJobHandler.markUnclaimedTerminal m code now db = db := by
  have hjob := (WorkerTables.view_eq_some.1 hv).1
  unfold RcaJobHandler.markUnclaimedTerminal
  simp only [mark_find wf, hjob, Option.filter_some, ht, not_true_eq_false, and_false, decide_false]
  rfl

/-- A live job is failed by the termination, where the message matches. -/
theorem mark_rewrites (wf : db.WellFormed) (code : LifecycleFailureCode) {v : View}
    (hv : db.view m.workerJobId = some v) (hm : v.Matches m) (ht : ¬ v.job.status.Terminal) :
    Rewrites m.workerJobId (fun w => w.marked code now) db
      (RcaJobHandler.markUnclaimedTerminal m code now db) := by
  have hjob := (WorkerTables.view_eq_some.1 hv).1
  have own : v.run.id = m.rcaRunId := (WorkerTables.view_run_id hv).trans hm.2.1
  have ha : db.workerAttempts.filter (fun a => a.workerJobId = m.workerJobId) = v.attempts :=
    (WorkerTables.view_eq_some.1 hv).2.2
  unfold RcaJobHandler.markUnclaimedTerminal
  simp only [mark_find wf, hjob, Option.filter_some, hm.2.1, ht, not_false_eq_true, and_self, decide_true,
    if_true]
  refine updated_rewrites wf hv (fun _ => ⟨rfl, rfl⟩) (fun _ => rfl) ⟨hm.1, hm.2.1, ht⟩ (fun _ hj => hj.1)
    (fun _ hr => hr.1.trans hm.2.1.symm) (fun _ _ => rfl) ?_
  simp [own, hm.2.2, View.marked, ha]

end Transactions

/-! ## Settlement and renewal by a claim -/

/-- A claim was made for this job and its run. -/
def View.Owns (v : View) (c : RcaJobClaim) : Prop :=
  v.job.id = c.workerJobId ∧ v.job.rcaRunId = c.rcaRunId

section Claims

variable {db : WorkerTables} {c : RcaJobClaim} {v : View}

/-- What the update of a settlement or a renewal returns: the job, while the claim's owner holds it. -/
theorem updateHeld_fst (wf : db.WellFormed) (hv : db.view c.workerJobId = some v)
    (f : WorkerJob → WorkerJob) :
    (c.updateHeld f db.workerJobs).1 = if c.Holds v.job then some v.job.id else none := by
  have hjob := (WorkerTables.view_eq_some.1 hv).1
  have found : (db.workerJobs.find? fun job => decide (job.id = c.workerJobId ∧ c.Holds job)) =
      (db.job c.workerJobId).filter fun job => decide (c.Holds job) :=
    Table.find?_keyed wf.jobIds
  simp only [RcaJobClaim.updateHeld, found, hjob]
  split
  · next hh => simp [hh]
  · next hh => simp [hh]

/-- The update with its `RETURNING` read separately. -/
theorem updateHeld_eq {f : WorkerJob → WorkerJob} {jobs : List WorkerJob} {found : Option Uuid}
    (h : (c.updateHeld f jobs).1 = found) :
    c.updateHeld f jobs =
      (found, Table.updateWhere (fun job => job.id = c.workerJobId ∧ c.Holds job) f jobs) :=
  Prod.ext h rfl

/-- An update that returns nothing writes nothing. -/
theorem updateHeld_none {f : WorkerJob → WorkerJob} {jobs : List WorkerJob}
    (h : (c.updateHeld f jobs).1 = none) : (c.updateHeld f jobs).2 = jobs := by
  have none_held := List.find?_eq_none.1 (Option.map_eq_none_iff.1 h)
  exact Table.updateWhere_of_none fun job hjob => by simpa using none_held job hjob

theorem attempts_filter {db : WorkerTables} {id : Uuid} {v : View} (hv : db.view id = some v) :
    (db.workerAttempts.filter fun a => a.workerJobId = id) = v.attempts :=
  (WorkerTables.view_eq_some.1 hv).2.2

/-- Closing an attempt commutes with selecting a job's rows. -/
theorem filter_closeAttempt {now : Timestamp} (code : Option LifecycleFailureCode)
    (attempts : List WorkerAttempt) (id : Uuid) :
    (c.closeAttempt now code attempts).filter (fun a => a.workerJobId = id) =
      c.closeAttempt now code (attempts.filter fun a => a.workerJobId = id) := by
  simp only [RcaJobClaim.closeAttempt, Table.updateWhere, List.filter_map]
  congr 1
  refine List.filter_congr fun a _ => ?_
  simp only [Function.comp_apply]
  split <;> rfl

/-- Rows of other jobs are outside `closeAttempt`. -/
theorem closeAttempt_other {now : Timestamp} (code : Option LifecycleFailureCode)
    (attempts : List WorkerAttempt) {id : Uuid} (hne : id ≠ c.workerJobId) :
    (c.closeAttempt now code attempts).filter (fun a => a.workerJobId = id) =
      attempts.filter fun a => a.workerJobId = id := by
  rw [filter_closeAttempt]
  conv_rhs => rw [← List.map_id (attempts.filter _)]
  refine List.map_congr_left fun a ha => ?_
  have hid : a.workerJobId = id := by simpa using (List.mem_filter.1 ha).2
  simp [hid, hne]

/-- A renewal: held, it extends the lease; lost, it writes nothing. -/
theorem renew_spec (now : Timestamp) (wf : db.WellFormed) (hv : db.view c.workerJobId = some v) :
    if c.Holds v.job then (c.renewLease now db).1 = true ∧
      Rewrites c.workerJobId (fun w => w.renewed now) db (c.renewLease now db).2
    else c.renewLease now db = (false, db) := by
  have hfst := updateHeld_fst (c := c) wf hv (RcaJobClaim.renewedJob now)
  split
  · next held =>
    rw [if_pos held] at hfst
    refine ⟨by simp [RcaJobClaim.renewLease, hfst], ?_⟩
    have same : (c.renewLease now db).2 =
        updated db (fun job => job.id = c.workerJobId ∧ c.Holds job) (RcaJobClaim.renewedJob now)
          (fun _ => False) id db.workerAttempts := by
      simp [RcaJobClaim.renewLease, RcaJobClaim.updateHeld, updated, Table.updateWhere]
    rw [same]
    have hid := WorkerTables.view_job_id hv
    refine updated_rewrites wf hv (fun _ => ⟨rfl, rfl⟩) (fun _ => rfl) ⟨hid, held⟩ (fun _ hj => hj.1)
      (fun _ hr => hr.elim) (fun _ _ => rfl) ?_
    simp only [View.renewed, if_false]
    rw [← (WorkerTables.view_eq_some.1 hv).2.2]
    rfl
  · next lost =>
    rw [if_neg lost] at hfst
    have kept : (c.updateHeld (RcaJobClaim.renewedJob now) db.workerJobs).2 = db.workerJobs :=
      updateHeld_none hfst
    simp [RcaJobClaim.renewLease, hfst, kept]

/-- The settlement of a result. -/
theorem settleSuccess_spec (now : Timestamp) (wf : db.WellFormed) (hv : db.view c.workerJobId = some v)
    (own : v.Owns c) (r : RcaProcessingResult) :
    if c.Holds v.job then (c.settleSuccess r now db).1 = .ACK ∧
      Rewrites c.workerJobId (fun w => w.settled c r now) db (c.settleSuccess r now db).2
    else c.settleSuccess r now db = (.NACK, db) := by
  have hfst := updateHeld_fst (c := c) wf hv (RcaJobClaim.settledJob now (RcaJobClaim.jobStatusOf r.status))
  unfold RcaJobClaim.settleSuccess
  split
  · next held =>
    rw [if_pos held] at hfst
    rw [updateHeld_eq hfst]
    refine ⟨rfl, updated_rewrites wf hv (fun _ => ⟨rfl, rfl⟩) (fun _ => rfl) ⟨own.1, held⟩ (fun _ hj => hj.1)
      (fun _ hr => hr.trans own.2.symm) (fun _ hne => closeAttempt_other _ _ hne) ?_⟩
    rw [filter_closeAttempt, attempts_filter hv, if_pos ((WorkerTables.view_run_id hv).trans own.2)]
    rfl
  · next lost =>
    rw [if_neg lost] at hfst
    rw [updateHeld_eq hfst]

/-- The settlement of a failure. -/
theorem settleFailure_spec (now : Timestamp) (wf : db.WellFormed) (hv : db.view c.workerJobId = some v)
    (own : v.Owns c) (code : LifecycleFailureCode) :
    if c.Holds v.job then
      (c.settleFailure code now db).1 = (if c.terminalFailure code then .ACK else .NACK) ∧
      Rewrites c.workerJobId (fun w => w.unsettled c code now) db (c.settleFailure code now db).2
    else c.settleFailure code now db = (.NACK, db) := by
  have hfst := updateHeld_fst (c := c) wf hv (RcaJobClaim.unsettledJob now (c.terminalFailure code))
  unfold RcaJobClaim.settleFailure
  dsimp only
  split
  · next held =>
    rw [if_pos held] at hfst
    rw [updateHeld_eq hfst]
    refine ⟨rfl, updated_rewrites wf hv (fun _ => ⟨rfl, rfl⟩) (fun _ => rfl) ⟨own.1, held⟩ (fun _ hj => hj.1)
      (fun _ hr => hr.trans own.2.symm) (fun _ hne => closeAttempt_other _ _ hne) ?_⟩
    rw [filter_closeAttempt, attempts_filter hv, if_pos ((WorkerTables.view_run_id hv).trans own.2)]
    rfl
  · next lost =>
    rw [if_neg lost] at hfst
    rw [updateHeld_eq hfst]

end Claims

end SreAgent.Lifecycle
