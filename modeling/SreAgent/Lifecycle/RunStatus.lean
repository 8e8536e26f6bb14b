import SreAgent.Ingestion.Execute
import SreAgent.Lifecycle.Disposition

/-!
# The state machine of a run

The domain lists the transitions of `rca_runs.status`; the statements that write the column do not
look at the list. `runs` is the life of the tables from the empty database: ingestion creates queued
runs, each with its job, and handlers work on them. A step departs from the list in two ways, and in
no other: the holder of a lease settles a failure that is retried, which takes a running run back to
the queue, and a job that nobody claimed is terminated while it is queued, which fails a queued run
(`run_status_respected_iff`).
-/

namespace SreAgent.Lifecycle
open Base Pubsub Ingestion

/-! ## `RcaRunStatus` -/

/-- `_RCA_RUN_TRANSITIONS`. -/
def RcaRunStatus.transitions : RcaRunStatus → List RcaRunStatus
  | .WAITING_FOR_CLASSIFICATION => [.QUEUED]
  | .QUEUED => [.RUNNING]
  | .RUNNING => [.SUCCEEDED, .PARTIAL, .FAILED, .CANCELLED]
  | .SUCCEEDED | .PARTIAL | .FAILED | .CANCELLED => []

/-- `can_transition_to`. -/
def RcaRunStatus.canTransitionTo (status target : RcaRunStatus) : Bool := target ∈ status.transitions

/-- No change, or an allowed one. -/
def RcaRunStatus.Respects (status target : RcaRunStatus) : Prop :=
  target = status ∨ status.canTransitionTo target = true

instance (status target : RcaRunStatus) : Decidable (status.Respects target) :=
  inferInstanceAs (Decidable (_ ∨ _))

/-- Every run that is there before and after changes its status as the domain allows. -/
def StatusRespected (s t : LifecycleState) : Prop :=
  ∀ runId run run', s.db.run runId = some run → t.db.run runId = some run' → run.status.Respects run'.status

/-! ## Runs and their jobs -/

/-- The statuses of a run while its job has the given one. -/
def JobStatus.runStatuses : JobStatus → List RcaRunStatus
  | .QUEUED => [.QUEUED]
  | .RUNNING => [.RUNNING]
  | .SUCCEEDED => [.SUCCEEDED, .PARTIAL]
  | .FAILED => [.FAILED]

/-- The statuses of a job and its run correspond. -/
def View.Agrees (v : View) : Prop := v.run.status ∈ v.job.status.runStatuses

theorem View.Agrees.queued_iff {v : View} (h : v.Agrees) : v.run.status = .QUEUED ↔
      v.job.status = .QUEUED := by
  unfold View.Agrees at h
  cases hjob : v.job.status <;> rw [hjob] at h <;> revert h <;> cases v.run.status <;> decide

theorem View.Agrees.running_iff {v : View} (h : v.Agrees) : v.run.status = .RUNNING ↔
      v.job.status = .RUNNING := by
  unfold View.Agrees at h
  cases hjob : v.job.status <;> rw [hjob] at h <;> revert h <;> cases v.run.status <;> decide

/-- Every transaction keeps the statuses in correspondence. -/
theorem View.Step.agrees {v w : View} (step : v.Step w) (h : v.Agrees) : w.Agrees := by
  cases step with
  | claim hd now open_ => exact List.mem_cons_self
  | renew c now held => exact h
  | mark code now live => exact List.mem_cons_self
  | settleSuccess c r now held =>
    obtain ⟨status, failure⟩ := r
    cases status <;> simp [View.Agrees, View.settled, RcaJobClaim.settledJob, RcaJobClaim.settledRun,
      RcaJobClaim.jobStatusOf, RcaJobClaim.runStatusOf, JobStatus.runStatuses]
  | settleFailure c code now held =>
    cases final : c.terminalFailure code <;>
      simp [View.Agrees, View.unsettled, RcaJobClaim.unsettledJob, RcaJobClaim.unsettledRun, final,
        JobStatus.runStatuses]

/-! ## The life of the tables -/

/-- What `create_rca_work` commits; nothing, where the incident has an active run or an identifier is
taken. -/
def createWork (incidentId runId jobId : Uuid) (payload : Json) (availableAt : Timestamp)
    (db : WorkerTables) : Option WorkerTables :=
  if (∃ run ∈ db.rcaRuns, run.id = runId ∨ run.incidentId = incidentId ∧ ActiveRun run.status) ∨
    ∃ job ∈ db.workerJobs, job.id = jobId then
    none
  else
    some { db with
      rcaRuns := db.rcaRuns ++ [newRun runId incidentId availableAt]
      workerJobs := db.workerJobs ++ [{ newJob jobId runId availableAt with payload := payload }] }

inductive RunAction where
  | create (incidentId runId jobId : Uuid) (payload : Json) (availableAt : Timestamp)
  | worker (a : Action)

/-- Ingestion and handlers at work, from the empty tables. -/
def runs : System LifecycleState RunAction where
  init s := s.db = ⟨[], [], [], [], [], []⟩ ∧ ∀ p, s.calls p = none
  step s
    | .create incidentId runId jobId payload availableAt =>
      (createWork incidentId runId jobId payload availableAt s.db).map fun db => { s with db := db }
    | .worker a => s.step a

/-- The holder of a lease settles a failure that is retried. -/
def Requeues (s : LifecycleState) (a : RunAction) : Prop :=
  ∃ p x c code v, a = .worker (.move p .settle) ∧ s.calls p = some x ∧ x.phase = .settlingFailure c code ∧
    c.terminalFailure code = false ∧ s.db.view x.message.workerJobId = some v ∧ c.Holds v.job

/-- A job is terminated that is still queued. -/
def FailsQueued (s : LifecycleState) (a : RunAction) : Prop :=
  ∃ p x code v, a = .worker (.move p .mark) ∧ s.calls p = some x ∧ x.phase = .marking code ∧
    s.db.view x.message.workerJobId = some v ∧ v.job.status = .QUEUED

/-- Sound, with a job for every run and with corresponding statuses. -/
structure LifecycleState.Orderly (s : LifecycleState) : Prop where
  sound : s.Sound
  hosted : ∀ run ∈ s.db.rcaRuns, ∃ job ∈ s.db.workerJobs, job.rcaRunId = run.id
  agrees : ∀ id v, s.db.view id = some v → v.Agrees

/-! ## Creation -/

section Create

variable {db db' : WorkerTables} {incidentId runId jobId : Uuid} {payload : Json} {availableAt : Timestamp}

/-- A creation finds its identifiers free and appends a run and its job. -/
theorem of_createWork (h : createWork incidentId runId jobId payload availableAt db = some db') :
    (∀ run ∈ db.rcaRuns, run.id ≠ runId) ∧ (∀ job ∈ db.workerJobs, job.id ≠ jobId) ∧
      db' = { db with
        rcaRuns := db.rcaRuns ++ [newRun runId incidentId availableAt]
        workerJobs := db.workerJobs ++ [{ newJob jobId runId availableAt with payload := payload }] } := by
  unfold createWork at h
  split at h
  · cases h
  · next free =>
    cases h
    simp only [not_or, not_exists, not_and] at free
    exact ⟨fun run hrun same => (free.1 run hrun).1 same, free.2, rfl⟩

/-- Rows that were there are found as before. -/
theorem lookup_append {κ ρ : Type*} [DecidableEq κ] {key : ρ → κ} {k : κ} {rows new : List ρ} {row : ρ}
    (h : Table.lookup key k rows = some row) : Table.lookup key k (rows ++ new) = some row := by
  rw [Table.lookup, List.find?_append, show (rows.find? fun r => decide (key r = k)) = some row from h]
  rfl

theorem keyed_append {κ ρ : Type*} {key : ρ → κ} {rows : List ρ} {row : ρ} (keyed : Table.Keyed key rows)
    (fresh : ∀ r ∈ rows, key r ≠ key row) : Table.Keyed key (rows ++ [row]) := by
  rw [Table.Keyed, List.map_append, List.nodup_append]
  refine ⟨keyed, List.nodup_singleton _, ?_⟩
  intro k hk k' hk'
  obtain ⟨r, hr, rfl⟩ := List.mem_map.1 hk
  rw [List.map_singleton, List.mem_singleton] at hk'
  rw [hk']
  exact fresh r hr

theorem createWork_wellFormed (wf : db.WellFormed)
    (h : createWork incidentId runId jobId payload availableAt db = some db') :
    db'.WellFormed := by
  obtain ⟨freshRun, freshJob, rfl⟩ := of_createWork h
  refine ⟨keyed_append wf.jobIds freshJob, keyed_append wf.runIds freshRun,
    keyed_append wf.jobRuns fun job hjob same => ?_, ?_⟩
  · obtain ⟨run, hrun⟩ := wf.jobRunExists job hjob
    exact freshRun run (Table.mem_of_lookup hrun) ((Table.lookup_key hrun).trans same)
  · intro job hjob
    rcases List.mem_append.1 hjob with hjob | hjob
    · obtain ⟨run, hrun⟩ := wf.jobRunExists job hjob
      exact ⟨run, lookup_append hrun⟩
    · rw [List.mem_singleton.1 hjob]
      refine ⟨newRun runId incidentId availableAt, ?_⟩
      have last : newRun runId incidentId availableAt ∈ db.rcaRuns ++
          [newRun runId incidentId availableAt] := by simp
      exact (keyed_append wf.runIds freshRun).lookup_of_mem last

/-- The view of a job that was there. -/
theorem createWork_view (h : createWork incidentId runId jobId payload availableAt db = some db')
    {id : Uuid} {v : View} (hv : db.view id = some v) : db'.view id = some v := by
  obtain ⟨-, -, rfl⟩ := of_createWork h
  obtain ⟨hjob, hrun, hattempts⟩ := WorkerTables.view_eq_some.1 hv
  exact WorkerTables.view_eq_some.2 ⟨lookup_append hjob, lookup_append hrun, hattempts⟩

/-- A view after a creation was there, or is the view of the new job. -/
theorem createWork_view_cases (wf : db.WellFormed)
    (h : createWork incidentId runId jobId payload availableAt db = some db') {id : Uuid} {v : View}
    (hv : db'.view id = some v) : db.view id = some v ∨
      id = jobId ∧ v = ⟨{ newJob jobId runId availableAt with payload := payload },
        newRun runId incidentId availableAt, db.attempts id⟩ := by
  have wf' := createWork_wellFormed wf h
  obtain ⟨freshRun, freshJob, rfl⟩ := of_createWork h
  obtain ⟨hjob, hrun, hattempts⟩ := WorkerTables.view_eq_some.1 hv
  rcases List.mem_append.1 (Table.mem_of_lookup hjob) with old | new
  · left
    obtain ⟨run, found⟩ := wf.jobRunExists v.job old
    have same : some run = some v.run := (lookup_append found).symm.trans hrun
    cases same
    have stored := wf.jobIds.lookup_of_mem old
    rw [Table.lookup_key hjob] at stored
    exact WorkerTables.view_eq_some.2 ⟨stored, found, hattempts⟩
  · right
    rw [List.mem_singleton] at new
    have last : newRun runId incidentId availableAt ∈ db.rcaRuns ++
        [newRun runId incidentId availableAt] := by simp
    have found := wf'.runIds.lookup_of_mem last
    rw [new] at hrun
    have same : some (newRun runId incidentId availableAt) = some v.run := found.symm.trans hrun
    obtain ⟨job, run, attempts⟩ := v
    cases same
    cases hattempts
    dsimp only at new
    subst new
    exact ⟨(Table.lookup_key hjob).symm, rfl⟩

theorem createWork_view_back (wf : db.WellFormed)
    (h : createWork incidentId runId jobId payload availableAt db = some db') {id : Uuid} {v : View}
    (hv : db'.view id = some v) : db.view id = some v ∨ v.Agrees := by
  rcases createWork_view_cases wf h hv with before | ⟨-, rfl⟩
  · exact .inl before
  · exact .inr List.mem_cons_self

theorem createWork_orderly {s : LifecycleState} (orderly : s.Orderly)
    (h : createWork incidentId runId jobId payload availableAt s.db = some db') :
    LifecycleState.Orderly { s with db := db' } := by
  have wf := orderly.sound.wellFormed
  refine ⟨⟨createWork_wellFormed wf h, fun p x hx => ?_⟩, ?_, ?_⟩
  · refine (orderly.sound.calls p x hx).mono fun m genuine => ?_
    obtain ⟨v, hv, names⟩ := genuine
    exact ⟨v, createWork_view h hv, names⟩
  · obtain ⟨-, -, same⟩ := of_createWork h
    rw [same]
    intro run hrun
    rcases List.mem_append.1 hrun with hrun | hrun
    · obtain ⟨job, hjob, host⟩ := orderly.hosted run hrun
      exact ⟨job, List.mem_append_left _ hjob, host⟩
    · rw [List.mem_singleton.1 hrun]
      exact ⟨{ newJob jobId runId availableAt with payload := payload }, by simp, rfl⟩
  · intro id v hv
    rcases createWork_view_back wf h hv with before | agrees
    · exact orderly.agrees id v before
    · exact agrees

end Create

/-! ## Handlers -/

/-- The same runs, and jobs of the same runs. -/
structure WorkerTables.SameKeys (db db' : WorkerTables) : Prop where
  runs : db'.rcaRuns.map RcaRun.id = db.rcaRuns.map RcaRun.id
  jobs : db'.workerJobs.map WorkerJob.rcaRunId = db.workerJobs.map WorkerJob.rcaRunId

section Worker

variable {x : Handling} {now : Timestamp} {db db' : WorkerTables} {mv : Move} {phase : Phase}

theorem WorkerTables.SameKeys.refl : db.SameKeys db := ⟨rfl, rfl⟩

theorem updated_sameKeys {onJob : WorkerJob → Prop} [DecidablePred onJob] {setJob : WorkerJob → WorkerJob}
    {onRun : RcaRun → Prop} [DecidablePred onRun] {setRun : RcaRun → RcaRun} {attempts : List WorkerAttempt}
    (jobKey : ∀ j, (setJob j).rcaRunId = j.rcaRunId) (runKey : ∀ r, (setRun r).id = r.id) :
    db.SameKeys (updated db onJob setJob onRun setRun attempts) :=
  ⟨Table.map_updateWhere runKey, Table.map_updateWhere jobKey⟩

theorem claim_sameKeys {h : RcaJobHandler} {m : RcaJobMessage} {c : Option RcaJobClaim}
    (hc : h.claim m now db = .ok (c, db')) :
    db.SameKeys db' := by
  unfold RcaJobHandler.claim at hc
  dsimp only at hc
  split at hc
  · cases hc
    exact .refl
  · split at hc
    · cases hc
    · cases hc
      exact updated_sameKeys (fun _ => rfl) fun _ => rfl

theorem mark_sameKeys (m : RcaJobMessage) (code : LifecycleFailureCode) :
    db.SameKeys (RcaJobHandler.markUnclaimedTerminal m code now db) := by
  unfold RcaJobHandler.markUnclaimedTerminal
  dsimp only
  split
  · exact .refl
  · exact ⟨Table.map_updateWhere fun _ => rfl, Table.map_updateWhere fun _ => rfl⟩

theorem renew_sameKeys (c : RcaJobClaim) : db.SameKeys (c.renewLease now db).2 :=
  ⟨rfl, Table.map_updateWhere fun _ => rfl⟩

theorem settleSuccess_sameKeys (c : RcaJobClaim) (r : RcaProcessingResult) :
    db.SameKeys (c.settleSuccess r now db).2 := by
  unfold RcaJobClaim.settleSuccess
  split
  · exact .refl
  · next jobs found =>
    have := congrArg Prod.snd found
    subst this
    exact updated_sameKeys (fun _ => rfl) fun _ => rfl

theorem settleFailure_sameKeys (c : RcaJobClaim) (code : LifecycleFailureCode) :
    db.SameKeys (c.settleFailure code now db).2 := by
  unfold RcaJobClaim.settleFailure
  dsimp only
  split
  · exact .refl
  · next jobs found =>
    have := congrArg Prod.snd found
    subst this
    exact updated_sameKeys (fun _ => rfl) fun _ => rfl

/-- A property that every transaction of a call keeps is kept by its moves. -/
theorem advance_keeps {P : WorkerTables → Prop} (same : P db)
    (claims : ∀ c db', x.handler.claim x.message now db = .ok (c, db') → P db')
    (marks : ∀ code, P (RcaJobHandler.markUnclaimedTerminal x.message code now db))
    (renews : ∀ c : RcaJobClaim, P (c.renewLease now db).2)
    (succeeds : ∀ (c : RcaJobClaim) r, P (c.settleSuccess r now db).2)
    (fails : ∀ (c : RcaJobClaim) code, P (c.settleFailure code now db).2)
    (reports : ∀ runId d newId, P (persistReport runId d newId db))
    (h : advance x now db mv = some (phase, db')) : P db' := by
  cases mv with
  | claim =>
    simp only [advance] at h
    split at h
    · split at h
      · cases h
      · next hc =>
        cases h
        exact claims _ _ hc
      · next hc =>
        cases h
        exact claims _ _ hc
    · cases h
  | mark =>
    simp only [advance] at h
    split at h
    · cases h
      exact marks _
    · cases h
  | renew =>
    simp only [advance] at h
    split at h
    · cases h
      exact renews _
    · cases h
  | settle =>
    simp only [advance] at h
    split at h
    · cases h
      exact succeeds _ _
    · cases h
      exact fails _ _
    · cases h
  | persistReport d failureCode newId =>
    simp only [advance] at h
    split at h
    · cases h
      exact reports _ _ _
    · cases h
  | readUnclaimed =>
    simp only [advance] at h
    split at h
    · split at h <;> cases h <;> exact same
    · cases h
  | start remaining =>
    simp only [advance] at h
    split at h
    · cases h
      exact same
    · cases h
  | renewalEnds e =>
    simp only [advance] at h
    split at h
    · split at h
      · cases h
      · cases h
        exact same
    · cases h
  | wake remaining w =>
    simp only [advance] at h
    split at h
    · obtain ⟨p, -, he⟩ := Option.map_eq_some_iff.1 h
      cases he
      exact same
    · cases h

/-- A move adds no run and no job, and moves no job to another run. -/
theorem advance_sameKeys (h : advance x now db mv = some (phase, db')) : db.SameKeys db' := by
  apply advance_keeps .refl _ _ _ _ _ _ h
  · exact fun _ _ hc => claim_sameKeys hc
  · exact mark_sameKeys _
  · exact renew_sameKeys
  · exact settleSuccess_sameKeys
  · exact settleFailure_sameKeys
  · exact fun _ _ _ => ⟨rfl, rfl⟩

theorem StepCases.sameKeys {s t : LifecycleState} {a : Action} (h : StepCases s a t) :
    s.db.SameKeys t.db := by
  cases h with
  | deliver | tick | crash => exact .refl
  | move call move effect => exact advance_sameKeys move

theorem StepCases.orderly {s t : LifecycleState} {a : Action} (h : StepCases s a t) (orderly : s.Orderly) :
    t.Orderly where
  sound := h.sound orderly.sound
  hosted := by
    obtain ⟨runs, jobs⟩ := h.sameKeys
    intro run hrun
    have id : run.id ∈ s.db.rcaRuns.map RcaRun.id := runs ▸ List.mem_map_of_mem hrun
    obtain ⟨old, hold, same⟩ := List.mem_map.1 id
    obtain ⟨job, hjob, host⟩ := orderly.hosted old hold
    have host' : run.id ∈ t.db.workerJobs.map WorkerJob.rcaRunId := by
      rw [jobs, ← same, ← host]
      exact List.mem_map_of_mem hjob
    exact List.mem_map.1 host'
  agrees := by
    intro id w hw
    obtain ⟨v, hv, rfl | step⟩ := h.view_back hw
    · exact orderly.agrees id w hv
    · exact step.agrees (orderly.agrees id v hv)

end Worker

/-- Every reachable state is orderly. -/
theorem orderly_invariant {s : LifecycleState} (reach : runs.Reachable s) : s.Orderly := by
  refine reach.invariant (fun s init => ?_) fun s a t orderly hstep => ?_
  · obtain ⟨empty, idle⟩ := init
    refine ⟨⟨?_, fun p x hx => ?_⟩, ?_, ?_⟩
    · rw [empty]
      exact ⟨List.nodup_nil, List.nodup_nil, List.nodup_nil, fun _ h => by cases h⟩
    · rw [idle p] at hx
      cases hx
    · rw [empty]
      intro run hrun
      cases hrun
    · rw [empty]
      intro id v hv
      cases hv
  · cases a with
    | create incidentId runId jobId payload availableAt =>
      obtain ⟨db, hdb, rfl⟩ := Option.map_eq_some_iff.1 hstep
      exact createWork_orderly orderly hdb
    | worker a => exact (step_cases orderly.sound hstep).orderly orderly

/-! ## Which steps respect the domain -/

section Respected

variable {s t : LifecycleState}

/-- Every run is the run of a view. -/
theorem LifecycleState.Orderly.view_of_run (orderly : s.Orderly) {runId : Uuid} {run : RcaRun}
    (h : s.db.run runId = some run) :
    ∃ id v, s.db.view id = some v ∧ v.run = run ∧ v.job.rcaRunId = runId := by
  obtain ⟨job, hjob, host⟩ := orderly.hosted run (Table.mem_of_lookup h)
  obtain ⟨v, hv, rfl⟩ :=
    orderly.sound.wellFormed.view_of_job (orderly.sound.wellFormed.jobIds.lookup_of_mem hjob)
  have key : v.job.rcaRunId = runId := host.trans (Table.lookup_key h)
  have found := (WorkerTables.view_eq_some.1 hv).2.1
  rw [key, h] at found
  exact ⟨_, v, hv, (Option.some.inj found).symm, key⟩

theorem respected_of_same (same : t.db.rcaRuns = s.db.rcaRuns) : StatusRespected s t := by
  intro runId run run' before after
  rw [WorkerTables.run, same] at after
  cases before.symm.trans after
  exact .inl rfl

/-- A rewriting of one view respects the domain, if its run does. -/
theorem respected_of_rewrites (orderly : s.Orderly) {id : Uuid} {v : View} {f : View → View}
    (view : s.db.view id = some v) (step : v.Step (f v)) (rewrites : Rewrites id f s.db t.db)
    (ok : v.run.status.Respects (f v).run.status) : StatusRespected s t := by
  intro runId run run' before after
  obtain ⟨id', v', hv', rfl, key⟩ := orderly.view_of_run before
  by_cases here : id' = id
  · subst here
    cases view.symm.trans hv'
    have found := (WorkerTables.view_eq_some.1 (rewrites.here v view)).2.1
    rw [step.frame.2.1, key, after] at found
    rw [Option.some.inj found]
    exact ok
  · have kept := (rewrites.elsewhere id' here).trans hv'
    have found := (WorkerTables.view_eq_some.1 kept).2.1
    rw [key, after] at found
    cases found
    exact .inl rfl

/-- The statuses of a run before and after a rewriting of its view. -/
theorem StatusRespected.view (respected : StatusRespected s t) {id : Uuid} {v : View} {f : View → View}
    (view : s.db.view id = some v) (step : v.Step (f v)) (rewrites : Rewrites id f s.db t.db) :
    v.run.status.Respects (f v).run.status := by
  have before := (WorkerTables.view_eq_some.1 view).2.1
  have after := (WorkerTables.view_eq_some.1 (rewrites.here v view)).2.1
  rw [step.frame.2.1] at after
  exact respected _ _ _ before after

/-- A step of a handler respects the domain unless it requeues a run or fails a queued one. -/
theorem worker_respects_iff (orderly : s.Orderly) {a : Action} (h : StepCases s a t) :
    StatusRespected s t ↔ ¬ Requeues s (.worker a) ∧ ¬ FailsQueued s (.worker a) := by
  constructor
  · intro respected
    constructor
    · rintro ⟨p, x, c, code, v, same, call, at_, retried, view, held⟩
      cases same
      cases h with
      | move call' _ effect =>
        cases call'.symm.trans call
        cases effect with
        | proceeds quiet | stopped quiet => exact quiet
        | superseded at' view' lost =>
          rw [at_] at at'
          cases at'
          cases view'.symm.trans view
          exact lost held
        | succeeded r at' =>
          rw [at_] at at'
          cases at'
        | failed code' at' view' held' rewrites =>
          rw [at_] at at'
          cases at'
          cases view'.symm.trans view
          have changed := respected.view view (.settleFailure c code s.now held) rewrites
          rw [(orderly.agrees _ v view).running_iff.2 held.1] at changed
          simp only [View.unsettled, RcaJobClaim.unsettledRun, retried] at changed
          revert changed
          decide
    · rintro ⟨p, x, code, v, same, call, at_, view, queued⟩
      cases same
      cases h with
      | move call' _ effect =>
        cases call'.symm.trans call
        cases effect with
        | proceeds quiet | stopped quiet => exact quiet
        | markedLate code' at' view' terminal =>
          cases view'.symm.trans view
          rw [queued] at terminal
          rcases terminal with terminal | terminal <;> cases terminal
        | marked code' at' view' names live rewrites =>
          cases view'.symm.trans view
          have changed := respected.view view (.mark code' s.now live) rewrites
          rw [(orderly.agrees _ v view).queued_iff.2 queued] at changed
          revert changed
          simp only [View.marked, RcaJobHandler.failedRun]
          decide
  · rintro ⟨noRequeue, noFailure⟩
    cases h with
    | deliver | tick | crash => exact respected_of_same rfl
    | move call move effect =>
      cases effect with
      | refused | dismissed | postponed | doomed | markedLate | proceeds | stopped | superseded =>
        exact respected_of_same rfl
      | reported d failureCode newId => exact respected_of_same rfl
      | @claimed v db' at_ view names open_ rewrites =>
        refine respected_of_rewrites orderly view (.claim _ _ open_) rewrites ?_
        have agrees := orderly.agrees _ v view
        rcases open_.2.2.2 with queued | ⟨running, -⟩
        · rw [agrees.queued_iff.2 queued]
          exact .inr rfl
        · rw [agrees.running_iff.2 running]
          exact .inl rfl
      | @renewed c phase v db' at_ keeps view held rewrites =>
        exact respected_of_rewrites orderly view (.renew c _ held) rewrites (.inl rfl)
      | @marked v db' code at_ view names live rewrites =>
        refine respected_of_rewrites orderly view (.mark code _ live) rewrites ?_
        have agrees := orderly.agrees _ v view
        cases status : v.job.status with
        | QUEUED => exact absurd ⟨_, _, code, v, rfl, call, at_, view, status⟩ noFailure
        | RUNNING =>
          rw [agrees.running_iff.2 status]
          exact .inr rfl
        | SUCCEEDED => exact absurd (.inl status) live
        | FAILED => exact absurd (.inr status) live
      | @succeeded c v db' r at_ view held rewrites =>
        refine respected_of_rewrites orderly view (.settleSuccess c r _ held) rewrites ?_
        rw [(orderly.agrees _ v view).running_iff.2 held.1]
        obtain ⟨status, failure⟩ := r
        cases status <;> exact .inr rfl
      | @failed c v db' code at_ view held rewrites =>
        refine respected_of_rewrites orderly view (.settleFailure c code _ held) rewrites ?_
        rw [(orderly.agrees _ v view).running_iff.2 held.1]
        cases final : c.terminalFailure code with
        | false => exact absurd ⟨_, _, c, code, v, rfl, call, at_, final, view, held⟩ noRequeue
        | true =>
          simp only [View.unsettled, RcaJobClaim.unsettledRun, final]
          exact .inr rfl

/-- A creation changes no run. -/
theorem create_respects {incidentId runId jobId : Uuid} {payload : Json} {availableAt : Timestamp}
    {db : WorkerTables} (h : createWork incidentId runId jobId payload availableAt s.db = some db) :
    StatusRespected s { s with db := db } := by
  obtain ⟨-, -, rfl⟩ := of_createWork h
  intro id run run' before after
  cases (lookup_append before).symm.trans after
  exact .inl rfl

/-- A step respects the domain exactly if it neither settles a failure that is retried nor terminates
a queued job. -/
theorem step_respects_iff (reach : runs.Reachable s) {a : RunAction} (hstep : runs.step s a = some t) :
    StatusRespected s t ↔ ¬ Requeues s a ∧ ¬ FailsQueued s a := by
  have orderly := orderly_invariant reach
  cases a with
  | worker a => exact worker_respects_iff orderly (step_cases orderly.sound hstep)
  | create incidentId runId jobId payload availableAt =>
    obtain ⟨db, hdb, rfl⟩ := Option.map_eq_some_iff.1 hstep
    refine ⟨fun _ => ⟨?_, ?_⟩, fun _ => create_respects hdb⟩
    · rintro ⟨p, x, c, code, v, same, -⟩
      cases same
    · rintro ⟨p, x, code, v, same, -⟩
      cases same

end Respected

/-! ## Whole runs -/

/-- Runs are never deleted. -/
theorem run_stays {s t : LifecycleState} (orderly : s.Orderly) {a : RunAction}
    (hstep : runs.step s a = some t) {runId : Uuid} {run : RcaRun} (h : s.db.run runId = some run) :
    ∃ run', t.db.run runId = some run' := by
  cases a with
  | create incidentId newId jobId payload availableAt =>
    obtain ⟨db, hdb, rfl⟩ := Option.map_eq_some_iff.1 hstep
    obtain ⟨-, -, rfl⟩ := of_createWork hdb
    exact ⟨run, lookup_append h⟩
  | worker a =>
    obtain ⟨id, v, hv, rfl, key⟩ := orderly.view_of_run h
    obtain ⟨w, hw, same | step⟩ := lifecycle_view_step orderly.sound hstep hv
    · rw [same] at hw
      exact ⟨v.run, key ▸ (WorkerTables.view_eq_some.1 hw).2.1⟩
    · exact ⟨w.run, key ▸ step.frame.2.1 ▸ (WorkerTables.view_eq_some.1 hw).2.1⟩

/-- In a run without retries and without terminations of queued jobs, every status is reached by
transitions of the domain. -/
theorem statuses_follow {s t : LifecycleState} (reach : runs.Reachable s)
    (run : runs.Run (fun s a => ¬ Requeues s a ∧ ¬ FailsQueued s a) s t) {runId : Uuid} {row : RcaRun}
    (h : s.db.run runId = some row) :
    ∃ row', t.db.run runId = some row' ∧
      Relation.ReflTransGen (fun status target => status.canTransitionTo target =
        true) row.status row'.status := by
  induction run with
  | refl => exact ⟨row, h, .refl⟩
  | @tail u v a before ok hstep ih =>
    obtain ⟨mid, hmid, path⟩ := ih
    have reached : runs.Reachable u := reach.steps before.steps
    obtain ⟨row', hrow'⟩ := run_stays (orderly_invariant reached) hstep hmid
    refine ⟨row', hrow', ?_⟩
    rcases (step_respects_iff reached hstep).2 ok runId mid row' hmid hrow' with same | allowed
    · rw [same]
      exact path
    · exact path.tail allowed

/-- In every reachable state, a step respects the domain exactly if it neither settles a failure that
is retried nor terminates a queued job; so in a run without such steps every status is reached by
transitions of the domain. -/
theorem run_status_respected_iff {s : LifecycleState} (reach : runs.Reachable s) :
    (∀ a t, runs.step s a = some t → (StatusRespected s t ↔ ¬ Requeues s a ∧ ¬ FailsQueued s a)) ∧
    ∀ t, runs.Run (fun s a => ¬ Requeues s a ∧ ¬ FailsQueued s a) s t →
      ∀ runId row, s.db.run runId = some row →
      ∃ row', t.db.run runId = some row' ∧
        Relation.ReflTransGen (fun status target => status.canTransitionTo target =
          true) row.status row'.status :=
  ⟨fun _ _ hstep => step_respects_iff reach hstep, fun _ run _ _ h => statuses_follow reach run h⟩

/-! ## Steps outside the domain -/

/-- The empty tables. -/
def emptyState : LifecycleState := ⟨⟨[], [], [], [], [], []⟩, 0, fun _ => none⟩

theorem empty_init : runs.init emptyState := ⟨rfl, fun _ => rfl⟩

/-- A claimed run whose tools cannot be reached. -/
def unreachableTools : List RunAction :=
  [.create 3 2 1 .null 0, .worker (.deliver 0 (.named "a") ⟨1, 2, 3⟩), .worker (.move 0 .claim),
    .worker (.move 0 (.start 200)), .worker (.move 0 (.wake 1 (.processorRaised .connectionError)))]

/-- A job that is first delivered after its deadline. -/
def lateDelivery : List RunAction :=
  [.create 3 2 1 .null 0, .worker (.tick 300000000), .worker (.deliver 0 (.named "a") ⟨1, 2, 3⟩),
    .worker (.move 0 .claim), .worker (.move 0 .readUnclaimed)]

/-- The status of run `2`. -/
def statusOf (s : LifecycleState) : Option RcaRunStatus := (s.db.run 2).map RcaRun.status

/-- The statuses of run `2` before and after a step that follows a run. -/
def statuses (labels : List RunAction) (a : RunAction) : Option (Option RcaRunStatus × Option RcaRunStatus) :=
  (runs.exec emptyState labels).bind fun s => (runs.step s a).map fun t => (statusOf s, statusOf t)

theorem changed_of_statuses {labels : List RunAction} {a : RunAction} {old new : RcaRunStatus}
    (h : statuses labels a = some (some old, some new)) :
    ∃ s t, runs.Reachable s ∧ runs.step s a = some t ∧ (StatusRespected s t → old.Respects new) := by
  obtain ⟨s, hs, h⟩ := Option.bind_eq_some_iff.1 h
  obtain ⟨t, ht, h⟩ := Option.map_eq_some_iff.1 h
  rw [Prod.mk.injEq] at h
  obtain ⟨run, before, rfl⟩ := Option.map_eq_some_iff.1 h.1
  obtain ⟨run', after, rfl⟩ := Option.map_eq_some_iff.1 h.2
  exact ⟨s, t, ⟨_, empty_init, System.run_of_exec hs⟩, ht, fun respected => respected 2 run run' before after⟩

/-- A retry takes a run from `RUNNING` to `QUEUED`, and a late delivery one from `QUEUED` to `FAILED`. -/
theorem run_status_not_respected :
    (∃ s t, runs.Reachable s ∧ runs.step s (.worker (.move 0 .settle)) = some t ∧ ¬ StatusRespected s t) ∧
    ∃ s t, runs.Reachable s ∧ runs.step s (.worker (.move 0 .mark)) = some t ∧ ¬ StatusRespected s t := by
  constructor
  · obtain ⟨s, t, reach, step, respects⟩ := changed_of_statuses
      (show statuses unreachableTools (.worker (.move 0 .settle)) =
        some (some .RUNNING, some .QUEUED) by decide)
    exact ⟨s, t, reach, step, fun respected => absurd (respects respected) (by decide)⟩
  · obtain ⟨s, t, reach, step, respects⟩ := changed_of_statuses
      (show statuses lateDelivery (.worker (.move 0 .mark)) = some (some .QUEUED, some .FAILED) by decide)
    exact ⟨s, t, reach, step, fun respected => absurd (respects respected) (by decide)⟩

/-- A claim is within the domain. -/
theorem claim_status_respected : ∃ s t, runs.step s (.worker (.move 0 .claim)) = some t ∧
      StatusRespected s t := by
  obtain ⟨s, t, reach, step, -⟩ := changed_of_statuses
    (show statuses (unreachableTools.take 2) (.worker (.move 0 .claim)) =
      some (some .QUEUED, some .RUNNING) by decide)
  refine ⟨s, t, step, ((run_status_respected_iff reach).1 _ t step).2 ⟨?_, ?_⟩⟩
  · rintro ⟨p, x, c, code, v, same, -⟩
    cases same
  · rintro ⟨p, x, code, v, same, -⟩
    cases same

end SreAgent.Lifecycle
