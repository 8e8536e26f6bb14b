import SreAgent.Base.History
import SreAgent.Lifecycle.RunStatus

/-!
# The books of a job

A run that is over has the time it was completed and, if it failed, the code of the step that
terminated it; an attempt that is no longer the current one of a running job has its time as well.
The code is always there (`failure_traced`). The times are forgotten by four kinds of steps, and by
no other: a claim that takes over a running job and the termination of a running job leave the
attempt open, so does a settlement by an older attempt of the same worker, and the settlement of a
final failure leaves the run without its time (`books_kept_iff`).
-/

namespace SreAgent.Lifecycle
open Base Pubsub Ingestion

/-- A run that is over. -/
def RcaRunStatus.Completed (status : RcaRunStatus) : Prop :=
  status = .SUCCEEDED ∨ status = .PARTIAL ∨ status = .FAILED

/-- The times in the tables: completed runs have one, and all attempts but the current ones of running
jobs. -/
structure WorkerTables.Closed (db : WorkerTables) : Prop where
  runs : ∀ run ∈ db.rcaRuns, run.status.Completed → run.completedAt ≠ none
  attempts : ∀ attempt ∈ db.workerAttempts, attempt.completedAt = none →
    ∃ job ∈ db.workerJobs, job.id = attempt.workerJobId ∧ job.status = .RUNNING ∧
      job.attemptCount = attempt.attemptNumber

/-- The failure code a step writes into the run it terminates. -/
def stepCode (s : LifecycleState) : RunAction → Option LifecycleFailureCode
  | .worker (.move p mv) =>
    (s.calls p).bind fun x =>
      match mv, x.phase with
      | .mark, .marking code => some code
      | .settle, .settlingSuccess _ r => RcaJobClaim.failureCodeOf r
      | .settle, .settlingFailure _ code => some code
      | _, _ => none
  | _ => none

/-- The run was not `FAILED` before some step of the history, has had this row since, and carries the
code of that step. -/
def Traced (s₀ : LifecycleState) (labels : List RunAction) (runId : Uuid) (row : RcaRun) : Prop :=
  ∃ u a v code, runs.Crossing (fun s => s.db.run runId = some row) s₀ labels u a v ∧
    (∀ old, u.db.run runId = some old → old.status ≠ .FAILED) ∧ stepCode u a = some code ∧
      row.failureCode = some code

/-- The books after a history. -/
structure BooksKept (s₀ : LifecycleState) (labels : List RunAction) (s : LifecycleState) :
    Prop extends s.db.Closed where
  codes : ∀ runId row, s.db.run runId = some row → row.status = .FAILED → Traced s₀ labels runId row

/-- A move that forgets no time: it takes no running job from an attempt that is not closed, and does
not settle a final failure. -/
def Move.Careful (mv : Move) (x : Handling) (now : Timestamp) (v : View) : Prop :=
  match mv with
  | .claim => v.Matches x.message → x.handler.Claimable now v.job → v.job.status ≠ .RUNNING
  | .mark => v.job.status ≠ .RUNNING
  | .settle => ∀ c, x.phase.claim? = some c → c.Holds v.job → c.attemptNumber = v.job.attemptCount ∧
      ∀ code, x.phase = .settlingFailure c code → c.terminalFailure code = false
  | _ => True

/-- A step whose move, if it is one, is careful. -/
def Careful (s : LifecycleState) (a : RunAction) : Prop :=
  ∀ p mv x v, a = .worker (.move p mv) → s.calls p = some x → s.db.view x.message.workerJobId = some v →
    mv.Careful x s.now v

/-! ## The job of an attempt -/

/-- Every attempt is one of a stored job. -/
def WorkerTables.Hosted (db : WorkerTables) : Prop :=
  ∀ a ∈ db.workerAttempts, a.workerJobId ∈ db.workerJobs.map WorkerJob.id

section Hosted

variable {x : Handling} {now : Timestamp} {db db' : WorkerTables} {mv : Move} {phase : Phase}
  {c : RcaJobClaim}

theorem updated_hosted {onJob : WorkerJob → Prop} [DecidablePred onJob] {setJob : WorkerJob → WorkerJob}
    {onRun : RcaRun → Prop} [DecidablePred onRun] {setRun : RcaRun → RcaRun} {attempts : List WorkerAttempt}
    (jobKey : ∀ j, (setJob j).id = j.id)
    (hosted : ∀ a ∈ attempts, a.workerJobId ∈ db.workerJobs.map WorkerJob.id) :
    (updated db onJob setJob onRun setRun attempts).Hosted := by
  intro a ha
  have same : (updated db onJob setJob onRun setRun attempts).workerJobs.map WorkerJob.id =
      db.workerJobs.map WorkerJob.id :=
    Table.map_updateWhere jobKey
  rw [same]
  exact hosted a ha

theorem hosted_closeAttempt (hosted : db.Hosted) (code : Option LifecycleFailureCode) :
    ∀ a ∈ c.closeAttempt now code db.workerAttempts, a.workerJobId ∈ db.workerJobs.map WorkerJob.id := by
  intro a ha
  have same : (c.closeAttempt now code db.workerAttempts).map WorkerAttempt.workerJobId =
      db.workerAttempts.map WorkerAttempt.workerJobId := Table.map_updateWhere fun _ => rfl
  have listed : a.workerJobId ∈ db.workerAttempts.map WorkerAttempt.workerJobId :=
    same ▸ List.mem_map_of_mem ha
  obtain ⟨old, hold, key⟩ := List.mem_map.1 listed
  exact key ▸ hosted old hold

theorem claim_hosted (hosted : db.Hosted) {h : RcaJobHandler} {m : RcaJobMessage} {c : Option RcaJobClaim}
    (hc : h.claim m now db = .ok (c, db')) : db'.Hosted := by
  unfold RcaJobHandler.claim at hc
  dsimp only at hc
  split at hc
  · cases hc
    exact hosted
  · next job found =>
    split at hc
    · cases hc
    · next attempts inserted =>
      cases hc
      obtain ⟨-, rfl⟩ := Table.insertUnique_eq_some.1 inserted
      refine updated_hosted (fun _ => rfl) fun a ha => ?_
      rcases List.mem_append.1 ha with ha | ha
      · exact hosted a ha
      · have hit := List.find?_some found
        rw [decide_eq_true_eq] at hit
        rw [List.mem_singleton.1 ha]
        exact List.mem_map.2 ⟨job, List.mem_of_find?_eq_some found, hit.1⟩

/-- A move adds attempts of stored jobs only. -/
theorem advance_hosted (hosted : db.Hosted) (h : advance x now db mv = some (phase, db')) : db'.Hosted := by
  apply advance_keeps hosted _ _ _ _ _ _ h
  · exact fun _ _ hc => claim_hosted hosted hc
  · intro code
    unfold RcaJobHandler.markUnclaimedTerminal
    dsimp only
    split
    · exact hosted
    · exact updated_hosted (fun _ => rfl) hosted
  · intro c a ha
    have same : (c.renewLease now db).2.workerJobs.map WorkerJob.id = db.workerJobs.map WorkerJob.id :=
      Table.map_updateWhere fun _ => rfl
    rw [same]
    exact hosted a ha
  · intro c r
    unfold RcaJobClaim.settleSuccess
    split
    · exact hosted
    · next jobs found =>
      have := congrArg Prod.snd found
      subst this
      exact updated_hosted (fun _ => rfl) (hosted_closeAttempt hosted _)
  · intro c code
    unfold RcaJobClaim.settleFailure
    dsimp only
    split
    · exact hosted
    · next jobs found =>
      have := congrArg Prod.snd found
      subst this
      exact updated_hosted (fun _ => rfl) (hosted_closeAttempt hosted _)
  · exact fun _ _ _ => hosted

end Hosted

/-! ## What a move does to one job -/

/-- How a call rewrites the view of its job. -/
inductive Rewriting (x : Handling) (now : Timestamp) (v : View) : Move → View → Prop where
  | claimed (names : v.Matches x.message) (open_ : x.handler.Claimable now v.job) :
      Rewriting x now v .claim (v.claimed x.handler now)
  | renewed (c : RcaJobClaim) (held : c.Holds v.job) : Rewriting x now v .renew (v.renewed now)
  | marked (code : LifecycleFailureCode) (at_ : x.phase = .marking code) (live : ¬ v.job.status.Terminal) :
      Rewriting x now v .mark (v.marked code now)
  | succeeded (c : RcaJobClaim) (r : RcaProcessingResult) (at_ : x.phase = .settlingSuccess c r)
      (held : c.Holds v.job) :
      Rewriting x now v .settle (v.settled c r now)
  | failed (c : RcaJobClaim) (code : LifecycleFailureCode) (at_ : x.phase = .settlingFailure c code)
      (held : c.Holds v.job) :
      Rewriting x now v .settle (v.unsettled c code now)

theorem Rewriting.step {x : Handling} {now : Timestamp} {v w : View} {mv : Move}
    (h : Rewriting x now v mv w) : v.Step w := by
  cases h with
  | claimed names open_ => exact .claim _ _ open_
  | renewed c held => exact .renew c _ held
  | marked code at_ live => exact .mark code _ live
  | succeeded c r at_ held => exact .settleSuccess c r _ held
  | failed c code at_ held => exact .settleFailure c code _ held

section Moves

variable {x : Handling} {now : Timestamp} {db db' : WorkerTables} {mv : Move} {phase : Phase}

theorem Move.Quiet.careful {v : View} (quiet : mv.Quiet) : mv.Careful x now v := by
  cases mv <;> trivial

/-- A move keeps all views and is careful whatever the books, or it rewrites one. -/
theorem Effect.rewriting (h : Effect x now db mv phase db') :
    (∀ id, db'.view id = db.view id) ∧ (∀ v, db.view x.message.workerJobId = some v → mv.Careful x now v) ∨
      ∃ v w, db.view x.message.workerJobId = some v ∧ Rewriting x now v mv w ∧
        db'.view x.message.workerJobId = some w ∧
        ∀ id, id ≠ x.message.workerJobId → db'.view id = db.view id := by
  cases h with
  | refused at_ closed => exact .inl ⟨fun _ => rfl, fun v hv names open_ => absurd open_ (closed v hv names)⟩
  | claimed at_ view names open_ rewrites =>
    exact .inr ⟨_, _, view, .claimed names open_, rewrites.here _ view, rewrites.elsewhere⟩
  | dismissed | postponed | doomed => exact .inl ⟨fun _ => rfl, fun _ _ => trivial⟩
  | marked code at_ view names live rewrites =>
    exact .inr ⟨_, _, view, .marked code at_ live, rewrites.here _ view, rewrites.elsewhere⟩
  | markedLate code at_ view terminal =>
    refine .inl ⟨fun _ => rfl, fun v hv running => ?_⟩
    cases hv.symm.trans view
    rw [running] at terminal
    rcases terminal with status | status <;> cases status
  | proceeds quiet at_ keeps => exact .inl ⟨fun _ => rfl, fun _ _ => quiet.careful⟩
  | renewed at_ keeps view held rewrites =>
    exact .inr ⟨_, _, view, .renewed _ held, rewrites.here _ view, rewrites.elsewhere⟩
  | reported d failureCode newId at_ keeps => exact .inl ⟨fun _ => rfl, fun _ _ => trivial⟩
  | stopped quiet at_ => exact .inl ⟨fun _ => rfl, fun _ _ => quiet.careful⟩
  | superseded at_ view lost =>
    refine .inl ⟨fun _ => rfl, fun v hv c hc held => ?_⟩
    cases hv.symm.trans view
    cases at_.symm.trans hc
    exact absurd held lost
  | succeeded r at_ view held rewrites =>
    exact .inr ⟨_, _, view, .succeeded _ r at_ held, rewrites.here _ view, rewrites.elsewhere⟩
  | failed code at_ view held rewrites =>
    exact .inr ⟨_, _, view, .failed _ code at_ held, rewrites.here _ view, rewrites.elsewhere⟩

end Moves

/-! ## The books of one job -/

/-- The times in the rows of one job. -/
structure View.Closed (v : View) : Prop where
  run : v.run.status.Completed → v.run.completedAt ≠ none
  attempts : ∀ attempt ∈ v.attempts, attempt.completedAt = none →
    v.job.status = .RUNNING ∧ v.job.attemptCount = attempt.attemptNumber

/-- The current attempt of a running job is open, and so is the run of a job that is not over. -/
structure View.Open (v : View) : Prop where
  attempt : v.job.status = .RUNNING →
    ∃ attempt ∈ v.attempts, attempt.attemptNumber = v.job.attemptCount ∧ attempt.completedAt = none
  run : ¬ v.job.status.Terminal → v.run.completedAt = none

/-- Every transaction leaves the current attempt of a running job open. -/
theorem View.Step.open_ {v w : View} (step : v.Step w) (h : v.Open) : w.Open := by
  cases step with
  | claim hd now open_ =>
    have live : ¬ v.job.status.Terminal := (View.Step.claim hd now open_).not_terminal
    constructor
    · intro _
      exact ⟨_, List.mem_append_right _ (List.mem_singleton_self _), rfl, rfl⟩
    · intro _
      exact h.run live
  | renew c now held => exact ⟨h.attempt, h.run⟩
  | mark code now live =>
    constructor
    · intro running
      cases running
    · intro live'
      exact absurd (.inr rfl) live'
  | settleSuccess c r now held =>
    obtain ⟨status, failure⟩ := r
    constructor
    · intro running
      cases status <;> cases running
    · intro live
      cases status with
      | COMPLETE | PARTIAL => exact absurd (.inl rfl) live
      | FAILED => exact absurd (.inr rfl) live
  | settleFailure c code now held =>
    have live : ¬ v.job.status.Terminal := (View.Step.settleFailure c code now held).not_terminal
    simp only [View.unsettled, RcaJobClaim.unsettledJob, RcaJobClaim.unsettledRun]
    constructor
    · intro running
      dsimp only at running
      cases final : c.terminalFailure code <;> rw [final] at running <;> cases running
    · intro _
      exact h.run live

/-- The attempts a settlement leaves open are the open ones it is not for. -/
theorem mem_closeAttempt {c : RcaJobClaim} {now : Timestamp} {code : Option LifecycleFailureCode}
    {attempts : List WorkerAttempt} {a : WorkerAttempt} :
    (a ∈ c.closeAttempt now code attempts ∧ a.completedAt = none) ↔
      a ∈ attempts ∧ a.completedAt = none ∧
        ¬ (a.workerJobId = c.workerJobId ∧ a.attemptNumber = c.attemptNumber) := by
  unfold RcaJobClaim.closeAttempt Table.updateWhere
  rw [List.mem_map]
  constructor
  · rintro ⟨⟨old, hold, rfl⟩, still⟩
    split at still
    · cases still
    · next other =>
      rw [if_neg other]
      exact ⟨hold, still, other⟩
  · rintro ⟨listed, still, other⟩
    exact ⟨⟨a, listed, if_neg other⟩, still⟩

section Rewritings

variable {x : Handling} {now : Timestamp} {v w : View} {mv : Move} {c : RcaJobClaim}

/-- A settlement leaves no attempt open exactly if it is for the current attempt. -/
theorem closeAttempt_closes_iff (own : c.workerJobId = v.job.id)
    (ids : ∀ a ∈ v.attempts, a.workerJobId = v.job.id) (open_ : v.Open) (closed : v.Closed)
    (running : v.job.status = .RUNNING) (code : Option LifecycleFailureCode) :
    (∀ a ∈ c.closeAttempt now code v.attempts, a.completedAt ≠ none) ↔
      c.attemptNumber = v.job.attemptCount := by
  constructor
  · intro closes
    obtain ⟨a, ha, number, still⟩ := open_.attempt running
    by_contra other
    have left : a ∈ c.closeAttempt now code v.attempts ∧ a.completedAt = none :=
      mem_closeAttempt.2 ⟨ha, still, fun hit => other (hit.2.symm.trans number)⟩
    exact closes a left.1 left.2
  · intro current a ha still
    obtain ⟨listed, still, other⟩ := mem_closeAttempt.1 ⟨ha, still⟩
    apply other
    exact ⟨(ids a listed).trans own.symm, (closed.attempts a listed still).2.symm.trans current.symm⟩

/-- A rewriting keeps the books of a job exactly if its move is careful. -/
theorem Rewriting.closed_iff (h : Rewriting x now v mv w)
    (own : ∀ c, x.phase.claim? = some c → c.workerJobId = v.job.id)
    (ids : ∀ a ∈ v.attempts, a.workerJobId = v.job.id) (open_ : v.Open) (closed : v.Closed) :
    w.Closed ↔ mv.Careful x now v := by
  have idle : v.job.status ≠ .RUNNING → ∀ a ∈ v.attempts, a.completedAt ≠ none := fun idle a ha still =>
    idle (closed.attempts a ha still).1
  cases h with
  | claimed names claimable =>
    constructor
    · intro after _ _ running
      obtain ⟨a, ha, number, still⟩ := open_.attempt running
      have next : v.job.attemptCount + 1 = a.attemptNumber :=
        (after.attempts a (List.mem_append_left _ ha) still).2
      omega
    · intro careful
      have fresh := idle (careful names claimable)
      constructor
      · rintro (status | status | status) <;> cases status
      · intro a ha still
        rcases List.mem_append.1 ha with ha | ha
        · exact absurd still (fresh a ha)
        · rw [List.mem_singleton.1 ha]
          exact ⟨rfl, rfl⟩
  | renewed c held => exact iff_of_true ⟨closed.run, closed.attempts⟩ trivial
  | marked code at_ live =>
    constructor
    · intro after running
      obtain ⟨a, ha, -, still⟩ := open_.attempt running
      cases (after.attempts a ha still).1
    · intro careful
      constructor
      · intro _ missing
        cases missing
      · intro a ha still
        exact absurd still (idle careful a ha)
  | succeeded c r at_ held =>
    have current : (∀ a ∈ c.closeAttempt now (RcaJobClaim.failureCodeOf r) v.attempts, a.completedAt ≠ none) ↔
        c.attemptNumber = v.job.attemptCount :=
          closeAttempt_closes_iff (own c (by rw [at_]; rfl)) ids open_ closed held.1 _
    have ended : (v.settled c r now).job.status ≠ .RUNNING := by
      obtain ⟨status, failure⟩ := r
      cases status <;> intro running <;> cases running
    constructor
    · intro after c' hc' _
      rw [at_] at hc'
      cases hc'
      refine ⟨current.1 fun a ha still => ended (after.attempts a ha still).1, fun code at' => ?_⟩
      rw [at_] at at'
      cases at'
    · intro careful
      have closes := current.2 (careful c (by rw [at_]; rfl) held).1
      constructor
      · intro _ missing
        cases missing
      · intro a ha still
        exact absurd still (closes a ha)
  | failed c code at_ held =>
    have current : (∀ a ∈ c.closeAttempt now (some code) v.attempts, a.completedAt ≠ none) ↔
        c.attemptNumber = v.job.attemptCount :=
          closeAttempt_closes_iff (own c (by rw [at_]; rfl)) ids open_ closed held.1 _
    have live : ¬ v.job.status.Terminal := (View.Step.settleFailure c code now held).not_terminal
    have ended : (v.unsettled c code now).job.status ≠ .RUNNING := by
      simp only [View.unsettled, RcaJobClaim.unsettledJob]
      split <;> intro running <;> cases running
    constructor
    · intro after c' hc' _
      rw [at_] at hc'
      cases hc'
      refine ⟨current.1 fun a ha still => ended (after.attempts a ha still).1, fun code' at' => ?_⟩
      rw [at_] at at'
      cases at'
      by_contra final
      rw [Bool.not_eq_false] at final
      have completed : (v.unsettled c code now).run.status.Completed := by
        simp only [View.unsettled, RcaJobClaim.unsettledRun, final]
        exact .inr (.inr rfl)
      exact after.run completed (open_.run live)
    · intro careful
      obtain ⟨number, retried⟩ := careful c (by rw [at_]; rfl) held
      have closes := current.2 number
      constructor
      · intro completed
        simp only [View.unsettled, RcaJobClaim.unsettledRun, retried code at_] at completed
        rcases completed with status | status | status <;> cases status
      · intro a ha still
        exact absurd still (closes a ha)

end Rewritings

/-! ## The books of all jobs -/

/-- Orderly, with a job for every attempt, and open where the jobs are. -/
structure LifecycleState.Booked (s : LifecycleState) : Prop where
  orderly : s.Orderly
  hosted : s.db.Hosted
  opens : ∀ id v, s.db.view id = some v → v.Open

section States

variable {s t : LifecycleState}

theorem createWork_booked {incidentId runId jobId : Uuid} {payload : Json} {availableAt : Timestamp}
    {db : WorkerTables} (booked : s.Booked)
    (h : createWork incidentId runId jobId payload availableAt s.db = some db) :
    LifecycleState.Booked { s with db := db } := by
  refine ⟨createWork_orderly booked.orderly h, ?_, fun id v hv => ?_⟩
  · obtain ⟨-, -, rfl⟩ := of_createWork h
    intro a ha
    rw [List.map_append]
    exact List.mem_append_left _ (booked.hosted a ha)
  · rcases createWork_view_cases booked.orderly.sound.wellFormed h hv with before | ⟨-, rfl⟩
    · exact booked.opens id v before
    · exact ⟨nofun, fun _ => rfl⟩

/-- Every reachable state is booked. -/
theorem booked_invariant (reach : runs.Reachable s) : s.Booked := by
  refine reach.invariant (fun s init => ?_) fun s a t booked hstep => ?_
  · refine ⟨orderly_invariant (.init init), ?_, ?_⟩
    · rw [init.1]
      intro a ha
      cases ha
    · rw [init.1]
      intro id v hv
      cases hv
  · cases a with
    | create incidentId runId jobId payload availableAt =>
      obtain ⟨db, hdb, rfl⟩ := Option.map_eq_some_iff.1 hstep
      exact createWork_booked booked hdb
    | worker a =>
      have cases_ := step_cases booked.orderly.sound hstep
      refine ⟨cases_.orderly booked.orderly, ?_, fun id w hw => ?_⟩
      · cases cases_ with
        | deliver | tick | crash => exact booked.hosted
        | move call move effect => exact advance_hosted booked.hosted move
      · obtain ⟨v, hv, rfl | step⟩ := cases_.view_back hw
        · exact booked.opens id w hv
        · exact step.open_ (booked.opens id v hv)

theorem attempt_id {db : WorkerTables} {id : Uuid} {v : View} (hv : db.view id = some v) :
    ∀ a ∈ v.attempts, a.workerJobId = id := by
  intro a ha
  rw [← (WorkerTables.view_eq_some.1 hv).2.2] at ha
  exact of_decide_eq_true (List.mem_filter.1 ha).2

/-- The books are kept if those of every job are. -/
theorem LifecycleState.Booked.closed_iff (booked : s.Booked) : s.db.Closed ↔ ∀ id v, s.db.view id = some v →
      v.Closed := by
  have wf := booked.orderly.sound.wellFormed
  constructor
  · rintro ⟨runs, attempts⟩ id v hv
    obtain ⟨hjob, hrun, listed⟩ := WorkerTables.view_eq_some.1 hv
    refine ⟨runs v.run (Table.mem_of_lookup hrun), fun a ha still => ?_⟩
    have raw : a ∈ s.db.workerAttempts := (List.mem_filter.1 (listed ▸ ha)).1
    obtain ⟨job, member, host, running, number⟩ := attempts a raw still
    have found := wf.jobIds.lookup_of_mem member
    rw [host, attempt_id hv a ha] at found
    cases found.symm.trans hjob
    exact ⟨running, number⟩
  · intro views
    constructor
    · intro run hrun
      obtain ⟨id, v, hv, rfl, -⟩ := booked.orderly.view_of_run (wf.runIds.lookup_of_mem hrun)
      exact (views id v hv).run
    · intro a ha still
      obtain ⟨job, hjob, host⟩ := List.mem_map.1 (booked.hosted a ha)
      obtain ⟨v, hv, rfl⟩ := wf.view_of_job (wf.jobIds.lookup_of_mem hjob)
      have listed : a ∈ v.attempts := by
        rw [← (WorkerTables.view_eq_some.1 hv).2.2]
        exact List.mem_filter.2 ⟨ha, decide_eq_true host.symm⟩
      exact ⟨v.job, hjob, host, (views _ v hv).attempts a listed still⟩

/-- A step keeps the books exactly if it is careful. -/
theorem step_closed_iff (booked : s.Booked) (closed : s.db.Closed) {a : RunAction}
    (hstep : runs.step s a = some t) (after : t.Booked) : t.db.Closed ↔ Careful s a := by
  have views := booked.closed_iff.1 closed
  cases a with
  | create incidentId runId jobId payload availableAt =>
    refine iff_of_true (after.closed_iff.2 fun id v hv => ?_) fun _ _ _ _ same => by cases same
    obtain ⟨db, hdb, rfl⟩ := Option.map_eq_some_iff.1 hstep
    rcases createWork_view_cases booked.orderly.sound.wellFormed hdb hv with before | ⟨here, rfl⟩
    · exact views id v before
    · obtain ⟨-, freshJob, -⟩ := of_createWork hdb
      constructor
      · rintro (status | status | status) <;> cases status
      intro attempt member _
      obtain ⟨raw, own⟩ := List.mem_filter.1 member
      obtain ⟨job, hjob, host⟩ := List.mem_map.1 (booked.hosted attempt raw)
      exact absurd (host.trans ((of_decide_eq_true own).trans here)) (freshJob job hjob)
  | worker a =>
    have cases_ := step_cases booked.orderly.sound hstep
    cases cases_ with
    | deliver | tick | crash => exact iff_of_true closed fun _ _ _ _ same => by cases same
    | @move p mv x phase db' call move effect =>
      have careful : ∀ v, s.db.view x.message.workerJobId = some v →
          (Careful s (.worker (.move p mv)) ↔ mv.Careful x s.now v) := by
        intro v hv
        refine ⟨fun careful => careful p mv x v rfl call hv, ?_⟩
        rintro careful _ _ _ _ same call' hv'
        cases same
        cases call.symm.trans call'
        cases hv.symm.trans hv'
        exact careful
      rcases effect.rewriting with ⟨kept, quiet⟩ | ⟨v, w, hv, rewriting, hw, elsewhere⟩
      · refine iff_of_true (after.closed_iff.2 fun id v hv => views id v ((kept id).symm.trans hv)) ?_
        rintro _ _ _ v same call' hv
        cases same
        cases call.symm.trans call'
        exact quiet v hv
      · have own : ∀ c, x.phase.claim? = some c → c.workerJobId = v.job.id := fun c hc =>
          ((booked.orderly.sound.calls p x call).claimed c hc).2.1.trans (WorkerTables.view_job_id hv).symm
        have ids : ∀ a ∈ v.attempts, a.workerJobId = v.job.id := fun a ha =>
          (attempt_id hv a ha).trans (WorkerTables.view_job_id hv).symm
        rw [careful v hv, ← rewriting.closed_iff own ids (booked.opens _ v hv) (views _ v hv),
          after.closed_iff]
        constructor
        · exact fun all => all _ w hw
        · intro here id u hu
          by_cases same : id = x.message.workerJobId
          · subst same
            cases hu.symm.trans hw
            exact here
          · exact views id u ((elsewhere id same).symm.trans hu)

/-! ## Codes -/

theorem createWork_run {incidentId newId jobId runId : Uuid} {payload : Json} {availableAt : Timestamp}
    {db db' : WorkerTables} {row : RcaRun}
    (h : createWork incidentId newId jobId payload availableAt db = some db')
    (found : db'.run runId = some row) :
    db.run runId = some row ∨ db.run runId = none ∧ row = newRun newId incidentId availableAt := by
  obtain ⟨-, -, rfl⟩ := of_createWork h
  cases old : db.run runId with
  | some row' => exact .inl ((lookup_append old).symm.trans found)
  | none =>
    right
    rw [WorkerTables.run, Table.lookup, List.find?_append,
      show (db.rcaRuns.find? fun r => decide (r.id = runId)) = none from old, Option.none_or] at found
    exact ⟨rfl, List.mem_singleton.1 (List.mem_of_find?_eq_some found)⟩

/-- The run a rewriting fails carries the code of the step. -/
theorem Rewriting.code {p : Nat} {x : Handling} {v w : View} {mv : Move} (h : Rewriting x s.now v mv w)
    (call : s.calls p = some x) (changed : w.run ≠ v.run) (failed : w.run.status = .FAILED) :
    ∃ code, stepCode s (.worker (.move p mv)) = some code ∧ w.run.failureCode = some code := by
  cases h with
  | claimed names open_ => cases failed
  | renewed c held => exact absurd rfl changed
  | marked code at_ live => exact ⟨code, by simp [stepCode, call, at_], rfl⟩
  | succeeded c r at_ held =>
    obtain ⟨status, failure⟩ := r
    cases status with
    | COMPLETE => cases failed
    | PARTIAL => cases failed
    | FAILED =>
      exact ⟨failure.getD .INTERNAL_ERROR, by simp [stepCode, call, at_, RcaJobClaim.failureCodeOf], rfl⟩
  | failed c code at_ held =>
    simp only [View.unsettled, RcaJobClaim.unsettledRun] at failed ⊢
    cases final : c.terminalFailure code with
    | false => rw [final] at failed; cases failed
    | true => exact ⟨code, by simp [stepCode, call, at_], rfl⟩

/-- A run that was not there in this form and is `FAILED` after a step was not `FAILED` before, and
carries the code of the step. -/
theorem failed_by_step (booked : s.Booked) {a : RunAction} (hstep : runs.step s a = some t)
    (after : t.Booked) {runId : Uuid} {row : RcaRun} (found : t.db.run runId = some row)
    (failed : row.status = .FAILED) (fresh : s.db.run runId ≠ some row) :
    (∀ old, s.db.run runId = some old → old.status ≠ .FAILED) ∧
      ∃ code, stepCode s a = some code ∧ row.failureCode = some code := by
  cases a with
  | create incidentId newId jobId payload availableAt =>
    obtain ⟨db, hdb, rfl⟩ := Option.map_eq_some_iff.1 hstep
    rcases createWork_run hdb found with before | ⟨-, rfl⟩
    · exact absurd before fresh
    · cases failed
  | worker a =>
    have cases_ := step_cases booked.orderly.sound hstep
    cases cases_ with
    | deliver | tick | crash => exact absurd found fresh
    | @move p mv x phase db' call move effect =>
      obtain ⟨id, w, hw, rfl, key⟩ := after.orderly.view_of_run found
      have kept : s.db.view id ≠ some w :=
        fun before => fresh (key ▸ (WorkerTables.view_eq_some.1 before).2.1)
      rcases effect.rewriting with ⟨same, -⟩ | ⟨v, w', hv, rewriting, hw', elsewhere⟩
      · exact absurd ((same id).symm.trans hw) kept
      · by_cases here : id = x.message.workerJobId
        · subst here
          cases hw.symm.trans hw'
          have before : s.db.run runId = some v.run := by
            rw [← key, rewriting.step.frame.2.1]
            exact (WorkerTables.view_eq_some.1 hv).2.1
          refine ⟨fun old hold ended => ?_, rewriting.code call (fun same => fresh (same ▸ before)) failed⟩
          cases before.symm.trans hold
          have agrees := booked.orderly.agrees _ v hv
          refine rewriting.step.not_terminal ?_
          unfold View.Agrees at agrees
          rw [ended] at agrees
          cases status : v.job.status <;> rw [status] at agrees <;> revert agrees <;> decide
        · exact absurd ((elsewhere id here).symm.trans hw) kept

end States

section Histories

variable {s₀ s : LifecycleState} {labels : List RunAction}

/-- A failed run carries the code of the step that terminated it. -/
theorem failure_traced (init : runs.init s₀) (run : runs.exec s₀ labels = some s) {runId : Uuid}
    {row : RcaRun} (found : s.db.run runId = some row) (failed : row.status = .FAILED) :
    Traced s₀ labels runId row := by
  have outside : ¬ s₀.db.run runId = some row := by
    rw [init.1]
    nofun
  obtain ⟨u, a, v, crossing⟩ :=
    System.exists_crossing (P := fun s => s.db.run runId = some row) run outside found
  obtain ⟨before, after, -, here, -⟩ := crossing.split
  have reach : runs.Reachable u := ⟨s₀, init, System.run_of_exec here⟩
  obtain ⟨live, code, written, carried⟩ := failed_by_step (booked_invariant reach) crossing.step
    (booked_invariant (reach.step crossing.step)) crossing.inside failed crossing.outside
  exact ⟨u, a, v, code, crossing, live, written, carried⟩

/-- The books are kept in every state of a history exactly if every step of it is careful. -/
theorem books_kept_iff (init : runs.init s₀) (run : runs.exec s₀ labels = some s) :
    (∀ before after u, labels = before ++ after → runs.exec s₀ before = some u → BooksKept s₀ before u) ↔
      runs.StepsAlong Careful s₀ labels := by
  have closes : runs.Along (fun u => u.db.Closed) s₀ labels ↔ runs.StepsAlong Careful s₀ labels := by
    apply System.along_iff run
    · rw [init.1]
      exact ⟨nofun, nofun⟩
    · intro before u a v here closed next
      have reach : runs.Reachable u := ⟨s₀, init, System.run_of_exec here⟩
      exact step_closed_iff (booked_invariant reach) closed next (booked_invariant (reach.step next))
  rw [← closes]
  constructor
  · exact fun kept before after u split here => (kept before after u split here).toClosed
  · exact fun closed before after u split here =>
      ⟨closed before after u split here, fun _ _ => failure_traced init here⟩

end Histories

/-! ## Forgotten times -/

/-- A claimed run whose processor raises. -/
def finalFailure : List RunAction :=
  [.create 3 2 1 .null 0, .worker (.deliver 0 (.named "a") ⟨1, 2, 3⟩), .worker (.move 0 .claim),
    .worker (.move 0 (.start 200)),
    .worker (.move 0 (.wake 1 (.processorRaised .other))), .worker (.move 0 .settle)]

/-- A run whose first worker is gone is claimed by another. -/
def takenOver : List RunAction :=
  [.create 3 2 1 .null 0, .worker (.deliver 0 (.named "a") ⟨1, 2, 3⟩), .worker (.move 0 .claim),
    .worker (.crash 0),
    .worker (.tick 61000000), .worker (.deliver 1 (.named "b") ⟨1, 2, 3⟩), .worker (.move 1 .claim)]

/-- The run of a failure settled as final has no time of completion, and the attempt that was taken
over has none. -/
theorem times_forgotten :
    (∃ s row, runs.exec emptyState finalFailure = some s ∧ s.db.run 2 = some row ∧ row.status = .FAILED ∧
      row.completedAt = none ∧
      ¬ BooksKept emptyState finalFailure s) ∧
    ∃ s, runs.exec emptyState takenOver = some s ∧
      (s.db.workerAttempts.map fun a => (a.attemptNumber, a.completedAt)) = [(1, none), (2, none)] ∧
      ¬ BooksKept emptyState takenOver s := by
  constructor
  · have ends : ((runs.exec emptyState finalFailure).bind fun s => (s.db.run 2).map fun row =>
      (row.status, row.completedAt)) =
        some (.FAILED, none) := by decide
    obtain ⟨s, hs, ends⟩ := Option.bind_eq_some_iff.1 ends
    obtain ⟨row, found, same⟩ := Option.map_eq_some_iff.1 ends
    rw [Prod.mk.injEq] at same
    refine ⟨s, row, hs, found, same.1, same.2, fun kept => ?_⟩
    exact kept.runs row (Table.mem_of_lookup found) (.inr (.inr same.1)) same.2
  · have ends :
      ((runs.exec emptyState takenOver).map fun s =>
        (s.db.workerAttempts.map fun a => (a.attemptNumber, a.completedAt),
        s.db.workerJobs.map fun job => job.attemptCount)) = some ([(1, none), (2, none)], [2]) := by decide
    obtain ⟨s, hs, same⟩ := Option.map_eq_some_iff.1 ends
    rw [Prod.mk.injEq] at same
    refine ⟨s, hs, same.1, fun kept => ?_⟩
    obtain ⟨a, rest, split, first, -⟩ := List.map_eq_cons_iff.1 same.1
    rw [Prod.mk.injEq] at first
    obtain ⟨job, hjob, -, -, number⟩ := kept.attempts a (by simp [split]) first.2
    have count : job.attemptCount ∈ [2] := same.2 ▸ List.mem_map_of_mem hjob
    rw [number, first.1] at count
    exact absurd count (by decide)

/-- A claim of a queued job, as of a history. -/
theorem claimed_books : ∃ s, runs.exec emptyState (finalFailure.take 3) = some s ∧
    ((∀ before after u, finalFailure.take 3 = before ++ after → runs.exec emptyState before = some u →
      BooksKept emptyState before u) ↔ runs.StepsAlong Careful emptyState (finalFailure.take 3)) := by
  have enabled : (runs.exec emptyState (finalFailure.take 3)).isSome = true := by decide
  obtain ⟨s, hs⟩ := Option.isSome_iff_exists.1 enabled
  exact ⟨s, hs, books_kept_iff empty_init hs⟩

end SreAgent.Lifecycle
