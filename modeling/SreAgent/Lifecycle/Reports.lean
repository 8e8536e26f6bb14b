import SreAgent.Lifecycle.Disposition

/-!
# Report and run status

The processor commits its report before the handler settles the job, in a transaction that
looks at neither the lease nor the status of the run. `Agrees` is the relation between the two
that an operator reads; `Agreeing` is what a single move has to find for `Agrees` to survive
it (`agrees_step_iff`), so a run whose moves all find it keeps every job's report and status in
agreement (`report_agrees`), and a deadline that passes between the two transactions breaks it.
-/

namespace SreAgent.Lifecycle
open Base Pubsub

/-- A status `validate_rca_run_transition` allows nothing to leave. -/
def RcaRunStatus.Terminal (s : RcaRunStatus) : Prop :=
  s = .SUCCEEDED ∨ s = .PARTIAL ∨ s = .FAILED ∨ s = .CANCELLED

instance (s : RcaRunStatus) : Decidable s.Terminal := by unfold RcaRunStatus.Terminal; infer_instance

/-- A terminal run and its latest report tell the same outcome. -/
def Agrees (db : WorkerTables) (run : RcaRun) : Prop :=
  run.status.Terminal →
    (run.status = .SUCCEEDED ∨ run.status = .PARTIAL → ∃ r, db.latestReport run.id = some r) ∧
    ∀ r, db.latestReport run.id = some r →
      (r.resultStatus = .COMPLETE ↔ run.status = .SUCCEEDED) ∧
      (r.resultStatus = .PARTIAL ↔ run.status = .PARTIAL) ∧
      (r.resultStatus = .FAILED ↔ run.status = .FAILED)

/-- The latest report of the run has this status; only a failure may go without a report. -/
def WorkerTables.StoredAs (db : WorkerTables) (runId : Uuid) (status : ResultStatus) : Prop :=
  match db.latestReport runId with
  | some r => r.resultStatus = status
  | none => status = .FAILED

/-- What a move has to find in the tables for the outcome it writes to match the other one. -/
def Agreeing (db : WorkerTables) (v : View) : Move → Phase → Prop
  | .persistReport d _ _, _ => v.run.status.Terminal → v.run.status = RcaJobClaim.runStatusOf d.status
  | .settle, .settlingSuccess c r => c.Holds v.job → db.StoredAs v.run.id r.status
  | .settle, .settlingFailure c code =>
    c.Holds v.job → c.terminalFailure code = true → db.StoredAs v.run.id .FAILED
  | .mark, .marking _ => ¬ v.job.status.Terminal → db.StoredAs v.run.id .FAILED
  | _, _ => True

/-- A step of the system as far as the report of job `id` goes. -/
def AgreeingStep (id : Uuid) (s : LifecycleState) : Action → Prop
  | .move p mv =>
    match s.calls p, s.db.view id with
    | some x, some v => x.message.workerJobId = id → Agreeing s.db v mv x.phase
    | _, _ => True
  | _ => True

instance (db : WorkerTables) (runId : Uuid) (status : ResultStatus) :
    Decidable (db.StoredAs runId status) := by
  unfold WorkerTables.StoredAs; split <;> infer_instance

instance (db : WorkerTables) (v : View) (mv : Move) (phase : Phase) : Decidable (Agreeing db v mv phase) := by
  unfold Agreeing; split <;> infer_instance

instance (id : Uuid) (s : LifecycleState) (a : Action) : Decidable (AgreeingStep id s a) := by
  unfold AgreeingStep
  split
  · split <;> infer_instance
  · infer_instance

/-! ## The latest report -/

theorem le_maxVersion {reports : List RcaReport} {r : RcaReport} (hr : r ∈ reports) :
    r.version ≤ maxVersion reports := by
  unfold maxVersion
  induction reports with
  | nil => cases hr
  | cons s rest ih =>
    rcases List.mem_cons.1 hr with rfl | hr
    · exact le_max_left _ _
    · exact (ih hr).trans (le_max_right _ _)

section Report

variable (runId : Uuid) (d : RcaReportDraft) (newId : Nat → Uuid) (db : WorkerTables)

/-- A new report is the latest one of its run. -/
theorem persistReport_latest :
    ∃ r, (persistReport runId d newId db).latestReport runId = some r ∧ r.resultStatus = d.status := by
  have appended : (persistReport runId d newId db).reports runId = db.reports runId ++
      [⟨runId, maxVersion (db.reports runId) + 1, d.summaryZhTw, d.body, d.status⟩] := by
    simp [WorkerTables.reports, persistReport, List.filter_append]
  rw [WorkerTables.latestReport, appended, List.argmax_concat]
  cases hmax : (db.reports runId).argmax RcaReport.version with
  | none => exact ⟨_, rfl, rfl⟩
  | some last =>
    have older := le_maxVersion (List.argmax_mem hmax)
    simp only [Nat.lt_succ_of_le older, if_true]
    exact ⟨_, rfl, rfl⟩

/-- The reports of other runs. -/
theorem persistReport_other {other : Uuid} (hne : other ≠ runId) :
    (persistReport runId d newId db).latestReport other = db.latestReport other := by
  simp [WorkerTables.latestReport, WorkerTables.reports, persistReport, List.filter_append, hne.symm]

end Report

section Agreement

variable {db db' : WorkerTables} {run : RcaRun}

/-- A settled run agrees with its report exactly when the report was stored with that outcome. -/
theorem agrees_iff_storedAs (status : ResultStatus) (h : run.status = RcaJobClaim.runStatusOf status) :
    Agrees db run ↔ db.StoredAs run.id status := by
  have terminal : run.status.Terminal := by
    rw [h]
    cases status <;> simp [RcaJobClaim.runStatusOf, RcaRunStatus.Terminal]
  simp only [Agrees, WorkerTables.StoredAs, terminal, true_implies]
  cases db.latestReport run.id with
  | none => cases status <;> simp [h, RcaJobClaim.runStatusOf]
  | some r =>
    cases status <;> cases hr : r.resultStatus <;> simp [h, hr, RcaJobClaim.runStatusOf]

/-- A terminal run agrees with a report that was just written exactly when they tell the same. -/
theorem agrees_iff_reported {status : ResultStatus} {r : RcaReport} (terminal : run.status.Terminal)
    (latest : db.latestReport run.id = some r) (hr : r.resultStatus = status) :
    Agrees db run ↔ run.status = RcaJobClaim.runStatusOf status := by
  simp only [Agrees, terminal, true_implies, latest, Option.some.injEq]
  rcases terminal with h | h | h | h <;> cases status <;> simp [h, hr, RcaJobClaim.runStatusOf]

theorem agrees_of_open (h : ¬ run.status.Terminal) : Agrees db run := fun terminal => absurd terminal h

/-- `Agrees` reads the reports of the run alone. -/
theorem agrees_congr (h : db'.latestReport run.id = db.latestReport run.id) : Agrees db' run ↔
      Agrees db run := by
  simp only [Agrees, h]

theorem storedAs_congr (h : db'.rcaReports = db.rcaReports) (runId : Uuid) (status : ResultStatus) :
    db'.StoredAs runId status ↔ db.StoredAs runId status := by
  simp only [WorkerTables.StoredAs, WorkerTables.latestReport, WorkerTables.reports, h]

end Agreement

/-! ## One step -/

/-- Two jobs have two runs. -/
theorem WorkerTables.WellFormed.run_ne {db : WorkerTables} (wf : db.WellFormed) {id other : Uuid} {v w : View}
    (hv : db.view id = some v) (hw : db.view other = some w) (hne : other ≠ id) :
    w.job.rcaRunId ≠ v.job.rcaRunId := by
  intro same
  have := List.inj_on_of_nodup_map wf.jobRuns (Table.mem_of_lookup (WorkerTables.view_eq_some.1 hw).1)
    (Table.mem_of_lookup (WorkerTables.view_eq_some.1 hv).1) same
  exact hne (by rw [← WorkerTables.view_job_id hw, ← WorkerTables.view_job_id hv, this])

section Step

variable {x : Handling} {now : Timestamp} {db db' : WorkerTables} {mv : Move} {phase : Phase} {id : Uuid}
  {v w : View}

/-- A call for another job leaves the view and the reports of a job alone. -/
theorem Effect.agrees_other (h : Effect x now db mv phase db') (wf : db.WellFormed) (sound : x.Sound db)
    (hne : x.message.workerJobId ≠ id) (hv : db.view id = some v) (hw : db'.view id = some w) :
    w = v ∧ (Agrees db' w.run ↔ Agrees db v.run) := by
  have untouched : db'.view id = db.view id := by
    cases h with
    | refused | dismissed | postponed | doomed | markedLate | proceeds | stopped | superseded => rfl
    | claimed _ _ _ _ rewrites | marked _ _ _ _ _ rewrites | renewed _ _ _ _ rewrites
    | succeeded _ _ _ _ rewrites | failed _ _ _ _ rewrites => exact rewrites.elsewhere id hne.symm
    | reported => rfl
  cases (hw.symm.trans untouched).trans hv
  refine ⟨rfl, agrees_congr ?_⟩
  have sameReports : db'.rcaReports = db.rcaReports →
      db'.latestReport v.run.id = db.latestReport v.run.id := by
    intro h
    simp only [WorkerTables.latestReport, WorkerTables.reports, h]
  cases h with
  | refused | dismissed | postponed | doomed | markedLate | proceeds | stopped | superseded => rfl
  | claimed _ _ _ _ rewrites | marked _ _ _ _ _ rewrites | renewed _ _ _ _ rewrites
  | succeeded _ _ _ _ rewrites | failed _ _ _ _ rewrites => exact sameReports rewrites.reports
  | reported d _ newId at_ =>
    obtain ⟨u, hu, names⟩ := (sound.claimed _ at_).1
    refine persistReport_other _ _ _ _ ?_
    rw [WorkerTables.view_run_id hv, ← names.2.1]
    exact (wf.run_ne hv hu hne).symm

/-- A call for this job keeps the agreement exactly when its move finds what it has to. -/
theorem Effect.agrees_own (h : Effect x now db mv phase db') (sound : x.Sound db)
    (own : x.message.workerJobId = id) (hv : db.view id = some v) (hw : db'.view id = some w)
    (agrees : Agrees db v.run) : Agrees db' w.run ↔ Agreeing db v mv x.phase := by
  subst own
  have kept : ∀ {u}, db.view x.message.workerJobId = some u → Agrees db u.run := by
    intro u hu
    cases hv.symm.trans hu
    exact agrees
  cases h with
  | refused | dismissed | postponed | doomed =>
    exact iff_of_true (kept hw) trivial
  | proceeds quiet | stopped quiet =>
    refine iff_of_true (kept hw) ?_
    cases mv <;> trivial
  | claimed _ view names open_ rewrites =>
    cases (rewrites.here v hv).symm.trans hw
    refine iff_of_true (agrees_of_open ?_) trivial
    simp [View.claimed, RcaJobHandler.startedRun, RcaRunStatus.Terminal]
  | renewed at_ _ _ _ rewrites =>
    cases (rewrites.here v hv).symm.trans hw
    refine iff_of_true ((agrees_congr ?_).2 agrees) trivial
    simp only [WorkerTables.latestReport, WorkerTables.reports, rewrites.reports, View.renewed]
  | marked code at_ view _ live rewrites =>
    cases (rewrites.here v hv).symm.trans hw
    cases view.symm.trans hv
    rw [agrees_iff_storedAs .FAILED rfl, storedAs_congr rewrites.reports, at_]
    simp only [Agreeing, live, not_false_eq_true, true_implies]
    rfl
  | markedLate code at_ view terminal =>
    cases view.symm.trans hv
    refine iff_of_true (kept hw) ?_
    rw [at_]
    exact fun live => absurd terminal live
  | reported d failureCode newId at_ =>
    have hwv : w = v := Option.some.inj (hw.symm.trans hv)
    subst hwv
    have own : w.run.id = x.message.rcaRunId := by
      obtain ⟨u, hu, names⟩ := (sound.claimed _ at_).1
      cases hu.symm.trans hv
      exact (WorkerTables.view_run_id hv).trans names.2.1
    obtain ⟨r, latest, hr⟩ := persistReport_latest x.message.rcaRunId d newId db
    rw [← own] at latest ⊢
    by_cases terminal : w.run.status.Terminal
    · rw [agrees_iff_reported terminal latest hr]
      simp only [Agreeing, terminal, true_implies]
    · exact iff_of_true (agrees_of_open terminal) fun h => absurd h terminal
  | superseded at_ view lost =>
    cases view.symm.trans hv
    refine iff_of_true (kept hw) ?_
    generalize x.phase = phase at at_
    cases phase with
    | settlingSuccess c r =>
      cases at_
      exact fun held => absurd held lost
    | settlingFailure c code =>
      cases at_
      exact fun held => absurd held lost
    | _ => trivial
  | succeeded r at_ view held rewrites =>
    cases (rewrites.here v hv).symm.trans hw
    cases view.symm.trans hv
    rw [agrees_iff_storedAs r.status rfl, storedAs_congr rewrites.reports, at_]
    simp only [Agreeing, held, true_implies]
    rfl
  | @failed c u db' code at_ view held rewrites =>
    cases (rewrites.here v hv).symm.trans hw
    cases view.symm.trans hv
    rw [at_]
    cases final : c.terminalFailure code with
    | true =>
      rw [agrees_iff_storedAs .FAILED (by simp [View.unsettled, RcaJobClaim.unsettledRun, final,
        RcaJobClaim.runStatusOf]), storedAs_congr rewrites.reports]
      simp only [Agreeing, held, final, true_implies]
      rfl
    | false =>
      refine iff_of_true (agrees_of_open ?_) ?_
      · simp [View.unsettled, RcaJobClaim.unsettledRun, final, RcaRunStatus.Terminal]
      · simp [Agreeing, final]

end Step

/-- The agreement of a job's report survives a step exactly when the step is an agreeing one. -/
theorem agrees_step_iff {s t : LifecycleState} {a : Action} (sound : s.Sound)
    (step : lifecycle.step s a = some t) {id : Uuid} {v w : View} (hv : s.db.view id = some v)
    (hw : t.db.view id = some w) (agrees : Agrees s.db v.run) :
    Agrees t.db w.run ↔ AgreeingStep id s a := by
  cases step_cases sound step with
  | deliver | tick | crash =>
    cases hv.symm.trans hw
    exact iff_of_true agrees trivial
  | @move p mv x phase db' call move effect =>
    have hx := sound.calls p x call
    simp only [AgreeingStep, call, hv]
    by_cases own : x.message.workerJobId = id
    · exact (effect.agrees_own hx own hv hw agrees).trans ⟨fun h _ => h, fun h => h own⟩
    · exact iff_of_true ((effect.agrees_other sound.wellFormed hx own hv hw).2.2 agrees) fun h => absurd h own

/-- In every run whose steps are all agreeing ones, the reports of a job agree with its run, and
the next step keeps that exactly when it is an agreeing one too. -/
theorem report_agrees {s₀ s : LifecycleState} (init : lifecycle.init s₀) {id : Uuid} {v₀ : View}
    (stored : s₀.db.view id = some v₀) (fresh : v₀.Fresh) (run : lifecycle.Run (AgreeingStep id) s₀ s) :
    ∃ v, s.db.view id = some v ∧ Agrees s.db v.run ∧ ∀ a t, lifecycle.step s a = some t →
      ∃ w, t.db.view id = some w ∧ (Agrees t.db w.run ↔ AgreeingStep id s a) := by
  have base : Agrees s₀.db v₀.run := by
    refine agrees_of_open ?_
    simp [fresh.run, RcaRunStatus.Terminal]
  have inv : s.Sound ∧ ∃ v, s.db.view id = some v ∧ Agrees s.db v.run := by
    refine System.Run.invariant (I := fun s => s.Sound ∧ ∃ v, s.db.view id = some v ∧
      Agrees s.db v.run) run ?_
      ⟨sound_invariant (.init init), v₀, stored, base⟩
    rintro s a t ⟨sound, v, hv, agrees⟩ ok step
    obtain ⟨w, hw, -⟩ := lifecycle_view_step sound step hv
    exact ⟨sound_step sound step, w, hw, (agrees_step_iff sound step hv hw agrees).2 ok⟩
  obtain ⟨sound, v, hv, agrees⟩ := inv
  refine ⟨v, hv, agrees, fun a t step => ?_⟩
  obtain ⟨w, hw, -⟩ := lifecycle_view_step sound step hv
  exact ⟨w, hw, agrees_step_iff sound step hv hw agrees⟩

/-- A complete report. -/
def completeDraft : RcaReportDraft :=
  { status := .COMPLETE, summaryZhTw := "完成", hypotheses := [⟨"連線池耗盡", 9 / 10, []⟩], missingEvidence := [],
    remediation := [], verificationSteps := [], complete_cited := by simp, failed_bare := by simp }

/-- One attempt that stores a complete report and settles it. -/
def reportedInTime : List Action :=
  [.deliver 0 (.named "a") ⟨1, 2, 3⟩, .move 0 .claim, .move 0 (.start 300),
    .move 0 (.persistReport completeDraft none fun _ => 7), .move 0 (.wake 200 .processorReturned),
    .move 0 .settle]

/-- The deadline passes between the report and its settlement. -/
def reportedTooLate : List Action :=
  [.deliver 0 (.named "a") ⟨1, 2, 3⟩, .move 0 .claim, .move 0 (.start 300),
    .move 0 (.persistReport completeDraft none fun _ => 7), .tick 300000000,
    .move 0 (.wake 0 .processorReturned), .move 0 .settle]

/-- What the examples read of a state: the status of run `2` and the outcome of its latest report. -/
def outcomes (s : LifecycleState) : Option (RcaRunStatus × Option ResultStatus) :=
  (s.db.view 1).map fun v => (v.run.status, (s.db.latestReport v.run.id).map RcaReport.resultStatus)

/-- A settled report agrees with its run. -/
theorem report_agrees_in_time :
    ∃ s v, lifecycle.execIn (AgreeingStep 1) (queuedState 1 2 3 0) reportedInTime = some s ∧
    s.db.view 1 = some v ∧ Agrees s.db v.run := by
  have enabled : (lifecycle.execIn (AgreeingStep 1) (queuedState 1 2 3 0) reportedInTime).isSome =
      true := by decide
  obtain ⟨s, hs⟩ := Option.isSome_iff_exists.1 enabled
  obtain ⟨v₀, stored, fresh⟩ := queued_fresh 1 2 3 0
  obtain ⟨v, hv, agrees, -⟩ := report_agrees (queued_init 1 2 3 0) stored fresh (System.run_of_exec hs)
  exact ⟨s, v, hs, hv, agrees⟩

/-- A failed run whose latest report is complete. -/
theorem late_report_disagrees : ∃ s v, lifecycle.Reachable s ∧ s.db.view 1 = some v ∧ v.run.status = .FAILED ∧
    (∃ r, s.db.latestReport v.run.id = some r ∧ r.resultStatus = .COMPLETE) ∧ ¬ Agrees s.db v.run := by
  have key : ((lifecycle.exec (queuedState 1 2 3 0) reportedTooLate).bind outcomes) =
      some (.FAILED, some .COMPLETE) := by decide
  obtain ⟨s, hs, key⟩ := Option.bind_eq_some_iff.1 key
  obtain ⟨v, hv, key⟩ := Option.map_eq_some_iff.1 key
  simp only [Prod.mk.injEq] at key
  obtain ⟨failed, report⟩ := key
  obtain ⟨r, latest, complete⟩ := Option.map_eq_some_iff.1 report
  refine ⟨s, v, ⟨_, queued_init 1 2 3 0, System.run_of_exec hs⟩, hv, failed, ⟨r, latest, complete⟩,
    fun agrees => ?_⟩
  have same := (agrees (by simp [failed, RcaRunStatus.Terminal])).2 r latest
  simp [complete, failed] at same

end SreAgent.Lifecycle
