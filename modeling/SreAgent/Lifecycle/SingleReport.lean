import SreAgent.Lifecycle.Attempts
import SreAgent.Lifecycle.Reports

/-!
# One report of a run

The report transaction compares nothing with the job row and nothing with the reports that are
there; it gives the new report the next version. So a run gets one report exactly as long as
reports are written by current attempts and nothing claims the job between a report and its
settlement (`reported_once`).
-/

namespace SreAgent.Lifecycle
open Base Pubsub

/-- The hypotheses of a run. -/
def WorkerTables.hypotheses (db : WorkerTables) (runId : Uuid) : List RcaHypothesisRow :=
  db.rcaHypotheses.filter fun h => h.rcaRunId = runId

/-- The hypothesis rows of a report. -/
def RcaReportDraft.hypothesisRows (d : RcaReportDraft) (runId : Uuid) (newId : Nat → Uuid) :
    List RcaHypothesisRow :=
  d.hypotheses.zipIdx.map fun (h, i) =>
    { id := newId i, rcaRunId := runId, statement := h.statement, confidence := h.confidence }

/-- Nothing is stored of the run, or one report with its hypotheses. -/
inductive WorkerTables.ReportedOnce (db : WorkerTables) (runId : Uuid) : Prop where
  | none (reports : db.reports runId = []) (hypotheses : db.hypotheses runId = [])
  | once (d : RcaReportDraft) (newId : Nat → Uuid)
      (reports : db.reports runId = [⟨runId, 1, d.summaryZhTw, d.body, d.status⟩])
      (hypotheses : db.hypotheses runId = d.hypothesisRows runId newId)

/-- What a step owes to the reports of job `id`: one report at most, written by the current attempt of
a job that is not terminal, and once there is one a redelivery writes nothing and is acknowledged. -/
structure ReportsOnce (id : Uuid) (s : LifecycleState) (a : Action) (t : LifecycleState) : Prop where
  once : ∀ w, t.db.view id = some w → t.db.ReportedOnce w.run.id
  current : ∀ p d failureCode newId c v, a = .move p (.persistReport d failureCode newId) → s.Attempt id p c →
    s.db.view id = some v → c.attemptNumber = v.job.attemptCount ∧ ¬ v.job.status.Terminal
  acknowledged : ∀ p mv x v, a = .move p mv → s.calls p = some x → x.message.workerJobId = id →
    s.db.view id = some v →
    v.Matches x.message → s.db.reports v.run.id ≠ [] → x.phase = .claiming ∨ x.phase = .unclaimed →
    t.db = s.db ∧ ∃ y, t.calls p = some y ∧ (y.phase = .unclaimed ∨ y.phase = .returned .ACK)

/-- A report is of the current attempt of a job that is not terminal; a redelivery after a report
cannot claim the job, and reads it terminal. -/
def Timely (s : LifecycleState) (v : View) (x : Handling) : Move → Phase → Prop
  | .persistReport _ _ _, .executing c _ _ => c.attemptNumber = v.job.attemptCount ∧ ¬ v.job.status.Terminal
  | .claim, .claiming => v.Matches x.message → s.db.reports v.run.id ≠ [] → ¬ x.handler.Claimable s.now v.job
  | .readUnclaimed, .unclaimed => v.Matches x.message → s.db.reports v.run.id ≠ [] → v.job.status.Terminal
  | _, _ => True

/-- A step of the system as far as the number of reports of job `id` goes. -/
def ReportStep (id : Uuid) (s : LifecycleState) : Action → Prop
  | .move p mv =>
    match s.calls p, s.db.view id with
    | some x, some v => x.message.workerJobId = id → Timely s v x mv x.phase
    | _, _ => True
  | _ => True

instance (s : LifecycleState) (v : View) (x : Handling) (mv : Move) (phase : Phase) :
    Decidable (Timely s v x mv phase) :=
  match mv with
  | .persistReport _ _ _ =>
    match phase with
    | .executing c _ _ =>
      (inferInstance : Decidable (c.attemptNumber = v.job.attemptCount ∧ ¬ v.job.status.Terminal))
    | .claiming | .unclaimed | .marking _ | .claimed _ | .settlingSuccess _ _ | .settlingFailure _
      _ | .returned _ => instDecidableTrue
  | .claim =>
    match phase with
    | .claiming =>
      (inferInstance : Decidable (v.Matches x.message → s.db.reports v.run.id ≠ [] →
          ¬ x.handler.Claimable s.now v.job))
    | .executing _ _ _ | .unclaimed | .marking _ | .claimed _ | .settlingSuccess _ _ | .settlingFailure _
      _ | .returned _ => instDecidableTrue
  | .readUnclaimed =>
    match phase with
    | .unclaimed =>
      (inferInstance : Decidable (v.Matches x.message → s.db.reports v.run.id ≠ [] → v.job.status.Terminal))
    | .claiming | .executing _ _ _ | .marking _ | .claimed _ | .settlingSuccess _ _ | .settlingFailure _
      _ | .returned _ => instDecidableTrue
  | .mark | .start _ | .renew | .renewalEnds _ | .wake _ _ | .settle => instDecidableTrue

theorem reportStep_iff {id : Uuid} {s : LifecycleState} {p : Nat} {mv : Move} :
    (∀ x ∈ s.calls p, ∀ v ∈ s.db.view id, x.message.workerJobId = id → Timely s v x mv x.phase) ↔
      ReportStep id s (.move p mv) := by
  simp only [ReportStep]
  cases s.calls p with
  | none => simp
  | some x => cases s.db.view id <;> simp

instance (id : Uuid) (s : LifecycleState) (a : Action) : Decidable (ReportStep id s a) :=
  match a with
  | .move _ _ => decidable_of_iff _ reportStep_iff
  | .deliver _ _ _ | .tick _ | .crash _ => instDecidableTrue

theorem reportStep_move {id : Uuid} {s : LifecycleState} {p : Nat} {mv : Move} {x : Handling} {v : View}
    (call : s.calls p = some x) (hv : s.db.view id = some v) (own : x.message.workerJobId = id) :
    ReportStep id s (.move p mv) ↔ Timely s v x mv x.phase := by
  simp only [ReportStep, call, hv]
  exact ⟨fun h => h own, fun h _ => h⟩

/-! ## What writes reports -/

/-- The claim of a call that has not written its report yet. -/
def Phase.unreported? : Phase → Option RcaJobClaim
  | .claimed c | .executing c .analysing _ => some c
  | _ => none

theorem Phase.claim?_of_unreported {phase : Phase} {c : RcaJobClaim} (h : phase.unreported? = some c) :
    phase.claim? = some c := by
  cases phase with
  | claimed => exact h
  | executing c' processor renewal =>
    cases processor with
    | analysing => exact h
    | reported => cases h
  | _ => cases h

section Moves

variable {x : Handling} {now : Timestamp} {db db' : WorkerTables} {mv : Move} {phase : Phase}
  {c : RcaJobClaim}

theorem wakeUp_unreported {processor : ProcessorState} {renewal : RenewalState} {remaining : Int} {w : Wake}
    (h : wakeUp c processor renewal remaining w = some phase) : phase.unreported? = none := by
  cases w with
  | nothing | processorRaised => cases h; rfl
  | processorReturned =>
    cases processor with
    | analysing => cases h
    | reported r =>
      cases h
      split <;> rfl
  | renewal =>
    cases renewal with
    | renewing => cases h
    | stopped e => cases e <;> cases h <;> rfl

/-- A call that still has to report was so before its move, or has just claimed. -/
theorem advance_unreported (h : advance x now db mv = some (phase, db')) (hc : phase.unreported? = some c) :
    x.phase.unreported? = some c ∨ mv = .claim ∧ x.phase = .claiming := by
  cases mv with
  | claim =>
    simp only [advance] at h
    split at h
    · next at_ => exact .inr ⟨rfl, at_⟩
    · cases h
  | start remaining =>
    simp only [advance] at h
    split at h
    · next c' at_ =>
      cases h
      rw [at_]
      split at hc <;> first | exact .inl hc | cases hc
    · cases h
  | renew =>
    simp only [advance] at h
    split at h
    · next c' processor at_ =>
      cases h
      rw [at_]
      cases processor <;> exact .inl hc
    · cases h
  | renewalEnds e =>
    simp only [advance] at h
    split at h
    · next c' processor at_ =>
      split at h <;> cases h
      rw [at_]
      cases processor <;> exact .inl hc
    · cases h
  | persistReport d failureCode newId =>
    simp only [advance] at h
    split at h <;> cases h
    cases hc
  | readUnclaimed =>
    simp only [advance] at h
    split at h
    · split at h <;> cases h <;> cases hc
    · cases h
  | mark =>
    simp only [advance] at h
    split at h <;> cases h
    cases hc
  | wake remaining w =>
    simp only [advance] at h
    split at h
    · obtain ⟨p, hp, he⟩ := Option.map_eq_some_iff.1 h
      cases he
      rw [wakeUp_unreported hp] at hc
      cases hc
    · cases h
  | settle =>
    simp only [advance] at h
    split at h <;> cases h <;> cases hc

/-- The report transaction: the call had not reported before, and has after. -/
theorem advance_report {d : RcaReportDraft} {failureCode : Option LifecycleFailureCode} {newId : Nat → Uuid}
    (h : advance x now db (.persistReport d failureCode newId) = some (phase, db')) :
    ∃ c renewal, x.phase = .executing c .analysing renewal ∧ phase.unreported? = none ∧
      db' = persistReport c.rcaRunId d newId db := by
  simp only [advance] at h
  split at h
  · next c renewal at_ =>
    cases h
    exact ⟨c, renewal, at_, rfl, rfl⟩
  · cases h

/-- No other move writes a report or a hypothesis. -/
theorem advance_reports (h : advance x now db mv = some (phase, db'))
    (other : ∀ d failureCode newId, mv ≠ .persistReport d failureCode newId) :
    db'.rcaReports = db.rcaReports ∧ db'.rcaHypotheses = db.rcaHypotheses := by
  cases mv with
  | persistReport d failureCode newId => exact absurd rfl (other d failureCode newId)
  | claim =>
    simp only [advance, RcaJobHandler.claim] at h
    split at h
    · split at h
      · cases h
      · next hc =>
        cases h
        split at hc
        · cases hc
          exact ⟨rfl, rfl⟩
        · split at hc <;> cases hc
      · next hc =>
        cases h
        split at hc
        · cases hc
        · split at hc <;> cases hc
          exact ⟨rfl, rfl⟩
    · cases h
  | readUnclaimed =>
    simp only [advance] at h
    split at h
    · split at h <;> cases h <;> exact ⟨rfl, rfl⟩
    · cases h
  | mark =>
    simp only [advance, RcaJobHandler.markUnclaimedTerminal] at h
    split at h <;> cases h
    split <;> exact ⟨rfl, rfl⟩
  | start remaining =>
    simp only [advance] at h
    split at h <;> cases h
    exact ⟨rfl, rfl⟩
  | renew =>
    simp only [advance] at h
    split at h <;> cases h
    exact ⟨rfl, rfl⟩
  | renewalEnds e =>
    simp only [advance] at h
    split at h
    · split at h <;> cases h
      exact ⟨rfl, rfl⟩
    · cases h
  | wake remaining w =>
    simp only [advance] at h
    split at h
    · obtain ⟨p, -, he⟩ := Option.map_eq_some_iff.1 h
      cases he
      exact ⟨rfl, rfl⟩
    · cases h
  | settle =>
    simp only [advance, RcaJobClaim.settleSuccess, RcaJobClaim.settleFailure] at h
    split at h
    · cases h
      split <;> exact ⟨rfl, rfl⟩
    · cases h
      split <;> exact ⟨rfl, rfl⟩
    · cases h

end Moves

/-! ## The reports of one run -/

section Reports

variable {runId other : Uuid} {d : RcaReportDraft} {newId : Nat → Uuid} {db db' : WorkerTables}

theorem persistReport_reports : (persistReport runId d newId db).reports runId =
    db.reports runId ++ [⟨runId, maxVersion (db.reports runId) + 1, d.summaryZhTw, d.body, d.status⟩] := by
  simp [WorkerTables.reports, persistReport, List.filter_append]

theorem persistReport_hypotheses : (persistReport runId d newId db).hypotheses runId =
    db.hypotheses runId ++ d.hypothesisRows runId newId := by
  simp only [WorkerTables.hypotheses, persistReport, List.filter_append, RcaReportDraft.hypothesisRows]
  congr 1
  refine List.filter_eq_self.2 fun row hrow => ?_
  obtain ⟨_, -, rfl⟩ := List.mem_map.1 hrow
  exact decide_eq_true rfl

/-- The rows of other runs stay. -/
theorem persistReport_elsewhere (ne : other ≠ runId) :
    (persistReport runId d newId db).reports other = db.reports other ∧
      (persistReport runId d newId db).hypotheses other = db.hypotheses other := by
  constructor
  · simp [WorkerTables.reports, persistReport, List.filter_append, ne.symm]
  · simp only [WorkerTables.hypotheses, persistReport, List.filter_append, List.append_right_eq_self]
    refine List.filter_eq_nil_iff.2 fun row hrow => ?_
    obtain ⟨_, -, rfl⟩ := List.mem_map.1 hrow
    simpa using ne.symm

/-- The first report of a run. -/
theorem WorkerTables.ReportedOnce.report (h : db.ReportedOnce runId) (none_ : db.reports runId = []) :
    (persistReport runId d newId db).ReportedOnce runId := by
  cases h with
  | none _ hypotheses =>
    refine .once d newId ?_ ?_
    · rw [persistReport_reports, none_]
      rfl
    · rw [persistReport_hypotheses, hypotheses, List.nil_append]
  | once _ _ reports =>
    rw [none_] at reports
    cases reports

theorem reportedOnce_congr (reports : db'.reports runId = db.reports runId)
    (hypotheses : db'.hypotheses runId = db.hypotheses runId) :
    db'.ReportedOnce runId ↔ db.ReportedOnce runId := by
  constructor
  · rintro (⟨h, h'⟩ | ⟨d, newId, h, h'⟩)
    · exact .none (reports ▸ h) (hypotheses ▸ h')
    · exact .once d newId (reports ▸ h) (hypotheses ▸ h')
  · rintro (⟨h, h'⟩ | ⟨d, newId, h, h'⟩)
    · exact .none (reports.trans h) (hypotheses.trans h')
    · exact .once d newId (reports.trans h) (hypotheses.trans h')

end Reports

/-! ## Steps -/

/-- One report at most, and once there is one no current attempt of a job that goes on has still to report. -/
structure LifecycleState.Reporting (s : LifecycleState) (id : Uuid) (v : View) : Prop where
  once : s.db.ReportedOnce v.run.id
  spent : s.db.reports v.run.id ≠ [] → ∀ p x c, s.calls p = some x → x.message.workerJobId = id →
    x.phase.unreported? = some c → c.attemptNumber < v.job.attemptCount ∨ v.job.status.Terminal

section Steps

variable {s t : LifecycleState} {a : Action} {id : Uuid} {v w : View}

/-- A call that has still to report after a step had to before, or has just claimed the job. -/
theorem StepCases.unreported_back (h : StepCases s a t) {p : Nat} {y : Handling} {c : RcaJobClaim}
    (hy : t.calls p = some y) (hc : y.phase.unreported? = some c) :
    (∃ x, s.calls p = some x ∧ x.message = y.message ∧ x.phase.unreported? = some c) ∨
      ∃ x u, a = .move p .claim ∧ s.calls p = some x ∧ x.message = y.message ∧ x.phase = .claiming ∧
        Claims x s.now s.db u c t.db := by
  cases h with
  | deliver q hd m =>
    by_cases hp : p = q
    · subst hp
      rw [LifecycleState.setCall_self] at hy
      cases hy
      cases hc
    · rw [LifecycleState.setCall_of_ne _ hp] at hy
      exact .inl ⟨y, hy, rfl, hc⟩
  | tick => exact .inl ⟨y, hy, rfl, hc⟩
  | crash q =>
    by_cases hp : p = q
    · subst hp
      rw [LifecycleState.setCall_self] at hy
      cases hy
    · rw [LifecycleState.setCall_of_ne _ hp] at hy
      exact .inl ⟨y, hy, rfl, hc⟩
  | @move q mv x phase db' call move effect =>
    by_cases hp : p = q
    · subst hp
      rw [LifecycleState.setCall_self] at hy
      cases hy
      rcases advance_unreported move hc with before | ⟨rfl, at_⟩
      · exact .inl ⟨x, call, rfl, before⟩
      · rcases effect.claim?_back (Phase.claim?_of_unreported hc) with before | ⟨-, u, claims⟩
        · rw [at_] at before
          cases before
        · exact .inr ⟨x, u, rfl, call, rfl, at_, claims⟩
    · rw [LifecycleState.setCall_of_ne _ hp] at hy
      exact .inl ⟨y, hy, rfl, hc⟩

/-- A step that writes no report of the run keeps what holds of them. -/
theorem reporting_kept (sound : s.Sound) (hstep : lifecycle.step s a = some t) (hv : s.db.view id = some v)
    (hw : t.db.view id = some w) (ok : ReportStep id s a) (h : s.Reporting id v)
    (reports : t.db.reports v.run.id = s.db.reports v.run.id)
    (hypotheses : t.db.hypotheses v.run.id = s.db.hypotheses v.run.id) : t.Reporting id w := by
  have cases_ := step_cases sound hstep
  obtain ⟨v', hv', rewritten⟩ := cases_.view_back hw
  cases hv.symm.trans hv'
  have run : w.run.id = v.run.id := by
    rw [WorkerTables.view_run_id hw, WorkerTables.view_run_id hv]
    rcases rewritten with rfl | step
    · rfl
    · exact step.frame.2.1
  refine ⟨?_, fun reported p y c hy own hc => ?_⟩
  · rw [run]
    exact (reportedOnce_congr reports hypotheses).2 h.once
  · rw [run, reports] at reported
    rcases cases_.unreported_back hy hc with ⟨x, hx, same, before⟩ | ⟨x, u, rfl, hx, same, at_, claims⟩
    · rcases h.spent reported p x c hx (same ▸ own) before with older | terminal
      · exact .inl (older.trans_le (attempts_le_of_step sound hstep hv hw))
      · rcases rewritten with rfl | step
        · exact .inr terminal
        · exact absurd terminal step.not_terminal
    · have own : x.message.workerJobId = id := same ▸ own
      have closed := (reportStep_move hx hv own).1 ok
      rw [at_] at closed
      subst own
      cases hv.symm.trans claims.stored
      exact absurd claims.claimable (closed claims.names reported)

/-- Steps that meet the condition keep one report. -/
theorem reporting_step (sound : s.Sound) (numbered : s.Numbered id v) (hstep : lifecycle.step s a = some t)
    (hv : s.db.view id = some v) (hw : t.db.view id = some w) (ok : ReportStep id s a)
    (h : s.Reporting id v) : t.Reporting id w := by
  cases step_cases sound hstep with
  | deliver | tick | crash => exact reporting_kept sound hstep hv hw ok h rfl rfl
  | @move p mv x phase db' call move effect =>
    by_cases report : ∃ d failureCode newId, mv = .persistReport d failureCode newId
    · obtain ⟨d, failureCode, newId, rfl⟩ := report
      obtain ⟨c, renewal, at_, none_, rfl⟩ := advance_report move
      obtain ⟨⟨u, hu, names⟩, -, hrun, -⟩ := (sound.calls p x call).claimed c (by rw [at_]; rfl)
      by_cases own : x.message.workerJobId = id
      · subst own
        cases hv.symm.trans hu
        cases hw.symm.trans (persistReport_view c.rcaRunId d newId s.db _ |>.trans hv)
        have current := (reportStep_move call hv rfl).1 ok
        rw [at_] at current
        obtain ⟨current, live⟩ := current
        have runId : v.run.id = c.rcaRunId := by
          rw [WorkerTables.view_run_id hv, names.2.1, hrun]
        have first : s.db.reports v.run.id = [] := by
          by_contra reported
          rcases h.spent reported p x c call rfl (by rw [at_]; rfl) with older | terminal
          · omega
          · exact live terminal
        refine ⟨?_, fun _ q y c' hy own hc => .inl ?_⟩
        · show (persistReport c.rcaRunId d newId s.db).ReportedOnce v.run.id
          rw [← runId]
          exact h.once.report first
        · have ne : q ≠ p := by
            rintro rfl
            rw [LifecycleState.setCall_self] at hy
            cases hy
            cases none_.symm.trans hc
          rw [LifecycleState.setCall_of_ne _ ne] at hy
          have other : s.Attempt x.message.workerJobId q c' := ⟨y, hy, own, Phase.claim?_of_unreported hc⟩
          have mine : s.Attempt x.message.workerJobId p c := ⟨x, call, rfl, by rw [at_]; rfl⟩
          refine lt_of_le_of_ne (numbered.le q c' other) fun same => ne ?_
          exact numbered.apart q p c' c other mine (same.trans current.symm)
      · have ne : v.run.id ≠ c.rcaRunId := by
          rw [WorkerTables.view_run_id hv, hrun, ← names.2.1]
          exact (sound.wellFormed.run_ne hv hu own).symm
        obtain ⟨reports, hypotheses⟩ := persistReport_elsewhere ne
        exact reporting_kept sound hstep hv hw ok h reports hypotheses
    · obtain ⟨reports, hypotheses⟩ :=
        advance_reports move fun d failureCode newId same => report ⟨d, failureCode, newId, same⟩
      refine reporting_kept sound hstep hv hw ok h ?_ ?_
      · exact congrArg (List.filter _) reports
      · exact congrArg (List.filter _) hypotheses

/-- A step that gives the reports what it owes them meets the condition. -/
theorem ReportsOnce.reportStep (owes : ReportsOnce id s a t) (sound : s.Sound)
    (hstep : lifecycle.step s a = some t) (hv : s.db.view id = some v) : ReportStep id s a := by
  cases a with
  | deliver | tick | crash => trivial
  | move p mv =>
    obtain ⟨x, call, -⟩ := Option.bind_eq_some_iff.1 hstep
    by_cases own : x.message.workerJobId = id
    case neg =>
      simp only [ReportStep, call, hv]
      exact fun h => absurd h own
    rw [reportStep_move call hv own]
    unfold Timely
    split
    · next c processor renewal at_ =>
      exact owes.current p _ _ _ c v rfl ⟨x, call, own, by rw [at_]; rfl⟩ hv
    · next at_ =>
      intro names reported open_
      obtain ⟨-, y, hy, answered⟩ := owes.acknowledged p _ x v rfl call own hv names reported (.inl at_)
      cases step_cases sound hstep with
      | move call' move effect =>
        cases call.symm.trans call'
        rw [LifecycleState.setCall_self] at hy
        cases hy
        cases effect with
        | refused _ closed => exact closed v (own ▸ hv) names open_
        | claimed => rcases answered with answered | answered <;> cases answered
        | proceeds quiet => cases quiet
        | stopped quiet => cases quiet
    · next at_ =>
      intro names reported
      obtain ⟨-, y, hy, answered⟩ := owes.acknowledged p _ x v rfl call own hv names reported (.inr at_)
      cases step_cases sound hstep with
      | move call' move effect =>
        cases call.symm.trans call'
        rw [LifecycleState.setCall_self] at hy
        cases hy
        cases effect with
        | dismissed _ discharged => exact discharged v (own ▸ hv) names
        | postponed | doomed => rcases answered with answered | answered <;> cases answered
        | proceeds quiet => cases quiet
        | stopped quiet => cases quiet
    · trivial

section Move
variable {p : Nat} {mv : Move} {x : Handling}

/-- A report that meets the condition is of the current attempt of a job that is not terminal. -/
theorem current_of_reportStep {d : RcaReportDraft} {failureCode : Option LifecycleFailureCode}
    {newId : Nat → Uuid} {c : RcaJobClaim}
    (sound : s.Sound) (hstep : lifecycle.step s (.move p (.persistReport d failureCode newId)) = some t)
    (hv : s.db.view id = some v) (ok : ReportStep id s (.move p (.persistReport d failureCode newId)))
    (attempt : s.Attempt id p c) : c.attemptNumber = v.job.attemptCount ∧ ¬ v.job.status.Terminal := by
  obtain ⟨x, call, own, hc⟩ := attempt
  have current := (reportStep_move call hv own).1 ok
  cases step_cases sound hstep with
  | move call' move effect =>
    cases call.symm.trans call'
    obtain ⟨c', renewal, at_, -⟩ := advance_report move
    rw [at_] at current hc
    cases hc
    exact current

/-- Once there is a report, a call without a claim that meets the condition writes nothing and is
acknowledged. -/
theorem acknowledged_of_reportStep (sound : s.Sound) (hstep : lifecycle.step s (.move p mv) = some t)
    (hv : s.db.view id = some v) (ok : ReportStep id s (.move p mv)) (call : s.calls p = some x)
    (own : x.message.workerJobId = id) (names : v.Matches x.message) (reported : s.db.reports v.run.id ≠ [])
    (waiting : x.phase = .claiming ∨ x.phase = .unclaimed) :
    t.db = s.db ∧ ∃ y, t.calls p = some y ∧ (y.phase = .unclaimed ∨ y.phase = .returned .ACK) := by
  subst own
  have closed := (reportStep_move call hv rfl).1 ok
  have unclaimed : ∀ {c}, x.phase.claim? ≠ some c := by
    intro c
    rcases waiting with at_ | at_ <;> rw [at_] <;> intro claimed <;> cases claimed
  cases step_cases sound hstep with
  | move call' move effect =>
    cases call.symm.trans call'
    refine (fun back => ⟨back.1, _, LifecycleState.setCall_self _ _ _, back.2⟩ :
      (_ = s.db ∧ (_ = Phase.unclaimed ∨ _ = Phase.returned .ACK)) → _) ?_
    cases effect with
    | refused => exact ⟨rfl, .inl rfl⟩
    | dismissed => exact ⟨rfl, .inr rfl⟩
    | claimed at_ view _ open_ =>
      rw [at_] at closed
      cases view.symm.trans hv
      exact absurd open_ (closed names reported)
    | postponed at_ view _ live =>
      rw [at_] at closed
      cases view.symm.trans hv
      exact absurd (closed names reported) live
    | doomed _ at_ view _ live =>
      rw [at_] at closed
      cases view.symm.trans hv
      exact absurd (closed names reported) live
    | marked _ at_ | markedLate _ at_ => rcases waiting with h | h <;> cases at_.symm.trans h
    | proceeds _ at_ => exact absurd at_ unclaimed
    | renewed at_ => exact absurd at_ unclaimed
    | reported _ _ _ at_ => exact absurd at_ unclaimed
    | stopped _ at_ => exact absurd at_ unclaimed
    | superseded at_ => exact absurd at_ unclaimed
    | succeeded _ at_ => rcases waiting with h | h <;> cases at_.symm.trans h
    | failed _ at_ => rcases waiting with h | h <;> cases at_.symm.trans h

end Move

/-- A step owes the reports what it has to exactly if it meets the condition. -/
theorem reportsOnce_iff (sound : s.Sound) (numbered : s.Numbered id v) (hstep : lifecycle.step s a = some t)
    (hv : s.db.view id = some v) (h : s.Reporting id v) : ReportsOnce id s a t ↔ ReportStep id s a := by
  refine ⟨fun owes => owes.reportStep sound hstep hv, fun ok => ⟨fun w hw => ?_, ?_, ?_⟩⟩
  · exact (reporting_step sound numbered hstep hv hw ok h).once
  · rintro p d failureCode newId c v' rfl attempt hv'
    cases hv.symm.trans hv'
    exact current_of_reportStep sound hstep hv ok attempt
  · rintro p mv x v' rfl call own hv' names reported waiting
    cases hv.symm.trans hv'
    exact acknowledged_of_reportStep sound hstep hv ok call own names reported waiting

end Steps

/-- From a job whose run has no report: in every run whose steps meet the condition the run gets at
most one report, and the next step keeps that and answers redeliveries as it should exactly if it
meets the condition too. -/
theorem reported_once {s₀ s : LifecycleState} (init : lifecycle.init s₀) {id : Uuid} {v₀ : View}
    (stored : s₀.db.view id = some v₀) (reports : s₀.db.reports v₀.run.id = [])
    (hypotheses : s₀.db.hypotheses v₀.run.id = []) (run : lifecycle.Run (ReportStep id) s₀ s) :
    ∃ v, s.db.view id = some v ∧ s.db.ReportedOnce v.run.id ∧
      ∀ a t, lifecycle.step s a = some t → (ReportsOnce id s a t ↔ ReportStep id s a) := by
  have inv : s.Sound ∧ ∃ v, s.db.view id = some v ∧ s.Numbered id v ∧ s.Reporting id v := by
    refine System.Run.invariant (I := fun s => s.Sound ∧ ∃ v, s.db.view id = some v ∧ s.Numbered id v ∧
      s.Reporting id v) run ?_
      ⟨sound_invariant (.init init), v₀, stored, numbered_init init, .none reports hypotheses,
        fun reported => absurd reports reported⟩
    rintro s a t ⟨sound, v, hv, numbered, reporting⟩ ok hstep
    obtain ⟨w, hw, -⟩ := lifecycle_view_step sound hstep hv
    exact ⟨sound_step sound hstep, w, hw, numbered_step sound hstep hv hw numbered,
      reporting_step sound numbered hstep hv hw ok reporting⟩
  obtain ⟨sound, v, hv, numbered, reporting⟩ := inv
  exact ⟨v, hv, reporting.once, fun a t hstep => reportsOnce_iff sound numbered hstep hv reporting⟩

/-- One attempt reports and settles, and a redelivery comes after that. -/
def reportedThenRedelivered : List Action :=
  reportedInTime ++ [.deliver 1 (.named "b") ⟨1, 2, 3⟩, .move 1 .claim, .move 1 .readUnclaimed]

/-- A worker is lost between its report and its settlement, and the attempt that takes over reports again. -/
def reportedAgain : List Action :=
  [.deliver 0 (.named "a") ⟨1, 2, 3⟩, .move 0 .claim, .move 0 (.start 300),
    .move 0 (.persistReport completeDraft none fun _ => 7),
    .crash 0, .tick 61000000, .deliver 1 (.named "b") ⟨1, 2, 3⟩, .move 1 .claim, .move 1 (.start 239),
    .move 1 (.persistReport completeDraft none fun _ => 8)]

theorem reported_once_redelivered :
    ∃ s v, lifecycle.execIn (ReportStep 1) (queuedState 1 2 3 0) reportedThenRedelivered = some s ∧
    s.db.view 1 = some v ∧ s.db.ReportedOnce v.run.id := by
  have enabled : (lifecycle.execIn (ReportStep 1) (queuedState 1 2 3 0) reportedThenRedelivered).isSome =
      true := by decide
  obtain ⟨s, hs⟩ := Option.isSome_iff_exists.1 enabled
  obtain ⟨v₀, stored, -⟩ := queued_fresh 1 2 3 0
  obtain ⟨v, hv, once, -⟩ := reported_once (queued_init 1 2 3 0) stored rfl rfl (System.run_of_exec hs)
  exact ⟨s, v, hs, hv, once⟩

/-- Two reports and two sets of hypotheses of one run. -/
theorem report_twice : ∃ s v, lifecycle.Reachable s ∧ s.db.view 1 = some v ∧
      (s.db.reports v.run.id).length = 2 ∧
    (s.db.hypotheses v.run.id).length = 2 ∧ ¬ s.db.ReportedOnce v.run.id := by
  have key : ((lifecycle.exec (queuedState 1 2 3 0) reportedAgain).bind fun s =>
      (s.db.view 1).map fun v => ((s.db.reports v.run.id).length, (s.db.hypotheses v.run.id).length)) =
        some (2, 2) := by decide
  obtain ⟨s, hs, key⟩ := Option.bind_eq_some_iff.1 key
  obtain ⟨v, hv, counts⟩ := Option.map_eq_some_iff.1 key
  simp only [Prod.mk.injEq] at counts
  obtain ⟨reports, hypotheses⟩ := counts
  refine ⟨s, v, ⟨_, queued_init 1 2 3 0, System.run_of_exec hs⟩, hv, reports, hypotheses, fun once => ?_⟩
  cases once with
  | none none_ => simp [none_] at reports
  | once d newId one => simp [one] at reports

end SreAgent.Lifecycle
