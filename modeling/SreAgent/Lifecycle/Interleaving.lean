import SreAgent.Lifecycle.JobView

/-!
# What a step of the interleaved system does

`Effect` inverts `advance`: one constructor for each way a `handle` call can move, with its
guard and its effect read on job views instead of on tables. It needs one fact about the call,
that its message names a stored job wherever it writes (`Handling.Sound`); identifiers are
never rewritten, so soundness is kept by every step (`sound_invariant`). Every other invariant
of the lifecycle is a case analysis on `Effect`.
-/

namespace SreAgent.Lifecycle
open Base Pubsub

/-- The message names a stored job together with its run and incident. -/
def WorkerTables.Genuine (db : WorkerTables) (m : RcaJobMessage) : Prop :=
  ∃ v, db.view m.workerJobId = some v ∧ v.Matches m

/-- Acknowledging the message loses nothing: no such job, other identifiers, or a terminal job. -/
def WorkerTables.Discharged (db : WorkerTables) (m : RcaJobMessage) : Prop :=
  ∀ v, db.view m.workerJobId = some v → v.Matches m → v.job.status.Terminal

/-- A claim carries the identifiers of the message it was made for. -/
def RcaJobClaim.For (c : RcaJobClaim) (m : RcaJobMessage) : Prop :=
  c.workerJobId = m.workerJobId ∧ c.rcaRunId = m.rcaRunId ∧ c.incidentId = m.incidentId

/-- The claim a phase works under. -/
def Phase.claim? : Phase → Option RcaJobClaim
  | .claimed c | .executing c _ _ | .settlingSuccess c _ | .settlingFailure c _ => some c
  | _ => none

/-- A call that may write was given the identifiers of a stored job. -/
structure Handling.Sound (x : Handling) (db : WorkerTables) : Prop where
  claimed : ∀ c, x.phase.claim? = some c → db.Genuine x.message ∧ c.For x.message
  marking : ∀ code, x.phase = .marking code → db.Genuine x.message

/-- Moves that neither start nor end the handling of a message and write no row but a lease. -/
def Move.Quiet : Move → Prop
  | .start _ | .renew | .renewalEnds _ | .wake _ _ => True
  | _ => False

/-- The ways a `handle` call moves: the move, and the phase and the tables it leaves. -/
inductive Effect (x : Handling) (now : Timestamp) (db : WorkerTables) : Move → Phase → WorkerTables →
      Prop where
  | refused (at_ : x.phase = .claiming)
      (closed : ∀ v, db.view x.message.workerJobId = some v → v.Matches x.message →
        ¬ x.handler.Claimable now v.job) : Effect x now db .claim .unclaimed db
  | claimed {v : View} {db' : WorkerTables} (at_ : x.phase = .claiming)
      (view : db.view x.message.workerJobId = some v) (names : v.Matches x.message)
      (open_ : x.handler.Claimable now v.job)
      (rewrites : Rewrites x.message.workerJobId (fun w => w.claimed x.handler now) db db') :
      Effect x now db .claim
        (.claimed ⟨x.message.workerJobId, x.message.rcaRunId, x.message.incidentId, v.job.attemptCount + 1,
          x.handler.deadlineAt now v.job, x.handler.workerId⟩) db'
  | dismissed (at_ : x.phase = .unclaimed) (discharged : db.Discharged x.message) :
      Effect x now db .readUnclaimed (.returned .ACK) db
  | postponed {v : View} (at_ : x.phase = .unclaimed) (view : db.view x.message.workerJobId = some v)
      (names : v.Matches x.message) (live : ¬ v.job.status.Terminal) (attempts : v.job.attemptCount < 3)
      (early : now < x.handler.deadlineAt now v.job) : Effect x now db .readUnclaimed (.returned .NACK) db
  | doomed {v : View} (code : LifecycleFailureCode) (at_ : x.phase = .unclaimed)
      (view : db.view x.message.workerJobId = some v) (names : v.Matches x.message)
      (live : ¬ v.job.status.Terminal)
      (why : x.handler.deadlineAt now v.job ≤ now ∨ 3 ≤ v.job.attemptCount) :
      Effect x now db .readUnclaimed (.marking code) db
  | marked {v : View} {db' : WorkerTables} (code : LifecycleFailureCode) (at_ : x.phase = .marking code)
      (view : db.view x.message.workerJobId = some v) (names : v.Matches x.message)
      (live : ¬ v.job.status.Terminal)
      (rewrites : Rewrites x.message.workerJobId (fun w => w.marked code now) db db') :
      Effect x now db .mark (.returned .ACK) db'
  | markedLate {v : View} (code : LifecycleFailureCode) (at_ : x.phase = .marking code)
      (view : db.view x.message.workerJobId = some v) (terminal : v.job.status.Terminal) :
      Effect x now db .mark (.returned .ACK) db
  | proceeds {c : RcaJobClaim} {mv : Move} {phase : Phase} (quiet : mv.Quiet) (at_ : x.phase.claim? = some c)
      (keeps : phase.claim? = some c) : Effect x now db mv phase db
  | renewed {c : RcaJobClaim} {phase : Phase} {v : View} {db' : WorkerTables} (at_ : x.phase.claim? = some c)
      (keeps : phase.claim? = some c) (view : db.view x.message.workerJobId = some v)
      (held : c.Holds v.job)
      (rewrites : Rewrites x.message.workerJobId (fun w => w.renewed now) db db') :
      Effect x now db .renew phase db'
  | reported {c : RcaJobClaim} {phase : Phase} (d : RcaReportDraft)
      (failureCode : Option LifecycleFailureCode) (newId : Nat → Uuid) (at_ : x.phase.claim? = some c)
      (keeps : phase.claim? = some c) :
      Effect x now db (.persistReport d failureCode newId) phase (persistReport x.message.rcaRunId d newId db)
  | stopped {c : RcaJobClaim} {mv : Move} (quiet : mv.Quiet) (at_ : x.phase.claim? = some c) :
      Effect x now db mv (.returned .NACK) db
  | superseded {c : RcaJobClaim} {v : View} (at_ : x.phase.claim? = some c)
      (view : db.view x.message.workerJobId = some v) (lost : ¬ c.Holds v.job) :
      Effect x now db .settle (.returned .NACK) db
  | succeeded {c : RcaJobClaim} {v : View} {db' : WorkerTables} (r : RcaProcessingResult)
      (at_ : x.phase = .settlingSuccess c r) (view : db.view x.message.workerJobId = some v)
      (held : c.Holds v.job)
      (rewrites : Rewrites x.message.workerJobId (fun w => w.settled c r now) db db') :
      Effect x now db .settle (.returned .ACK) db'
  | failed {c : RcaJobClaim} {v : View} {db' : WorkerTables} (code : LifecycleFailureCode)
      (at_ : x.phase = .settlingFailure c code) (view : db.view x.message.workerJobId = some v)
      (held : c.Holds v.job)
      (rewrites : Rewrites x.message.workerJobId (fun w => w.unsettled c code now) db db') :
      Effect x now db .settle (.returned (if c.terminalFailure code then .ACK else .NACK)) db'

section Moves

variable {x : Handling} {now : Timestamp} {db db' : WorkerTables} {phase : Phase}

theorem WorkerTables.Genuine.owns {c : RcaJobClaim} (genuine : db.Genuine x.message) (hc : c.For x.message) :
    ∃ v, db.view c.workerJobId = some v ∧ v.Matches x.message ∧ v.Owns c := by
  obtain ⟨v, hv, hm⟩ := genuine
  exact ⟨v, by rw [hc.1]; exact hv, hm, hm.1.trans hc.1.symm, hm.2.1.trans hc.2.1.symm⟩

theorem claim_effect (wf : db.WellFormed) (h : advance x now db .claim = some (phase, db')) :
    Effect x now db .claim phase db' := by
  simp only [advance] at h
  split at h
  · next at_ =>
    split at h
    · cases h
    · next hc =>
      cases h
      obtain ⟨rfl, closed⟩ := claim_refused wf hc
      exact .refused at_ closed
    · next hc =>
      cases h
      obtain ⟨v, hv, hm, hopen, rfl, rw⟩ := claim_claimed wf hc
      exact .claimed at_ hv hm hopen rw
  · cases h

theorem read_effect (wf : db.WellFormed) (h : advance x now db .readUnclaimed = some (phase, db')) :
    Effect x now db .readUnclaimed phase db' := by
  simp only [advance] at h
  split at h
  · next at_ =>
    rw [unclaimedRow_eq wf] at h
    cases hv : db.view x.message.workerJobId with
    | none =>
      simp only [hv, Option.map_none, RcaJobHandler.unclaimedDecision, Option.some.injEq, Prod.mk.injEq] at h
      obtain ⟨rfl, rfl⟩ := h
      exact .dismissed at_ fun v hv' => by simp [hv] at hv'
    | some v =>
      have hid := WorkerTables.view_job_id hv
      have hrun := WorkerTables.view_run_id hv
      have matched : v.run.id = x.message.rcaRunId ∧ v.run.incidentId = x.message.incidentId →
          v.Matches x.message := fun h => ⟨hid, hrun.symm.trans h.1, h.2⟩
      simp only [hv, Option.map_some, RcaJobHandler.unclaimedDecision, decide_eq_true_eq] at h
      split_ifs at h with hne hterm hend
      · -- the identifiers of the message are not those of the job
        cases h
        refine .dismissed at_ fun w hw hm => absurd hne ?_
        cases hv.symm.trans hw
        simp [hrun.trans hm.2.1, hm.2.2]
      · cases h
        refine .dismissed at_ fun w hw _ => ?_
        cases hv.symm.trans hw
        exact hterm
      all_goals
        cases h
        have hm := matched (by simpa [not_or] using hne)
      · next hexp => exact .doomed _ at_ hv hm hterm hend
      · exact .doomed _ at_ hv hm hterm hend
      · simp only [not_or, not_le] at hend
        exact .postponed at_ hv hm hterm hend.2 hend.1
  · cases h

theorem mark_effect (wf : db.WellFormed) (sound : x.Sound db)
    (h : advance x now db .mark = some (phase, db')) :
    Effect x now db .mark phase db' := by
  simp only [advance] at h
  split at h
  · next code at_ =>
    cases h
    obtain ⟨v, hv, hm⟩ := sound.marking code at_
    by_cases ht : v.job.status.Terminal
    · rw [mark_terminal wf code hv ht]
      exact .markedLate code at_ hv ht
    · exact .marked code at_ hv hm ht (mark_rewrites wf code hv hm ht)
  · cases h

theorem renew_effect (wf : db.WellFormed) (sound : x.Sound db)
    (h : advance x now db .renew = some (phase, db')) :
    Effect x now db .renew phase db' := by
  simp only [advance] at h
  split at h
  · next c processor at_ =>
    cases h
    have hc : x.phase.claim? = some c := by rw [at_]; rfl
    obtain ⟨genuine, hfor⟩ := sound.claimed c hc
    obtain ⟨v, hv, -, -⟩ := genuine.owns hfor
    have spec := renew_spec now wf hv
    split at spec
    · next held =>
      rw [hfor.1] at hv spec
      exact .renewed hc rfl hv held spec.2
    · rw [spec]
      exact .proceeds trivial hc rfl
  · cases h

theorem settle_effect (wf : db.WellFormed) (sound : x.Sound db)
    (h : advance x now db .settle = some (phase, db')) :
    Effect x now db .settle phase db' := by
  simp only [advance] at h
  split at h
  · next c r at_ =>
    cases h
    have hc : x.phase.claim? = some c := by rw [at_]; rfl
    obtain ⟨genuine, hfor⟩ := sound.claimed c hc
    obtain ⟨v, hv, -, own⟩ := genuine.owns hfor
    have spec := settleSuccess_spec now wf hv own r
    split at spec
    · next held =>
      rw [hfor.1] at hv spec
      rw [spec.1]
      exact .succeeded r at_ hv held spec.2
    · next lost =>
      rw [hfor.1] at hv
      rw [spec]
      exact .superseded hc hv lost
  · next c code at_ =>
    cases h
    have hc : x.phase.claim? = some c := by rw [at_]; rfl
    obtain ⟨genuine, hfor⟩ := sound.claimed c hc
    obtain ⟨v, hv, -, own⟩ := genuine.owns hfor
    have spec := settleFailure_spec now wf hv own code
    split at spec
    · next held =>
      rw [hfor.1] at hv spec
      rw [spec.1]
      exact .failed code at_ hv held spec.2
    · next lost =>
      rw [hfor.1] at hv
      rw [spec]
      exact .superseded hc hv lost
  · cases h

/-- How a call leaves `executing`: to a settlement of its claim, or without its lease. -/
theorem wakeUp_claim {c : RcaJobClaim} {processor : ProcessorState} {renewal : RenewalState} {remaining : Int}
    {w : Wake} (h : wakeUp c processor renewal remaining w = some phase) :
    phase.claim? = some c ∨ phase = .returned .NACK := by
  cases w with
  | nothing => cases h; exact .inl rfl
  | processorRaised e => cases h; exact .inl rfl
  | processorReturned =>
    cases processor with
    | analysing => cases h
    | reported r =>
      cases h
      left
      split <;> rfl
  | renewal =>
    cases renewal with
    | renewing => cases h
    | stopped e =>
      cases h
      cases e with
      | leaseLost => exact .inr rfl
      | deadlineExceeded => exact .inl rfl
      | raised e => exact .inl rfl

/-- Every move of a sound call is one of the listed effects. -/
theorem advance_effect (wf : db.WellFormed) (sound : x.Sound db) {mv : Move}
    (h : advance x now db mv = some (phase, db')) : Effect x now db mv phase db' := by
  cases mv with
  | claim => exact claim_effect wf h
  | readUnclaimed => exact read_effect wf h
  | mark => exact mark_effect wf sound h
  | renew => exact renew_effect wf sound h
  | settle => exact settle_effect wf sound h
  | start remaining =>
    simp only [advance] at h
    split at h
    · next c at_ =>
      cases h
      refine .proceeds (c := c) trivial (by rw [at_]; rfl) ?_
      split <;> rfl
    · cases h
  | renewalEnds e =>
    simp only [advance] at h
    split at h
    · next c processor at_ =>
      split at h
      · cases h
      · cases h
        exact .proceeds (c := c) trivial (by rw [at_]; rfl) rfl
    · cases h
  | persistReport d failureCode newId =>
    simp only [advance] at h
    split at h
    · next c renewal at_ =>
      cases h
      have hc : x.phase.claim? = some c := by rw [at_]; rfl
      rw [(sound.claimed c hc).2.2.1]
      exact .reported d failureCode newId hc rfl
    · cases h
  | wake remaining w =>
    simp only [advance] at h
    split at h
    · next c processor renewal at_ =>
      obtain ⟨p, hp, he⟩ := Option.map_eq_some_iff.1 h
      cases he
      have hc : x.phase.claim? = some c := by rw [at_]; rfl
      rcases wakeUp_claim hp with keeps | rfl
      · exact .proceeds trivial hc keeps
      · exact .stopped trivial hc
    · cases h

end Moves

/-! ## What the tables keep -/

/-- A transaction of a call with message `m`: nothing, one step of the view of its job, or a report. -/
inductive TableStep (m : RcaJobMessage) (db : WorkerTables) : WorkerTables → Prop where
  | same : TableStep m db db
  | rewrite {v : View} {f : View → View} {db' : WorkerTables} (view : db.view m.workerJobId = some v)
      (step : v.Step (f v)) (rewrites : Rewrites m.workerJobId f db db') : TableStep m db db'
  | report (d : RcaReportDraft) (newId : Nat → Uuid) :
      TableStep m db (persistReport m.rcaRunId d newId db)

section Tables

variable {x : Handling} {now : Timestamp} {db db' : WorkerTables} {mv : Move} {phase : Phase}
  {m : RcaJobMessage}

theorem Effect.tableStep (h : Effect x now db mv phase db') : TableStep x.message db db' := by
  cases h with
  | refused | dismissed | postponed | doomed | markedLate | proceeds | stopped | superseded => exact .same
  | claimed _ view _ open_ rewrites => exact .rewrite view (.claim _ _ open_) rewrites
  | marked code _ view _ live rewrites => exact .rewrite view (.mark code _ live) rewrites
  | renewed _ _ view held rewrites => exact .rewrite view (.renew _ _ held) rewrites
  | reported d _ newId => exact .report d newId
  | succeeded r _ view held rewrites => exact .rewrite view (.settleSuccess _ r _ held) rewrites
  | failed code _ view held rewrites => exact .rewrite view (.settleFailure _ code _ held) rewrites

/-- A report leaves every job, run and attempt alone. -/
theorem persistReport_view (runId : Uuid) (d : RcaReportDraft) (newId : Nat → Uuid) (db : WorkerTables)
    (id : Uuid) :
    (persistReport runId d newId db).view id = db.view id := rfl

theorem TableStep.wellFormed (wf : db.WellFormed) (h : TableStep m db db') : db'.WellFormed := by
  cases h with
  | same => exact wf
  | rewrite _ _ rewrites => exact rewrites.wellFormed
  | report => exact ⟨wf.jobIds, wf.runIds, wf.jobRuns, wf.jobRunExists⟩

/-- A table step is, for any one job, no step or a step of its view. -/
theorem TableStep.view (h : TableStep m db db') {id : Uuid} {v : View} (hv : db.view id = some v) :
    ∃ w, db'.view id = some w ∧ (w = v ∨ v.Step w) := by
  cases h with
  | same => exact ⟨v, hv, .inl rfl⟩
  | rewrite view step rewrites =>
    by_cases hid : id = m.workerJobId
    · subst hid
      cases view.symm.trans hv
      exact ⟨_, rewrites.here v hv, .inr step⟩
    · exact ⟨v, (rewrites.elsewhere id hid).trans hv, .inl rfl⟩
  | report => exact ⟨v, hv, .inl rfl⟩

/-- The columns no transaction writes. -/
theorem View.Step.frame {v w : View} (h : v.Step w) :
    w.job.id = v.job.id ∧ w.job.rcaRunId = v.job.rcaRunId ∧ w.run.incidentId = v.run.incidentId ∧
      w.job.createdAt = v.job.createdAt := by
  cases h <;> exact ⟨rfl, rfl, rfl, rfl⟩

theorem View.Step.matches_iff {v w : View} (h : v.Step w) (m : RcaJobMessage) : w.Matches m ↔
      v.Matches m := by
  obtain ⟨hid, hrun, hinc, -⟩ := h.frame
  rw [View.Matches, View.Matches, hid, hrun, hinc]

/-- A message that names a stored job goes on naming it. -/
theorem TableStep.genuine (h : TableStep m db db') {m' : RcaJobMessage} (genuine : db.Genuine m') :
    db'.Genuine m' := by
  obtain ⟨v, hv, hm⟩ := genuine
  obtain ⟨w, hw, rfl | step⟩ := h.view hv
  · exact ⟨w, hw, hm⟩
  · exact ⟨w, hw, (step.matches_iff m').2 hm⟩

theorem Handling.Sound.mono (sound : x.Sound db) (keep : ∀ m, db.Genuine m → db'.Genuine m) :
    x.Sound db' where
  claimed := fun c hc => ⟨keep _ (sound.claimed c hc).1, (sound.claimed c hc).2⟩
  marking := fun code hp => keep _ (sound.marking code hp)

/-- The call that moved is still sound. -/
theorem Effect.sound (h : Effect x now db mv phase db') (sound : x.Sound db) :
    Handling.Sound { x with phase := phase } db' := by
  have keep : ∀ m, db.Genuine m → db'.Genuine m := fun _ => h.tableStep.genuine
  have kept : ∀ {c}, x.phase.claim? = some c → phase.claim? = some c →
      Handling.Sound { x with phase := phase } db' := by
    intro c at_ keeps
    refine ⟨fun c' hc' => ?_, fun code hp => ?_⟩
    · cases keeps.symm.trans hc'
      exact ⟨keep _ (sound.claimed c at_).1, (sound.claimed c at_).2⟩
    · subst hp
      cases keeps
  cases h with
  | refused | dismissed | postponed | marked | markedLate | stopped | superseded | succeeded | failed =>
    exact ⟨fun _ hc => (by cases hc), fun _ hp => by cases hp⟩
  | claimed _ view names =>
    refine ⟨fun c hc => ?_, fun _ hp => by cases hp⟩
    cases hc
    exact ⟨keep _ ⟨_, view, names⟩, rfl, rfl, rfl⟩
  | doomed code _ view names => exact ⟨fun _ hc => (by cases hc), fun _ _ => ⟨_, view, names⟩⟩
  | proceeds _ at_ keeps => exact kept at_ keeps
  | renewed at_ keeps => exact kept at_ keeps
  | reported _ _ _ at_ keeps => exact kept at_ keeps

end Tables

/-! ## What a step of the system does -/

/-- The tables are well formed and every call is sound. -/
structure LifecycleState.Sound (s : LifecycleState) : Prop where
  wellFormed : s.db.WellFormed
  calls : ∀ p x, s.calls p = some x → x.Sound s.db

/-- A step of the system: a delivery, a clock advance, a crash, or one effect of one call. -/
inductive StepCases (s : LifecycleState) : Action → LifecycleState → Prop where
  | deliver (p : Nat) (h : RcaJobHandler) (m : RcaJobMessage) (free : s.calls p = none) :
      StepCases s (.deliver p h m) (s.setCall p (some ⟨h, m, s.now, .claiming⟩))
  | tick (dt : Nat) : StepCases s (.tick dt) { s with now := s.now + dt }
  | crash (p : Nat) : StepCases s (.crash p) (s.setCall p none)
  | move {p : Nat} {mv : Move} {x : Handling} {phase : Phase} {db' : WorkerTables} (call : s.calls p = some x)
      (move : advance x s.now s.db mv = some (phase, db')) (effect : Effect x s.now s.db mv phase db') :
      StepCases s (.move p mv) ({ s with db := db' }.setCall p (some { x with phase := phase }))

theorem step_cases {s t : LifecycleState} {a : Action} (sound : s.Sound) (h : lifecycle.step s a = some t) :
    StepCases s a t := by
  cases a with
  | deliver p hd m =>
    simp only [lifecycle, LifecycleState.step] at h
    split at h
    · next free => cases h; exact .deliver p hd m free
    · cases h
  | tick dt => cases h; exact .tick dt
  | crash p => cases h; exact .crash p
  | move p mv =>
    obtain ⟨x, hx, h⟩ := Option.bind_eq_some_iff.1 h
    obtain ⟨⟨phase, db'⟩, hadv, h⟩ := Option.bind_eq_some_iff.1 h
    cases h
    exact .move hx hadv (advance_effect sound.wellFormed (sound.calls p x hx) hadv)

/-- A call after a step: it was there before, it was just delivered, or it is the one that moved. -/
theorem StepCases.call {s t : LifecycleState} {a : Action} (h : StepCases s a t) {q : Nat} {y : Handling}
    (hy : t.calls q = some y) :
    (s.calls q = some y) ∨ (∃ hd m, y = ⟨hd, m, s.now, .claiming⟩ ∧ t.db = s.db) ∨
      (∃ x mv, s.calls q = some x ∧ y = { x with phase := y.phase } ∧
        Effect x s.now s.db mv y.phase t.db) := by
  cases h with
  | deliver p hd m =>
    by_cases hq : q = p
    · subst hq
      rw [LifecycleState.setCall_self] at hy
      cases hy
      exact .inr (.inl ⟨hd, m, rfl, rfl⟩)
    · rw [LifecycleState.setCall_of_ne _ hq] at hy
      exact .inl hy
  | tick => exact .inl hy
  | crash p =>
    by_cases hq : q = p
    · subst hq
      simp at hy
    · rw [LifecycleState.setCall_of_ne _ hq] at hy
      exact .inl hy
  | @move p mv x phase db' call move effect =>
    by_cases hq : q = p
    · subst hq
      rw [LifecycleState.setCall_self] at hy
      cases hy
      exact .inr (.inr ⟨x, mv, call, rfl, effect⟩)
    · rw [LifecycleState.setCall_of_ne _ hq] at hy
      exact .inl hy

/-- The tables after a step: unchanged, or one table step of a call. -/
theorem StepCases.tables {s t : LifecycleState} {a : Action} (h : StepCases s a t) :
    t.db = s.db ∨ ∃ m, TableStep m s.db t.db := by
  cases h with
  | deliver | tick | crash => exact .inl rfl
  | @move p mv x phase db' call move effect => exact .inr ⟨x.message, effect.tableStep⟩

theorem StepCases.genuine {s t : LifecycleState} {a : Action} (h : StepCases s a t) {m : RcaJobMessage}
    (genuine : s.db.Genuine m) : t.db.Genuine m := by
  rcases h.tables with same | ⟨m', step⟩
  · rw [same]; exact genuine
  · exact step.genuine genuine

/-- Soundness is kept by every step. -/
theorem StepCases.sound {s t : LifecycleState} {a : Action} (h : StepCases s a t) (sound : s.Sound) :
    t.Sound where
  wellFormed := by
    rcases h.tables with same | ⟨m, step⟩
    · rw [same]; exact sound.wellFormed
    · exact step.wellFormed sound.wellFormed
  calls := by
    intro q y hy
    rcases h.call hy with before | ⟨hd, m, rfl, -⟩ | ⟨x, mv, hx, hxy, effect⟩
    · exact (sound.calls q y before).mono fun _ => h.genuine
    · exact ⟨fun _ hc => (by cases hc), fun _ hp => by cases hp⟩
    · rw [hxy]
      exact effect.sound (sound.calls q x hx)

theorem sound_step {s t : LifecycleState} {a : Action} (sound : s.Sound) (h : lifecycle.step s a = some t) :
    t.Sound :=
  (step_cases sound h).sound sound

/-- Every reachable state is sound. -/
theorem sound_invariant {s : LifecycleState} (h : lifecycle.Reachable s) : s.Sound := by
  refine h.invariant (fun s init => ⟨init.1, fun p x hx => ?_⟩) fun _ _ _ => sound_step
  rw [init.2 p] at hx
  cases hx

/-- Every step of the system leaves the view of a job alone or is a step of it. -/
theorem lifecycle_view_step {s t : LifecycleState} {a : Action} (sound : s.Sound)
    (h : lifecycle.step s a = some t) {id : Uuid} {v : View} (hv : s.db.view id = some v) :
    ∃ w, t.db.view id = some w ∧ (w = v ∨ v.Step w) := by
  rcases (step_cases sound h).tables with same | ⟨m, step⟩
  · exact ⟨v, by rw [same]; exact hv, .inl rfl⟩
  · exact step.view hv

/-- An invariant of the steps of a view holds of every job in every interleaving. -/
theorem view_invariant {I : View → Prop} (keep : ∀ v w, I v → v.Step w → I w) {s t : LifecycleState}
    (sound : s.Sound) (run : lifecycle.Steps s t) {id : Uuid} {v : View} (hv : s.db.view id = some v)
    (base : I v) :
    ∃ w, t.db.view id = some w ∧ I w := by
  have both : t.Sound ∧ ∃ w, t.db.view id = some w ∧ I w := by
    refine System.Steps.stable (I := fun u => u.Sound ∧ ∃ w, u.db.view id = some w ∧ I w) run ?_
      ⟨sound, v, hv, base⟩
    rintro u a u' ⟨hu, w, hw, hI⟩ hstep
    obtain ⟨w', hw', rfl | hs⟩ := lifecycle_view_step hu hstep hw
    · exact ⟨sound_step hu hstep, w', hw', hI⟩
    · exact ⟨sound_step hu hstep, w', hw', keep w w' hI hs⟩
  exact both.2

end SreAgent.Lifecycle
