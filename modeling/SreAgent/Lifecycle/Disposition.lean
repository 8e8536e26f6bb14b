import SreAgent.Lifecycle.Lease

/-!
# What an acknowledgement means

An acknowledged message is never delivered again, so `ACK` must mean that nothing is lost
(`acked_discharged`). In the other direction a delivery that starts after the deadline of its
job can only run down `claiming`, `unclaimed`, `marking` and return `ACK`: it never claims, its
read never answers `NACK`, and what it leaves behind is terminal (`late_closing`).
-/

namespace SreAgent.Lifecycle
open Base Pubsub

/-- Read backwards: a view after a step comes from a view before it. -/
theorem TableStep.view_back {m : RcaJobMessage} {db db' : WorkerTables} (h : TableStep m db db') {id : Uuid}
    {w : View} (hw : db'.view id = some w) : ∃ v, db.view id = some v ∧ (w = v ∨ v.Step w) := by
  cases h with
  | same => exact ⟨w, hw, .inl rfl⟩
  | @rewrite v f db' view step rewrites =>
    by_cases hid : id = m.workerJobId
    · subst hid
      cases (rewrites.here v view).symm.trans hw
      exact ⟨v, view, .inr step⟩
    · exact ⟨w, (rewrites.elsewhere id hid).symm.trans hw, .inl rfl⟩
  | report => exact ⟨w, hw, .inl rfl⟩

theorem StepCases.view_back {s t : LifecycleState} {a : Action} (h : StepCases s a t) {id : Uuid} {w : View}
    (hw : t.db.view id = some w) : ∃ v, s.db.view id = some v ∧ (w = v ∨ v.Step w) := by
  rcases h.tables with same | ⟨m, step⟩
  · rw [same] at hw
    exact ⟨w, hw, .inl rfl⟩
  · exact step.view_back hw

/-- A discharged message stays discharged. -/
theorem StepCases.discharged {s t : LifecycleState} {a : Action} (h : StepCases s a t) {m : RcaJobMessage}
    (discharged : s.db.Discharged m) : t.db.Discharged m := by
  intro w hw names
  obtain ⟨v, hv, rfl | step⟩ := h.view_back hw
  · exact discharged w hv names
  · exact absurd (discharged v hv ((step.matches_iff m).1 names)) step.not_terminal

/-- The view a rewriting leaves, where it makes the job terminal. -/
theorem Rewrites.discharged {m : RcaJobMessage} {f : View → View} {db db' : WorkerTables} {v : View}
    (h : Rewrites m.workerJobId f db db') (view : db.view m.workerJobId = some v)
    (terminal : (f v).job.status.Terminal) : db'.Discharged m := by
  intro w hw _
  cases (h.here v view).symm.trans hw
  exact terminal

/-- A call that moves to `ACK` leaves its message discharged. -/
theorem Effect.acked {x : Handling} {now : Timestamp} {db db' : WorkerTables} {mv : Move} {phase : Phase}
    (h : Effect x now db mv phase db') (ack : phase = .returned .ACK) : db'.Discharged x.message := by
  cases h with
  | refused | claimed | postponed | doomed | stopped | superseded => cases ack
  | dismissed _ discharged => exact discharged
  | marked code _ view _ _ rewrites => exact rewrites.discharged view (.inr rfl)
  | markedLate code _ view terminal =>
    intro w hw _
    cases view.symm.trans hw
    exact terminal
  | proceeds _ _ keeps =>
    subst ack
    cases keeps
  | renewed _ keeps =>
    subst ack
    cases keeps
  | reported _ _ _ _ keeps =>
    subst ack
    cases keeps
  | succeeded r _ view held rewrites =>
    refine rewrites.discharged view ?_
    obtain ⟨status, failure⟩ := r
    cases status
    · exact .inl rfl
    · exact .inl rfl
    · exact .inr rfl
  | @failed c v db' code _ view held rewrites =>
    refine rewrites.discharged view ?_
    cases final : c.terminalFailure code with
    | false =>
      rw [final] at ack
      cases ack
    | true =>
      right
      simp [View.unsettled, RcaJobClaim.unsettledJob, final]

/-- Every acknowledged message is discharged. -/
theorem acked_discharged {s : LifecycleState} (reach : lifecycle.Reachable s) {p : Nat} {x : Handling}
    (call : s.calls p = some x) (ack : x.phase = .returned .ACK) : s.db.Discharged x.message := by
  have inv : s.Sound ∧ ∀ p x, s.calls p = some x → x.phase = .returned .ACK → s.db.Discharged x.message := by
    refine reach.invariant (I := fun s => s.Sound ∧ ∀ p x, s.calls p = some x → x.phase = .returned .ACK →
      s.db.Discharged x.message) ?_ ?_
    · intro s init
      exact ⟨sound_invariant (.init init), fun p x hx => by simp [init.2 p] at hx⟩
    · rintro s a t ⟨sound, acked⟩ hstep
      have cases_ := step_cases sound hstep
      refine ⟨cases_.sound sound, fun p y hy hp => ?_⟩
      rcases cases_.call hy with before | ⟨hd, m, rfl, -⟩ | ⟨x, mv, hx, hxy, effect⟩
      · exact cases_.discharged (acked p y before hp)
      · cases hp
      · rw [hxy]
        exact effect.acked hp
  exact inv.2 p x call ack

/-! ## Deliveries after the deadline -/

/-- The phases of a call that can only acknowledge. -/
inductive Phase.Closing : Phase → Prop where
  | claiming : Closing .claiming
  | unclaimed : Closing .unclaimed
  | marking (code : LifecycleFailureCode) : Closing (.marking code)
  | acked : Closing (.returned .ACK)

/-- How many moves a closing call has left at most. -/
def Phase.rank : Phase → Nat
  | .claiming => 3
  | .unclaimed => 2
  | .marking _ => 1
  | _ => 0

theorem Phase.Closing.claim?_eq {phase : Phase} (h : phase.Closing) : phase.claim? = none := by
  cases h <;> rfl

/-- One move of a closing call whose job is past its deadline: closing still, and closer to its end. -/
theorem Effect.closing {x : Handling} {now : Timestamp} {db db' : WorkerTables} {mv : Move} {phase : Phase}
    (h : Effect x now db mv phase db') (closing : x.phase.Closing) {v : View}
    (stored : db.view x.message.workerJobId = some v) (late : v.job.deadline ≤ now) :
    phase.Closing ∧ phase.rank < x.phase.rank := by
  have unclaimed : ∀ {c}, x.phase.claim? = some c → False := by
    intro c hc
    rw [closing.claim?_eq] at hc
    cases hc
  have passed : x.handler.deadlineAt now v.job ≤ now := (deadlineAt_le_iff _ _ _).2 late
  cases h with
  | refused at_ => exact ⟨.unclaimed, by simp [at_, Phase.rank]⟩
  | claimed _ view _ open_ =>
    cases stored.symm.trans view
    exact absurd open_.2.2.1 (not_lt.2 passed)
  | dismissed at_ => exact ⟨.acked, by simp [at_, Phase.rank]⟩
  | postponed _ view _ _ _ early =>
    cases stored.symm.trans view
    exact absurd early (not_lt.2 passed)
  | doomed code at_ => exact ⟨.marking code, by simp [at_, Phase.rank]⟩
  | marked code at_ => exact ⟨.acked, by simp [at_, Phase.rank]⟩
  | markedLate code at_ => exact ⟨.acked, by simp [at_, Phase.rank]⟩
  | proceeds _ at_ => exact (unclaimed at_).elim
  | renewed at_ => exact (unclaimed at_).elim
  | reported _ _ _ at_ => exact (unclaimed at_).elim
  | stopped _ at_ => exact (unclaimed at_).elim
  | superseded at_ => exact (unclaimed at_).elim
  | succeeded r at_ => exact (unclaimed (by rw [at_]; rfl)).elim
  | failed code at_ => exact (unclaimed (by rw [at_]; rfl)).elim

/-- The call was delivered after the deadline of the job its message names. -/
def Handling.Late (x : Handling) (db : WorkerTables) : Prop :=
  ∃ v, db.view x.message.workerJobId = some v ∧ v.Matches x.message ∧ v.job.deadline ≤ x.startedAt

theorem StepCases.late_back {s t : LifecycleState} {a : Action} (h : StepCases s a t) {x y : Handling}
    (message : y.message = x.message) (started : y.startedAt = x.startedAt) (late : y.Late t.db) :
    x.Late s.db := by
  obtain ⟨w, hw, names, hle⟩ := late
  rw [message] at hw names
  rw [started] at hle
  obtain ⟨v, hv, rfl | step⟩ := h.view_back hw
  · exact ⟨w, hv, names, hle⟩
  · exact ⟨v, hv, (step.matches_iff _).1 names, step.deadline ▸ hle⟩

/-- What holds of the calls of a reachable state: none started in the future, and the late ones
are closing. -/
structure LifecycleState.Punctual (s : LifecycleState) : Prop where
  started : ∀ p x, s.calls p = some x → x.startedAt ≤ s.now
  closing : ∀ p x, s.calls p = some x → x.Late s.db → x.phase.Closing

theorem punctual_step {s t : LifecycleState} {a : Action} (punctual : s.Punctual) (h : StepCases s a t) :
    t.Punctual where
  started := by
    intro p y hy
    rcases h.call hy with before | ⟨hd, m, rfl, -⟩ | ⟨x, mv, hx, hxy, effect⟩
    · exact (punctual.started p y before).trans h.now_le
    · exact h.now_le
    · rw [hxy]
      exact (punctual.started p x hx).trans h.now_le
  closing := by
    intro p y hy late
    rcases h.call hy with before | ⟨hd, m, rfl, -⟩ | ⟨x, mv, hx, hxy, effect⟩
    · exact punctual.closing p y before (h.late_back rfl rfl late)
    · exact .claiming
    · have lateBefore : x.Late s.db := h.late_back (by rw [hxy]) (by rw [hxy]) late
      have closing := punctual.closing p x hx lateBefore
      obtain ⟨v, hv, -, hle⟩ := lateBefore
      exact (effect.closing closing hv (hle.trans (punctual.started p x hx))).1

theorem reachable_punctual {s : LifecycleState} (reach : lifecycle.Reachable s) : s.Punctual := by
  have inv : s.Sound ∧ s.Punctual := by
    refine reach.invariant (I := fun s => s.Sound ∧ s.Punctual) ?_ ?_
    · intro s init
      exact ⟨sound_invariant (.init init), fun p x hx => by simp [init.2 p] at hx,
        fun p x hx => by simp [init.2 p] at hx⟩
    · rintro s a t ⟨sound, punctual⟩ hstep
      have cases_ := step_cases sound hstep
      exact ⟨cases_.sound sound, punctual_step punctual cases_⟩
  exact inv.2

/-- A closing call that has not returned can move, whatever the tables are. -/
theorem closing_enabled {s : LifecycleState} (sound : s.Sound) (punctual : s.Punctual) {p : Nat}
    {x : Handling} (call : s.calls p = some x) (late : x.Late s.db) (open_ : x.phase ≠ .returned .ACK) :
    ∃ mv t, lifecycle.step s (.move p mv) = some t := by
  have moves : ∀ mv, (advance x s.now s.db mv).isSome = true →
      ∃ mv t, lifecycle.step s (.move p mv) = some t := by
    intro mv h
    obtain ⟨⟨phase, db'⟩, hadv⟩ := Option.isSome_iff_exists.1 h
    exact ⟨mv, _,
      by simp only [lifecycle, LifecycleState.step, call, hadv, Option.bind_eq_bind, Option.bind_some]; rfl⟩
  obtain ⟨v, hv, names, hle⟩ := late
  have passed : v.job.deadline ≤ s.now := hle.trans (punctual.started p x call)
  have closing := punctual.closing p x call ⟨v, hv, names, hle⟩
  generalize hphase : x.phase = phase at closing open_
  cases closing with
  | claiming =>
    have refused : x.handler.claim x.message s.now s.db = .ok (none, s.db) := by
      refine claim_none sound.wellFormed fun w hw _ open_ => ?_
      cases hv.symm.trans hw
      exact absurd open_.2.2.1 (not_lt.2 ((deadlineAt_le_iff _ _ _).2 passed))
    exact moves .claim (by simp [advance, hphase, refused])
  | unclaimed =>
    cases hd : RcaJobHandler.unclaimedDecision x.message (x.handler.unclaimedRow x.message s.now s.db) with
    | answer d => exact moves .readUnclaimed (by simp [advance, hphase, hd])
    | terminate code => exact moves .readUnclaimed (by simp [advance, hphase, hd])
  | marking code => exact moves .mark (by simp [advance, hphase])
  | acked => exact absurd rfl open_

/-- Acknowledgements and late deliveries, in every reachable state. An acknowledged message has no
job, or other identifiers than its job, or a job that is terminal for good. A call delivered at or
after the deadline of its job can always move until it returns, comes closer to its return with
every move, and returns `ACK` with the job terminal. -/
theorem ack_iff_done {s : LifecycleState} (reach : lifecycle.Reachable s) {p : Nat} {x : Handling}
    (call : s.calls p = some x) :
    (x.phase = .returned .ACK →
      s.db.job x.message.workerJobId = none ∨
      (∃ v, s.db.view x.message.workerJobId = some v ∧ ¬ v.Matches x.message) ∨
      ∃ v, s.db.view x.message.workerJobId = some v ∧ v.job.status.Terminal ∧
        ∀ t, lifecycle.Steps s t → t.db.view x.message.workerJobId = some v) ∧
    (∀ v, s.db.view x.message.workerJobId = some v → v.Matches x.message → v.job.deadline ≤ x.startedAt →
      ((∀ d, x.phase ≠ .returned d) → ∃ mv t, lifecycle.step s (.move p mv) = some t) ∧
      (∀ mv t, lifecycle.step s (.move p mv) = some t →
        ∃ y, t.calls p = some y ∧ y.phase.rank < x.phase.rank) ∧
      (∀ d, x.phase = .returned d → d = .ACK ∧ v.job.status.Terminal)) := by
  have sound := sound_invariant reach
  have punctual := reachable_punctual reach
  refine ⟨fun ack => ?_, fun v hv names late => ⟨fun open_ => ?_, fun mv t hstep => ?_, fun d hd => ?_⟩⟩
  · have discharged := acked_discharged reach call ack
    cases hjob : s.db.job x.message.workerJobId with
    | none => exact .inl rfl
    | some job =>
      obtain ⟨v, hv, -⟩ := sound.wellFormed.view_of_job hjob
      by_cases names : v.Matches x.message
      · have terminal := discharged v hv names
        exact .inr (.inr ⟨v, hv, terminal, fun t run => terminal_stable sound run hv terminal⟩)
      · exact .inr (.inl ⟨v, hv, names⟩)
  · exact closing_enabled sound punctual call ⟨v, hv, names, late⟩ (open_ _)
  · have cases_ := step_cases sound hstep
    cases cases_ with
    | @move _ _ x' phase db' call' move effect =>
      cases call.symm.trans call'
      refine ⟨_, LifecycleState.setCall_self _ _ _, ?_⟩
      exact (effect.closing (punctual.closing p x call ⟨v, hv, names, late⟩) hv
        (late.trans (punctual.started p x call))).2
  · have closing := punctual.closing p x call ⟨v, hv, names, late⟩
    rw [hd] at closing
    cases closing
    exact ⟨rfl, acked_discharged reach call hd v hv names⟩

/-- A queued job whose only delivery arrives at its deadline. -/
def expiredDelivery : List Action :=
  [.tick 300000000, .deliver 0 (.named "a") ⟨1, 2, 3⟩, .move 0 .claim, .move 0 .readUnclaimed, .move 0 .mark]

/-- The late delivery of a queued job is acknowledged with the job terminal. -/
theorem ack_iff_done_expired : ∃ s x v, lifecycle.Reachable s ∧ s.calls 0 = some x ∧ s.db.view 1 = some v ∧
    x.phase = .returned .ACK ∧ v.job.status.Terminal := by
  have key : ((lifecycle.exec (queuedState 1 2 3 0) expiredDelivery).bind fun s => (s.calls 0).bind fun x =>
      (s.db.view 1).map fun v =>
        (x.message, x.phase, decide (v.Matches ⟨1, 2, 3⟩ ∧ v.job.deadline ≤ x.startedAt))) =
      some (⟨1, 2, 3⟩, .returned .ACK, true) := by decide
  obtain ⟨s, hs, key⟩ := Option.bind_eq_some_iff.1 key
  obtain ⟨x, hx, key⟩ := Option.bind_eq_some_iff.1 key
  obtain ⟨v, hv, key⟩ := Option.map_eq_some_iff.1 key
  simp only [Prod.mk.injEq, decide_eq_true_eq] at key
  obtain ⟨message, phase, names, late⟩ := key
  have reach : lifecycle.Reachable s := ⟨_, queued_init 1 2 3 0, System.run_of_exec hs⟩
  rw [← message] at names
  have done := (ack_iff_done reach hx).2 v (by rw [message]; exact hv) names late
  exact ⟨s, x, v, reach, hx, hv, phase, (done.2.2 _ phase).2⟩

end SreAgent.Lifecycle
