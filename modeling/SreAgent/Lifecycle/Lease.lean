import SreAgent.Lifecycle.Lockstep

/-!
# A redelivery of a job under a live lease

`handle` of a redelivery first tries to claim and then, in a second transaction, reads the job
to choose its answer. The claim is guarded by the lease; the read is not: it terminates a
running job as soon as its third attempt has started. So the lease holder is left alone exactly
while fewer than three attempts have been started (`live_lease_spared_iff`), and a termination
that meets a live lease always meets the third attempt (`marking_live`).
-/

namespace SreAgent.Lifecycle
open Base Pubsub

/-- Running, under a lease that has not expired, before the deadline of the job. -/
def View.Live (v : View) (now : Timestamp) : Prop :=
  v.job.status = .RUNNING ∧ (∃ t ∈ v.job.leaseExpiresAt, now ≤ t) ∧ now < v.job.deadline

instance (v : View) (now : Timestamp) : Decidable (v.Live now) := by
  unfold View.Live; infer_instance

instance (v : View) (m : RcaJobMessage) : Decidable (v.Matches m) := by
  unfold View.Matches; infer_instance

/-- A job is past the deadline of any handler exactly when it is past its own: the configured
part of the deadline is at least a second away. -/
theorem deadlineAt_le_iff (h : RcaJobHandler) (now : Timestamp) (job : WorkerJob) :
    h.deadlineAt now job ≤ now ↔ job.deadline ≤ now := by
  have ahead : now < now + seconds h.deadlineSeconds := by
    have : 0 < seconds h.deadlineSeconds := by
      have := h.deadline_ge
      unfold seconds
      omega
    exact lt_add_of_pos_right now this
  simp only [RcaJobHandler.deadlineAt, min_le_iff, not_le.2 ahead, or_false]

/-- A live job cannot be claimed. -/
theorem View.Live.not_claimable {v : View} {now : Timestamp} (live : v.Live now) (h : RcaJobHandler) :
    ¬ h.Claimable now v.job := by
  obtain ⟨running, ⟨t, ht, hle⟩, -⟩ := live
  rintro ⟨-, -, -, queued | ⟨-, expired⟩⟩
  · rw [running] at queued
    cases queued
  · obtain ⟨t', ht', hlt⟩ := expired
    cases Option.mem_unique ht ht'
    exact absurd hlt (not_lt.2 hle)

/-- What a redelivery owes to the holder of a live lease: its claim at `s₁` and its read at `s₂`
write nothing, it answers `NACK`, and the holder then settles. -/
structure Spares (h : RcaJobHandler) (m : RcaJobMessage) (startedAt : Timestamp) (s₁ s₂ : LifecycleState) :
    Prop where
  claim : advance ⟨h, m, startedAt, .claiming⟩ s₁.now s₁.db .claim = some (.unclaimed, s₁.db)
  read : advance ⟨h, m, startedAt, .unclaimed⟩ s₂.now s₂.db .readUnclaimed = some (.returned .NACK, s₂.db)
  settles : ∀ c : RcaJobClaim, c.For m → (∀ v, s₂.db.view m.workerJobId = some v → c.Holds v.job) →
    ∀ r now, (c.settleSuccess r now s₂.db).1 = .ACK

section Redelivery

variable {db : WorkerTables} {m : RcaJobMessage} {h : RcaJobHandler} {now startedAt : Timestamp} {v : View}

/-- The claim of a redelivery is refused while the job is live. -/
theorem claim_live (wf : db.WellFormed) (stored : db.view m.workerJobId = some v) (live : v.Live now) :
    advance ⟨h, m, startedAt, .claiming⟩ now db .claim = some (.unclaimed, db) := by
  have refused : h.claim m now db = .ok (none, db) := by
    refine claim_none wf fun w hw _ => ?_
    cases stored.symm.trans hw
    exact live.not_claimable h
  simp only [advance, refused]

/-- The answer of a redelivery that reads a live job. -/
theorem read_live (wf : db.WellFormed) (stored : db.view m.workerJobId = some v) (names : v.Matches m)
    (live : v.Live now) (startedAt : Timestamp) :
    advance ⟨h, m, startedAt, .unclaimed⟩ now db .readUnclaimed =
      some (if v.job.attemptCount < 3 then .returned .NACK else .marking .INTERNAL_ERROR, db) := by
  have hrun : v.run.id = m.rcaRunId := (WorkerTables.view_run_id stored).trans names.2.1
  have early : ¬ h.deadlineAt now v.job ≤ now := by
    rw [deadlineAt_le_iff]
    exact not_le.2 live.2.2
  simp only [advance, unclaimedRow_eq wf, stored, Option.map_some, RcaJobHandler.unclaimedDecision, hrun,
    names.2.2, live.1, early]
  by_cases few : v.job.attemptCount < 3
  · simp [few, Nat.not_le.2 few]
  · simp [few, Nat.not_lt.1 few]

/-- The holder of a lease settles its result. -/
theorem settle_held (wf : db.WellFormed) {c : RcaJobClaim} (hc : c.For m)
    (stored : db.view m.workerJobId = some v) (names : v.Matches m) (held : c.Holds v.job)
    (r : RcaProcessingResult) :
    (c.settleSuccess r now db).1 = .ACK := by
  have own : v.Owns c := ⟨names.1.trans hc.1.symm, names.2.1.trans hc.2.1.symm⟩
  have spec := settleSuccess_spec now wf (hc.1 ▸ stored) own r
  rw [if_pos held] at spec
  exact spec.1

end Redelivery

/-- A redelivery spares the holder of a live lease exactly when fewer than three attempts of the
job have been started by the time it reads the job, whatever happened since its claim. -/
theorem live_lease_spared_iff {s₁ s₂ : LifecycleState} (reach : lifecycle.Reachable s₁)
    (run : lifecycle.Steps s₁ s₂) {h : RcaJobHandler} {m : RcaJobMessage} {startedAt : Timestamp}
    {v₁ v₂ : View} (stored₁ : s₁.db.view m.workerJobId = some v₁) (live₁ : v₁.Live s₁.now)
    (stored₂ : s₂.db.view m.workerJobId = some v₂) (live₂ : v₂.Live s₂.now) (names : v₂.Matches m) :
    Spares h m startedAt s₁ s₂ ↔ v₂.job.attemptCount < 3 := by
  have wf₁ := (sound_invariant reach).wellFormed
  have wf₂ := (sound_invariant (reach.steps run)).wellFormed
  have read := read_live (h := h) wf₂ stored₂ names live₂ startedAt
  constructor
  · intro spares
    by_contra many
    have answer := spares.read
    rw [read, if_neg many] at answer
    cases answer
  · intro few
    rw [if_pos few] at read
    exact ⟨claim_live wf₁ stored₁ live₁, read, fun c hc held r now =>
      settle_held wf₂ hc stored₂ names (held v₂ stored₂) r⟩

/-- Three workers are lost in turn under one job; the lease of the third is still live. -/
def thirdAttempt : List Action :=
  [.deliver 0 (.named "a") ⟨1, 2, 3⟩, .move 0 .claim, .crash 0, .tick 61000000,
    .deliver 1 (.named "b") ⟨1, 2, 3⟩, .move 1 .claim, .crash 1, .tick 61000000,
    .deliver 2 (.named "c") ⟨1, 2, 3⟩, .move 2 .claim, .move 2 (.start 178), .tick 1000000]

/-- What the examples read of a state: whether job `1` is live, its attempts, and the next phase of
a redelivery that has found nothing to claim. -/
def livenessOf (s : LifecycleState) : Option (Bool × Nat × Option Phase) :=
  (s.db.view 1).map fun v => (decide (v.Live s.now ∧ v.Matches ⟨1, 2, 3⟩), v.job.attemptCount,
    (advance ⟨.named "d", ⟨1, 2, 3⟩, s.now, .unclaimed⟩ s.now s.db .readUnclaimed).map Prod.fst)

/-- A redelivery during the third attempt goes on to terminate the job under its holder. -/
theorem third_attempt_not_spared : ∃ s v, lifecycle.Reachable s ∧ s.db.view 1 = some v ∧ v.Live s.now ∧
    v.Matches ⟨1, 2, 3⟩ ∧ v.job.attemptCount = 3 ∧ ¬ Spares (.named "d") ⟨1, 2, 3⟩ s.now s s := by
  have key : ((lifecycle.exec (queuedState 1 2 3 0) thirdAttempt).bind livenessOf) =
      some (true, 3, some (.marking .INTERNAL_ERROR)) := by decide
  obtain ⟨s, hs, hkey⟩ := Option.bind_eq_some_iff.1 key
  obtain ⟨v, hv, facts⟩ := Option.map_eq_some_iff.1 hkey
  simp only [Prod.mk.injEq, decide_eq_true_eq] at facts
  obtain ⟨⟨live, names⟩, attempts, next⟩ := facts
  refine ⟨s, v, ⟨_, queued_init 1 2 3 0, System.run_of_exec hs⟩, hv, live, names, attempts, fun spares => ?_⟩
  rw [spares.read] at next
  cases next

/-- During a first attempt the holder is spared. -/
theorem live_lease_spared_first : ∃ s v, s.db.view 1 = some v ∧ v.job.attemptCount = 1 ∧
    Spares (.named "d") ⟨1, 2, 3⟩ s.now s s := by
  have key : ((lifecycle.exec (queuedState 1 2 3 0) (thirdAttempt.take 2)).bind livenessOf) =
      some (true, 1, some (.returned .NACK)) := by decide
  obtain ⟨s, hs, hkey⟩ := Option.bind_eq_some_iff.1 key
  obtain ⟨v, hv, facts⟩ := Option.map_eq_some_iff.1 hkey
  simp only [Prod.mk.injEq, decide_eq_true_eq] at facts
  obtain ⟨⟨live, names⟩, attempts, -⟩ := facts
  have reach : lifecycle.Reachable s := ⟨_, queued_init 1 2 3 0, System.run_of_exec hs⟩
  exact ⟨s, v, hv, attempts,
    (live_lease_spared_iff reach .refl hv live hv live names).2 (by omega)⟩

/-! ## Which terminations meet a live lease -/

/-- No transaction takes an attempt back. -/
theorem View.Step.attempts_le {v w : View} (step : v.Step w) : v.job.attemptCount ≤ w.job.attemptCount := by
  cases step with
  | claim hd now open_ => exact Nat.le_succ _
  | renew | mark | settleSuccess | settleFailure => exact le_refl _

theorem StepCases.now_le {s t : LifecycleState} {a : Action} (h : StepCases s a t) : s.now ≤ t.now := by
  cases h with
  | tick dt => exact le_add_of_nonneg_right (Int.natCast_nonneg dt)
  | deliver | crash | move => exact le_refl _

/-- A job is due for termination: past its deadline, or out of attempts. -/
def View.Due (v : View) (now : Timestamp) : Prop := v.job.deadline ≤ now ∨ 3 ≤ v.job.attemptCount

theorem View.Step.deadline {v w : View} (step : v.Step w) : w.job.deadline = v.job.deadline := by
  rw [WorkerJob.deadline, WorkerJob.deadline, step.frame.2.2.2]

/-- Once due, always due. -/
theorem StepCases.due {s t : LifecycleState} {a : Action} (h : StepCases s a t) {id : Uuid} {v w : View}
    (hv : s.db.view id = some v) (hw : t.db.view id = some w) (due : v.Due s.now) : w.Due t.now := by
  have step : w = v ∨ v.Step w := by
    rcases h.tables with same | ⟨m, hs⟩
    · rw [same] at hw
      exact .inl (Option.some.inj (hw.symm.trans hv))
    · obtain ⟨w', hw', hs'⟩ := hs.view hv
      cases hw.symm.trans hw'
      exact hs'
  rcases step with rfl | step
  · exact due.imp_left fun h' => h'.trans h.now_le
  · rw [View.Due, step.deadline]
    exact due.imp (fun h' => h'.trans h.now_le) fun h' => h'.trans step.attempts_le

/-- Every call about to terminate a job found it due. -/
theorem marking_due {s : LifecycleState} (reach : lifecycle.Reachable s) {p : Nat} {x : Handling}
    {code : LifecycleFailureCode} (call : s.calls p = some x) (at_ : x.phase = .marking code) :
    ∃ v, s.db.view x.message.workerJobId = some v ∧ v.Due s.now := by
  have inv : s.Sound ∧ ∀ p x code, s.calls p = some x → x.phase = .marking code →
      ∃ v, s.db.view x.message.workerJobId = some v ∧ v.Due s.now := by
    refine reach.invariant (I := fun s => s.Sound ∧ ∀ p x code, s.calls p = some x → x.phase = .marking code →
      ∃ v, s.db.view x.message.workerJobId = some v ∧ v.Due s.now) ?_ ?_
    · intro s init
      exact ⟨sound_invariant (.init init), fun p x code hx => by simp [init.2 p] at hx⟩
    · rintro s a t ⟨sound, marked⟩ hstep
      have cases_ := step_cases sound hstep
      refine ⟨cases_.sound sound, fun p y code hy hp => ?_⟩
      have stays : ∀ {id v}, s.db.view id = some v → v.Due s.now → ∃ w, t.db.view id = some w ∧
          w.Due t.now := by
        intro id v hv due
        obtain ⟨w, hw, -⟩ := lifecycle_view_step sound hstep hv
        exact ⟨w, hw, cases_.due hv hw due⟩
      rcases cases_.call hy with before | ⟨hd, m, rfl, -⟩ | ⟨x, mv, hx, hxy, effect⟩
      · obtain ⟨v, hv, due⟩ := marked p y code before hp
        exact stays hv due
      · cases hp
      · rw [hxy]
        rw [hp] at effect
        generalize t.db = db' at effect stays
        cases effect with
        | doomed _ _ view _ _ why =>
          exact stays view (why.imp_left (deadlineAt_le_iff _ _ _).1)
        | proceeds _ _ keeps => cases keeps
        | renewed _ keeps => cases keeps
        | reported _ _ _ _ keeps => cases keeps
  exact inv.2 p x code call at_

/-- A termination that meets a live lease meets the third attempt. -/
theorem marking_live {s : LifecycleState} (reach : lifecycle.Reachable s) {p : Nat} {x : Handling}
    {code : LifecycleFailureCode} (call : s.calls p = some x) (at_ : x.phase = .marking code) {v : View}
    (stored : s.db.view x.message.workerJobId = some v) (live : v.Live s.now) : 3 ≤ v.job.attemptCount := by
  obtain ⟨w, hw, due⟩ := marking_due reach call at_
  cases stored.symm.trans hw
  exact due.resolve_left (not_le.2 live.2.2)

end SreAgent.Lifecycle
