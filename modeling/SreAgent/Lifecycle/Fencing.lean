import SreAgent.Lifecycle.Attempts

/-!
# Renewal and settlement by a superseded attempt

The `WHERE` of a renewal and of a settlement compares the worker identifier of the claim with the
one in the job row, not the attempt number. That tells an old attempt from the current one exactly
while the two were claimed under different identifiers (`attempts_fenced`).
-/

namespace SreAgent.Lifecycle
open Base Pubsub

/-- A renewal or a settlement that changes a row is one of the job's current attempt. -/
def Fenced (s : LifecycleState) (a : Action) (t : LifecycleState) : Prop :=
  ∀ id p c v, a = .move p .renew ∨ a = .move p .settle → s.Attempt id p c → s.db.view id = some v →
    t.db ≠ s.db →
    c.attemptNumber = v.job.attemptCount

/-- No other call works on the job under the worker identifier that claims it. -/
def OwnersApart (s : LifecycleState) : Action → Prop
  | .move p .claim => ∀ x v, s.calls p = some x → s.db.view x.message.workerJobId = some v →
    v.Matches x.message →
      x.handler.Claimable s.now v.job → ∀ q c, s.Attempt x.message.workerJobId q c →
        c.leaseOwner ≠ x.handler.workerId
  | _ => True

/-- A renewal or a settlement of an attempt whose worker identifier is in the row is one of the
current attempt, or it renews to the lease that is there. -/
def OwnersTell (s : LifecycleState) (a : Action) : Prop :=
  ∀ id p c v, s.Attempt id p c → s.db.view id = some v → c.Holds v.job →
    (a = .move p .renew → c.attemptNumber = v.job.attemptCount ∨ RcaJobClaim.renewedJob s.now v.job = v.job) ∧
    (a = .move p .settle → c.attemptNumber = v.job.attemptCount)

/-! ## What a renewal and a settlement write -/

section Writes

variable {x : Handling} {now : Timestamp} {db db' : WorkerTables} {phase : Phase} {c : RcaJobClaim} {v : View}

theorem RcaJobClaim.renewLease_eq_self (wf : db.WellFormed) (hv : db.view c.workerJobId = some v)
    (same : RcaJobClaim.renewedJob now v.job = v.job) : (c.renewLease now db).2 = db := by
  have jobs : Table.updateWhere (fun job => job.id = c.workerJobId ∧ c.Holds job)
    (RcaJobClaim.renewedJob now) db.workerJobs =
      db.workerJobs := by
    refine Table.updateWhere_of_fixed fun job hjob hit => ?_
    have found := wf.jobIds.lookup_of_mem hjob
    rw [hit.1] at found
    cases found.symm.trans (WorkerTables.view_eq_some.1 hv).1
    exact same
  simp only [RcaJobClaim.renewLease, RcaJobClaim.updateHeld, jobs]

/-- A renewal changes the tables exactly if its owner holds the job and the lease is a new one. -/
theorem renew_changes_iff (wf : db.WellFormed) (sound : x.Sound db)
    (h : advance x now db .renew = some (phase, db')) (hc : x.phase.claim? = some c)
    (hv : db.view x.message.workerJobId = some v) :
    db' ≠ db ↔ c.Holds v.job ∧ RcaJobClaim.renewedJob now v.job ≠ v.job := by
  simp only [advance] at h
  split at h
  · next c' processor at_ =>
    rw [at_] at hc
    cases hc
    cases h
    obtain ⟨-, hfor⟩ := sound.claimed c (by rw [at_]; rfl)
    rw [← hfor.1] at hv
    have spec := renew_spec now wf hv
    split at spec
    · next held =>
      refine ⟨fun changed => ⟨held, fun same => changed (RcaJobClaim.renewLease_eq_self wf hv same)⟩,
        fun both same => both.2 ?_⟩
      have after := spec.2.here v hv
      rw [same] at after
      exact congrArg View.job (Option.some.inj (after.symm.trans hv))
    · next lost =>
      rw [spec]
      exact iff_of_false (fun h => h rfl) fun held => lost held.1
  · cases h

/-- A settlement changes the tables exactly if its owner holds the job. -/
theorem settle_changes_iff (wf : db.WellFormed) (sound : x.Sound db)
    (h : advance x now db .settle = some (phase, db')) (hc : x.phase.claim? = some c)
    (hv : db.view x.message.workerJobId = some v) : db' ≠ db ↔ c.Holds v.job := by
  have settles : ∀ {f}, Rewrites x.message.workerJobId f db db' → (f v).job.leaseOwner = none →
    c.Holds v.job →
      (db' ≠ db ↔ c.Holds v.job) := by
    intro f rewrites released held
    refine iff_of_true (fun same => ?_) held
    have after := rewrites.here v hv
    rw [same] at after
    have same : f v = v := Option.some.inj (after.symm.trans hv)
    rw [same, held.2] at released
    cases released
  cases settle_effect wf sound h with
  | proceeds quiet => cases quiet
  | stopped quiet => cases quiet
  | superseded at_ view lost =>
    cases view.symm.trans hv
    cases at_.symm.trans hc
    exact iff_of_false (fun h => h rfl) lost
  | succeeded r at_ view held rewrites =>
    cases view.symm.trans hv
    rw [at_] at hc
    cases hc
    exact settles rewrites rfl held
  | failed code at_ view held rewrites =>
    cases view.symm.trans hv
    rw [at_] at hc
    cases hc
    exact settles rewrites rfl held

end Writes

section Steps

variable {s t : LifecycleState} {a : Action}

/-- A step is fenced exactly if the worker identifiers tell. -/
theorem fenced_iff (sound : s.Sound) (hstep : lifecycle.step s a = some t) : Fenced s a t ↔
      OwnersTell s a := by
  have renews : ∀ {id p c v}, a = .move p .renew → s.Attempt id p c → s.db.view id = some v →
      (t.db ≠ s.db ↔ c.Holds v.job ∧ RcaJobClaim.renewedJob s.now v.job ≠ v.job) := by
    rintro id p c v rfl ⟨x, hx, rfl, hc⟩ hv
    cases step_cases sound hstep with
    | move call move _ =>
      cases call.symm.trans hx
      exact renew_changes_iff sound.wellFormed (sound.calls p x hx) move hc hv
  have settles : ∀ {id p c v}, a = .move p .settle → s.Attempt id p c → s.db.view id = some v →
      (t.db ≠ s.db ↔ c.Holds v.job) := by
    rintro id p c v rfl ⟨x, hx, rfl, hc⟩ hv
    cases step_cases sound hstep with
    | move call move _ =>
      cases call.symm.trans hx
      exact settle_changes_iff sound.wellFormed (sound.calls p x hx) move hc hv
  constructor
  · intro fenced id p c v hc hv held
    refine ⟨fun moves => ?_, fun moves => fenced id p c v (.inr moves) hc hv ((settles moves hc hv).2 held)⟩
    refine or_iff_not_imp_right.2 fun fresh =>
      fenced id p c v (.inl moves) hc hv ((renews moves hc hv).2 ⟨held, fresh⟩)
  · rintro tell id p c v (moves | moves) hc hv changed
    · obtain ⟨held, fresh⟩ := (renews moves hc hv).1 changed
      exact ((tell id p c v hc hv held).1 moves).resolve_right fresh
    · exact (tell id p c v hc hv ((settles moves hc hv).1 changed)).2 moves

/-- An attempt whose worker identifier is in the row is the current one. -/
def LifecycleState.Owned (s : LifecycleState) : Prop :=
  ∀ id p c v, s.Attempt id p c → s.db.view id = some v → v.job.leaseOwner = some c.leaseOwner →
    c.attemptNumber = v.job.attemptCount

/-- A step claims a job for the call that moved, or keeps its count, and its owner unless it releases
the job. -/
theorem StepCases.owner (h : StepCases s a t) {id : Uuid} {v w : View} (hv : s.db.view id = some v)
    (hw : t.db.view id = some w) :
    (∃ p x, a = .move p .claim ∧ s.calls p = some x ∧ x.message.workerJobId = id ∧ v.Matches x.message ∧
      x.handler.Claimable s.now v.job ∧ w = v.claimed x.handler s.now) ∨
      w.job.attemptCount = v.job.attemptCount ∧
        (w.job.leaseOwner = none ∨ w.job.leaseOwner = v.job.leaseOwner) := by
  cases h with
  | deliver | tick | crash =>
    cases hv.symm.trans hw
    exact .inr ⟨rfl, .inr rfl⟩
  | @move p mv x phase db' call move effect =>
    have rewritten : ∀ {f}, Rewrites x.message.workerJobId f s.db db' → w = v ∨ x.message.workerJobId = id ∧
        w = f v := by
      intro f rewrites
      by_cases own : x.message.workerJobId = id
      · subst own
        exact .inr ⟨rfl, Option.some.inj (hw.symm.trans (rewrites.here v hv))⟩
      · exact .inl (Option.some.inj ((hw.symm.trans (rewrites.elsewhere id (Ne.symm own))).trans hv))
    have kept : w = v → w.job.attemptCount = v.job.attemptCount ∧
        (w.job.leaseOwner = none ∨ w.job.leaseOwner = v.job.leaseOwner) := by
      rintro rfl
      exact ⟨rfl, .inr rfl⟩
    cases effect with
    | refused | dismissed | postponed | doomed | markedLate | proceeds | stopped | superseded | reported =>
      exact .inr (kept (Option.some.inj (hw.symm.trans hv)))
    | claimed _ view names open_ rewrites =>
      rcases rewritten rewrites with same | ⟨rfl, rfl⟩
      · exact .inr (kept same)
      · cases view.symm.trans hv
        exact .inl ⟨p, x, rfl, call, rfl, names, open_, rfl⟩
    | renewed _ _ _ _ rewrites =>
      rcases rewritten rewrites with same | ⟨-, rfl⟩
      · exact .inr (kept same)
      · exact .inr ⟨rfl, .inr rfl⟩
    | marked _ _ _ _ _ rewrites | succeeded _ _ _ _ rewrites | failed _ _ _ _ rewrites =>
      rcases rewritten rewrites with same | ⟨-, rfl⟩
      · exact .inr (kept same)
      · exact .inr ⟨rfl, .inl rfl⟩

/-- Claims under other identifiers than those at work keep identifiers and attempts together. -/
theorem owned_step (sound : s.Sound) (owned : s.Owned) (apart : OwnersApart s a)
    (hstep : lifecycle.step s a = some t) :
    t.Owned := by
  have cases_ := step_cases sound hstep
  intro id p c w hc hw owner
  obtain ⟨v, hv, -⟩ := cases_.view_back hw
  rcases cases_.attempt_back hc with before | ⟨x, u, -, -, rfl, claims⟩
  · rcases cases_.owner hv hw with ⟨q, x, rfl, hx, rfl, names, open_, rfl⟩ | ⟨count, released | same⟩
    · exact absurd (Option.some.inj owner).symm (apart x v hx hv names open_ p c before)
    · cases released.symm.trans owner
    · rw [count]
      exact owned id p c v before hv (same ▸ owner)
  · cases hw.symm.trans claims.written
    cases hv.symm.trans claims.stored
    exact claims.number

/-- In a run that claims no job under an identifier at work on it every renewal and settlement is
fenced; in any run one is exactly if it is told by its identifier. -/
theorem attempts_fenced {s₀ : LifecycleState} (init : lifecycle.init s₀) :
    (∀ s, lifecycle.Run OwnersApart s₀ s → ∀ a t, lifecycle.step s a = some t → Fenced s a t) ∧
      ∀ s, lifecycle.Steps s₀ s → ∀ a t, lifecycle.step s a = some t → (Fenced s a t ↔ OwnersTell s a) := by
  refine ⟨fun s run a t hstep => ?_,
    fun s run a t hstep => fenced_iff (sound_invariant ⟨s₀, init, run⟩) hstep⟩
  have inv : s.Sound ∧ s.Owned := by
    refine System.Run.invariant (I := fun s => s.Sound ∧ s.Owned) run ?_ ⟨sound_invariant (.init init), ?_⟩
    · rintro s a t ⟨sound, owned⟩ apart hstep
      exact ⟨sound_step sound hstep, owned_step sound owned apart hstep⟩
    · rintro id p c v ⟨x, hx, -⟩
      rw [init.2 p] at hx
      cases hx
  obtain ⟨sound, owned⟩ := inv
  refine (fenced_iff sound hstep).2 fun id p c v hc hv held => ?_
  exact ⟨fun _ => .inl (owned id p c v hc hv held.2), fun _ => owned id p c v hc hv held.2⟩

end Steps

/-- The lease of a worker runs out while it is at work, another one takes the job over, and call `p`
is to settle a failure. -/
def overtaken (first second : String) (p : Nat) : List Action :=
  [.deliver 0 (.named first) ⟨1, 2, 3⟩, .move 0 .claim, .move 0 (.start 300), .tick 61000000,
    .deliver 1 (.named second) ⟨1, 2, 3⟩, .move 1 .claim, .move 1 (.start 239),
    .move p (.wake 200 (.processorRaised .other))]

/-- The count and the status of the job. -/
def jobOf (s : LifecycleState) : Option (Nat × JobStatus) :=
  (s.db.view 1).map fun v => (v.job.attemptCount, v.job.status)

/-- The job of call `p` and the number of its attempt. -/
def attemptOf (p : Nat) (s : LifecycleState) : Option (Uuid × Nat) :=
  (s.calls p).bind fun x => x.phase.claim?.map fun c => (x.message.workerJobId, c.attemptNumber)

/-- The worker that took over settles its own attempt. -/
theorem attempts_fenced_overtaken : ∃ s t, lifecycle.exec (queuedState 1 2 3 0) (overtaken "a" "b" 1) =
      some s ∧
    lifecycle.step s (.move 1 .settle) = some t ∧ Fenced s (.move 1 .settle) t := by
  have settled : ((lifecycle.exec (queuedState 1 2 3 0) (overtaken "a" "b" 1)).bind fun s =>
      lifecycle.step s (.move 1 .settle)).isSome = true := by decide
  have job : (lifecycle.exec (queuedState 1 2 3 0) (overtaken "a" "b" 1)).bind jobOf =
      some (2, .RUNNING) := by decide
  have call : (lifecycle.exec (queuedState 1 2 3 0) (overtaken "a" "b" 1)).bind (attemptOf 1) =
      some (1, 2) := by decide
  obtain ⟨t, settled⟩ := Option.isSome_iff_exists.1 settled
  obtain ⟨s, hs, ht⟩ := Option.bind_eq_some_iff.1 settled
  rw [hs, Option.bind_some] at job call
  refine ⟨s, t, hs, ht, (((attempts_fenced (queued_init 1 2 3 0)).2 s (System.run_of_exec hs) _ t ht).2 ?_)⟩
  rintro id p c v ⟨x, hx, own, hc⟩ hv -
  refine ⟨fun moves => (by cases moves), fun moves => ?_⟩
  cases moves
  simp only [attemptOf, hx, Option.bind_some, hc, Option.map_some, Option.some.injEq, Prod.mk.injEq] at call
  rw [← own, call.1] at hv
  simp only [jobOf, hv, Option.map_some, Option.some.injEq, Prod.mk.injEq] at job
  rw [call.2, job.1]

/-- The overtaken worker has the same identifier as the one that took over, and fails the job of its
attempt. -/
theorem shared_identifier_settles : ∃ s t, lifecycle.Reachable s ∧ lifecycle.step s (.move 0 .settle) =
      some t ∧
    ¬ Fenced s (.move 0 .settle) t := by
  have job : (lifecycle.exec (queuedState 1 2 3 0) (overtaken "a" "a" 0)).bind jobOf =
      some (2, .RUNNING) := by decide
  have call : (lifecycle.exec (queuedState 1 2 3 0) (overtaken "a" "a" 0)).bind (attemptOf 0) =
      some (1, 1) := by decide
  have after :
    (((lifecycle.exec (queuedState 1 2 3 0) (overtaken "a" "a" 0)).bind fun s =>
        lifecycle.step s (.move 0 .settle)).bind
      jobOf) = some (2, .FAILED) := by decide
  obtain ⟨t, settled, after⟩ := Option.bind_eq_some_iff.1 after
  obtain ⟨s, hs, ht⟩ := Option.bind_eq_some_iff.1 settled
  rw [hs, Option.bind_some] at job call
  obtain ⟨v, hv, count⟩ := Option.map_eq_some_iff.1 job
  obtain ⟨x, hx, claim⟩ := Option.bind_eq_some_iff.1 call
  obtain ⟨c, hc, number⟩ := Option.map_eq_some_iff.1 claim
  simp only [Prod.mk.injEq] at count number
  refine ⟨s, t, ⟨_, queued_init 1 2 3 0, System.run_of_exec hs⟩, ht, fun fenced => ?_⟩
  have current := fenced 1 0 c v (.inr rfl) ⟨x, hx, number.1, hc⟩ hv ?_
  · omega
  · intro same
    simp only [jobOf, same, hv, Option.map_some, Option.some.injEq, Prod.mk.injEq] at after
    rw [count.2] at after
    cases after.2

end SreAgent.Lifecycle
