import SreAgent.Lifecycle.Disposition

/-!
# Attempts and their numbers

A claim takes the next attempt number of its job, so the claims that calls work under at the same
time carry different numbers, none greater than the count in the job row. The row itself records
the worker identifier of the last claim, not its number.
-/

namespace SreAgent.Lifecycle
open Base Pubsub

/-- Call `p` works on job `id` under claim `c`. -/
def LifecycleState.Attempt (s : LifecycleState) (id : Uuid) (p : Nat) (c : RcaJobClaim) : Prop :=
  ∃ x, s.calls p = some x ∧ x.message.workerJobId = id ∧ x.phase.claim? = some c

/-- A claim of the call succeeds, and gives it the claim `c`. -/
structure Claims (x : Handling) (now : Timestamp) (db : WorkerTables) (v : View) (c : RcaJobClaim)
    (db' : WorkerTables) :
    Prop where
  stored : db.view x.message.workerJobId = some v
  names : v.Matches x.message
  claimable : x.handler.Claimable now v.job
  number : c.attemptNumber = v.job.attemptCount + 1
  owner : c.leaseOwner = x.handler.workerId
  written : db'.view x.message.workerJobId = some (v.claimed x.handler now)

/-- The claim of a call comes from its own claiming transaction, and stays. -/
theorem Effect.claim?_back {x : Handling} {now : Timestamp} {db db' : WorkerTables} {mv : Move}
    {phase : Phase} {c : RcaJobClaim} (h : Effect x now db mv phase db') (hc : phase.claim? = some c) :
    x.phase.claim? = some c ∨ mv = .claim ∧ ∃ v, Claims x now db v c db' := by
  cases h with
  | refused | dismissed | postponed | doomed | marked | markedLate | stopped | superseded | succeeded
  | failed => cases hc
  | claimed _ view names open_ rewrites =>
    cases hc
    exact .inr ⟨rfl, _, view, names, open_, rfl, rfl, rewrites.here _ view⟩
  | proceeds _ at_ keeps | renewed at_ keeps | reported _ _ _ at_ keeps =>
    exact .inl (at_.trans (keeps.symm.trans hc))

/-- An attempt under way was so before the step, or the step claimed its job. -/
theorem StepCases.attempt_back {s t : LifecycleState} {a : Action} (h : StepCases s a t) {id : Uuid}
    {p : Nat} {c : RcaJobClaim} (hc : t.Attempt id p c) :
    s.Attempt id p c ∨ ∃ x v, a = .move p .claim ∧ s.calls p = some x ∧ x.message.workerJobId = id ∧
      Claims x s.now s.db v c t.db := by
  obtain ⟨y, hy, own, hphase⟩ := hc
  cases h with
  | deliver q hd m =>
    by_cases hp : p = q
    · subst hp
      rw [LifecycleState.setCall_self] at hy
      cases hy
      cases hphase
    · rw [LifecycleState.setCall_of_ne _ hp] at hy
      exact .inl ⟨y, hy, own, hphase⟩
  | tick => exact .inl ⟨y, hy, own, hphase⟩
  | crash q =>
    by_cases hp : p = q
    · subst hp
      rw [LifecycleState.setCall_self] at hy
      cases hy
    · rw [LifecycleState.setCall_of_ne _ hp] at hy
      exact .inl ⟨y, hy, own, hphase⟩
  | @move q mv x phase db' call move effect =>
    by_cases hp : p = q
    · subst hp
      rw [LifecycleState.setCall_self] at hy
      cases hy
      rcases effect.claim?_back hphase with before | ⟨rfl, v, claims⟩
      · exact .inl ⟨x, call, own, before⟩
      · exact .inr ⟨x, v, rfl, call, own, claims⟩
    · rw [LifecycleState.setCall_of_ne _ hp] at hy
      exact .inl ⟨y, hy, own, hphase⟩

/-- The attempts of a job that are under way are numbered apart, up to its count. -/
structure LifecycleState.Numbered (s : LifecycleState) (id : Uuid) (v : View) : Prop where
  le : ∀ p c, s.Attempt id p c → c.attemptNumber ≤ v.job.attemptCount
  apart : ∀ p q c d, s.Attempt id p c → s.Attempt id q d → c.attemptNumber = d.attemptNumber → p = q

section

variable {s t : LifecycleState} {a : Action} {id : Uuid} {v w : View}

/-- The count of a job never falls, and a claim raises it. -/
theorem attempts_le_of_step (sound : s.Sound) (hstep : lifecycle.step s a = some t)
    (hv : s.db.view id = some v) (hw : t.db.view id = some w) : v.job.attemptCount ≤ w.job.attemptCount := by
  obtain ⟨w', hw', same | step⟩ := lifecycle_view_step sound hstep hv
  · cases hw.symm.trans hw'
    rw [same]
  · cases hw.symm.trans hw'
    exact step.attempts_le

theorem numbered_step (sound : s.Sound) (hstep : lifecycle.step s a = some t) (hv : s.db.view id = some v)
    (hw : t.db.view id = some w) (h : s.Numbered id v) : t.Numbered id w := by
  have cases_ := step_cases sound hstep
  have grows := attempts_le_of_step sound hstep hv hw
  -- a number that was just taken is the new count, beyond all others
  have taken : ∀ x u c, x.message.workerJobId = id → Claims x s.now s.db u c t.db →
      c.attemptNumber = v.job.attemptCount + 1 ∧ w.job.attemptCount = v.job.attemptCount + 1 := by
    rintro x u c rfl claims
    cases hv.symm.trans claims.stored
    cases hw.symm.trans claims.written
    exact ⟨claims.number, rfl⟩
  constructor
  · intro p c hc
    rcases cases_.attempt_back hc with before | ⟨x, u, -, -, own, claims⟩
    · exact (h.le p c before).trans grows
    · obtain ⟨number, count⟩ := taken x u c own claims
      rw [number, count]
  · intro p q c d hc hd same
    rcases cases_.attempt_back hc with before | ⟨x, u, rfl, -, own, claims⟩
    · rcases cases_.attempt_back hd with before' | ⟨x', u', -, -, own', claims'⟩
      · exact h.apart p q c d before before' same
      · have := h.le p c before
        have := (taken x' u' d own' claims').1
        omega
    · rcases cases_.attempt_back hd with before' | ⟨x', u', moves, -, -, -⟩
      · have := h.le q d before'
        have := (taken x u c own claims).1
        omega
      · cases moves
        rfl

theorem numbered_init (init : lifecycle.init s) : s.Numbered id v where
  le p c := by
    rintro ⟨x, hx, -⟩
    rw [init.2 p] at hx
    cases hx
  apart p q c d := by
    rintro ⟨x, hx, -⟩
    rw [init.2 p] at hx
    cases hx

end

/-- In every reachable state the attempts of every job are numbered apart. -/
theorem reachable_numbered {s : LifecycleState} (reach : lifecycle.Reachable s) {id : Uuid} {v : View}
    (hv : s.db.view id = some v) :
    s.Numbered id v := by
  obtain ⟨s₀, init, run⟩ := reach
  induction run generalizing v with
  | refl => exact numbered_init init
  | tail run _ hstep ih =>
    have sound := sound_invariant ⟨s₀, init, run⟩
    obtain ⟨u, hu, -⟩ := (step_cases sound hstep).view_back hv
    exact numbered_step sound hstep hu hv (ih hu)

end SreAgent.Lifecycle
