import SreAgent.Outbox.Recovery

/-!
# Which recoveries are audited

Where the transaction of a call committed, its audit is stored or was tried and raised, unless the
caller was cancelled while it waited for the publisher: then the call raises the cancellation and
never reaches its audit (`recovery_audited_iff`).
-/

namespace SreAgent.Outbox
open Base Pubsub Operator

/-- The row tells the events and the counts of the results. -/
structure AuditEvent.Tells (row : AuditEvent) (results : List OutboxPublishResult) : Prop where
  eventIds : JsonObject.get? row.scope "eventIds" =
    some (.arr (results.map fun result => .str result.eventId.text))
  selected : JsonObject.get? row.scope "selected" = some (.int results.length)
  published : JsonObject.get? row.scope "published" = some (.int (countOf .PUBLISHED results))
  failed : JsonObject.get? row.scope "failed" = some (.int (countOf .FAILED results))
  noOp : JsonObject.get? row.scope "noOp" = some (.int (countOf .NO_OP results))

/-- The call has ended, and its transaction committed these results. -/
def RecoveryState.Settled (s : RecoveryState) (p : Nat) (c : Recovery)
    (results : List OutboxPublishResult) : Prop :=
  s.recoveries p = some c ∧ (∃ e, c.phase = .ended e) ∧ ∃ r selected,
    s.outbox.calls p = some ⟨r, .committed selected results⟩

/-- One row tells the results, or the insertion of the row raised and so did the call. -/
def RecoveryState.Audited (s : RecoveryState) (p : Nat) (c : Recovery)
    (results : List OutboxPublishResult) : Prop :=
  (∃ row, s.auditsOf p = [row] ∧ row.Tells results) ∨ s.auditsOf p = [] ∧ ∃ cancellation,
    c.phase = .ended (.auditRaised cancellation)

/-! ## Publishing transactions under a call -/

/-- A finished transaction. -/
def Phase.Finished : Phase → Prop
  | .committed _ _ | .aborted => True
  | _ => False

section Publishing

variable {svc : OutboxPublishService} {s t u : OutboxState} {a : Action} {p q : Nat} {r r' : Request}
  {phase old new : Phase}

/-- A move of an unfinished transaction keeps every request, and every finished transaction. -/
theorem moved_call (calls : u.calls = s.calls) (at_ : s.calls q = some ⟨r', old⟩)
    (unfinished : ¬ old.Finished) (call : s.calls p = some ⟨r, phase⟩) :
    ∃ phase', (u.setPhase q r' new).calls p = some ⟨r, phase'⟩ ∧ (phase.Finished → phase' = phase) := by
  rw [OutboxState.calls_setPhase, calls]
  split
  · next same =>
    subst same
    cases at_.symm.trans call
    exact ⟨new, rfl, fun finished => absurd finished unfinished⟩
  · exact ⟨phase, call, fun _ => rfl⟩

/-- A step keeps every request, and every finished transaction. -/
theorem step_call (h : (outbox svc).step s a = some t) (call : s.calls p = some ⟨r, phase⟩) :
    ∃ phase', t.calls p = some ⟨r, phase'⟩ ∧ (phase.Finished → phase' = phase) := by
  cases a with
  | insert e =>
    simp only [outbox, OutboxState.step] at h
    split at h
    · cases h
      exact ⟨phase, call, fun _ => rfl⟩
    · cases h
  | start q r' =>
    simp only [outbox, OutboxState.step] at h
    split at h
    · next guard =>
      cases h
      have other : p ≠ q := by
        rintro rfl
        rw [call] at guard
        exact absurd guard.1 (by simp)
      rw [OutboxState.calls_setPhase, if_neg other]
      exact ⟨phase, call, fun _ => rfl⟩
    · cases h
  | select q attemptedAt =>
    simp only [outbox, OutboxState.step] at h
    split at h
    · next at_ =>
      split at h
      · cases h
        exact moved_call rfl at_ id call
      · split at h
        · cases h
          exact moved_call rfl at_ id call
        · cases h
    · next at_ =>
      cases h
      exact moved_call rfl at_ id call
    · cases h
  | settleNext q accepted =>
    simp only [outbox, OutboxState.step] at h
    split at h
    · next at_ =>
      cases h
      exact moved_call rfl at_ id call
    · cases h
  | commit q =>
    simp only [outbox, OutboxState.step] at h
    split at h
    · next at_ =>
      cases h
      exact moved_call rfl at_ id call
    · cases h
  | abort q =>
    simp only [outbox, OutboxState.step] at h
    split at h
    · next at_ =>
      cases h
      exact moved_call rfl at_ id call
    · next at_ =>
      cases h
      exact moved_call rfl at_ id call
    · cases h

/-- A transaction that settles or settled one row. -/
def Phase.Single : Phase → Prop
  | .settling _ selected _ _ | .committed selected _ => ∃ row, selected = [row]
  | _ => True

/-- The transaction of an event settles one row. -/
def OutboxState.EventsSingle (s : OutboxState) : Prop := ∀ p id phase, s.calls p = some ⟨.event id, phase⟩ →
      phase.Single

theorem OutboxState.EventsSingle.move (single : s.EventsSingle) (calls : u.calls = s.calls)
    (keeps : ∀ id, r' = .event id → new.Single) : (u.setPhase q r' new).EventsSingle := by
  intro p id phase call
  rw [OutboxState.calls_setPhase, calls] at call
  split at call
  · cases call
    exact keeps id rfl
  · exact single p id phase call

theorem StepCases.eventsSingle (h : StepCases svc s a t) (single : s.EventsSingle) : t.EventsSingle := by
  cases h with
  | insert => exact single
  | start | notFound | abort => exact single.move rfl fun _ _ => trivial
  | selectEvent p attemptedAt id row call => exact single.move rfl fun _ _ => ⟨row, rfl⟩
  | selectBatch p attemptedAt status limit call => exact single.move rfl fun _ same => nomatch same
  | settleNext p accepted r attemptedAt selected row todo done call =>
    refine single.move rfl fun id same => ?_
    subst same
    exact (single p id _ call : ∃ row, selected = [row])
  | commit p r attemptedAt selected done call =>
    refine single.move rfl fun id same => ?_
    subst same
    exact (single p id _ call : ∃ row, selected = [row])

end Publishing

/-! ## The invariant -/

/-- How a call stands to its transaction and its audit rows. -/
inductive Consistent (c : Recovery) : Phase → List AuditEvent → RecoveryPhase → Prop where
  | publishing (o : Phase) : Consistent c o [] .publishing
  | recording {selected : List OutboxEvent} {results : List OutboxPublishResult}
      (quiet : c.cancellationRequested = false) :
      Consistent c (.committed selected results) [] (.recording (c.record results) (.returned results))
  | recorded {selected : List OutboxEvent} {results : List OutboxPublishResult} (occurredAt : Timestamp)
      (actorId : Option Uuid) (quiet : c.cancellationRequested = false) :
      Consistent c (.committed selected results) [(c.record results).row occurredAt actorId]
      (.recorded (.returned results))
  | interrupted {selected : List OutboxEvent} {results : List OutboxPublishResult}
      (requested : c.cancellationRequested = true) :
      Consistent c (.committed selected results) [] (.ended .cancelled)
  | audited {selected : List OutboxEvent} {results : List OutboxPublishResult} (occurredAt : Timestamp)
      (actorId : Option Uuid) (e : RecoveryEnd) (quiet : c.cancellationRequested = false) :
      Consistent c (.committed selected results) [(c.record results).row occurredAt actorId] (.ended e)
  | unaudited {selected : List OutboxEvent} {results : List OutboxPublishResult} (cancellation : Bool)
      (quiet : c.cancellationRequested = false) : Consistent c (.committed selected results) []
      (.ended (.auditRaised cancellation))
  | aborted (audits : List AuditEvent) (phase : RecoveryPhase) : Consistent c .aborted audits phase

section Consistent

variable {c : Recovery} {o o' : Phase} {audits : List AuditEvent} {phase : RecoveryPhase}

/-- A finished transaction stays, and nothing is said of an unfinished one. -/
theorem Consistent.mono (h : Consistent c o audits phase) (stays : o.Finished → o' = o) :
    Consistent c o' audits phase := by
  cases h with
  | publishing => exact .publishing o'
  | recording quiet =>
    rw [stays trivial]
    exact .recording quiet
  | recorded occurredAt actorId quiet =>
    rw [stays trivial]
    exact .recorded occurredAt actorId quiet
  | interrupted requested =>
    rw [stays trivial]
    exact .interrupted requested
  | audited occurredAt actorId e quiet =>
    rw [stays trivial]
    exact .audited occurredAt actorId e quiet
  | unaudited cancellation quiet =>
    rw [stays trivial]
    exact .unaudited cancellation quiet
  | aborted =>
    rw [stays trivial]
    exact .aborted audits phase

/-- A call that learns that its event does not exist. -/
theorem Consistent.miss (h : Consistent c o audits phase) :
    Consistent { c with eventNotFound := true } o audits phase := by
  cases h with
  | publishing => exact .publishing o
  | recording quiet => exact .recording quiet
  | recorded occurredAt actorId quiet => exact .recorded occurredAt actorId quiet
  | interrupted requested => exact .interrupted requested
  | audited occurredAt actorId e quiet => exact .audited occurredAt actorId e quiet
  | unaudited cancellation quiet => exact .unaudited cancellation quiet
  | aborted => exact .aborted audits phase

/-- A call that is cancelled while it waits. -/
theorem Consistent.request (h : Consistent c o audits .publishing) :
    Consistent { c with cancellationRequested := true } o audits .publishing := by
  cases h with
  | publishing => exact .publishing o
  | aborted => exact .aborted audits _

/-- A call whose transaction has finished. -/
theorem Consistent.resume (h : Consistent c o audits .publishing) (resumed : c.resumed o = some phase) :
    Consistent { c with phase := phase } o audits phase := by
  unfold Recovery.resumed at resumed
  split at resumed
  · next selected results =>
    cases h with
    | publishing =>
      rcases Bool.eq_false_or_eq_true c.cancellationRequested with requested | quiet
      · rw [requested] at resumed
        cases resumed
        exact .interrupted requested
      · rw [quiet] at resumed
        cases resumed
        exact .recording quiet
  · exact .aborted audits phase
  · cases resumed

/-- An audit that is inserted. -/
theorem Consistent.insert {record : AuditRecord} {next : RecoveryEnd}
    (h : Consistent c o audits (.recording record next)) (occurredAt : Timestamp) (actorId : Option Uuid) :
    Consistent { c with phase := .recorded next } o (audits ++ [record.row occurredAt actorId])
    (.recorded next) := by
  cases h with
  | recording quiet => exact .recorded occurredAt actorId quiet
  | aborted => exact .aborted _ _

/-- An insertion that raises. -/
theorem Consistent.raise {record : AuditRecord} {next : RecoveryEnd}
    (h : Consistent c o audits (.recording record next)) (cancellation : Bool) :
    Consistent { c with phase := .ended (.auditRaised cancellation) } o audits (.ended
      (.auditRaised cancellation)) := by
  cases h with
  | recording quiet => exact .unaudited cancellation quiet
  | aborted => exact .aborted _ _

/-- An end after the insertion. -/
theorem Consistent.leave {next : RecoveryEnd} (h : Consistent c o audits (.recorded next)) (e : RecoveryEnd) :
    Consistent { c with phase := .ended e } o audits (.ended e) := by
  cases h with
  | recorded occurredAt actorId quiet => exact .audited occurredAt actorId e quiet
  | aborted => exact .aborted _ _

end Consistent

/-- Every call is consistent, and no other call has audit rows. -/
structure Accounted (svc : OutboxPublishService) (s : RecoveryState) : Prop where
  calls : ∀ p c, s.recoveries p = some c →
    ∃ o, s.outbox.calls p = some ⟨c.request.publishing, o⟩ ∧ Consistent c o (s.auditsOf p) c.phase
  others : ∀ p, s.recoveries p = none → s.auditsOf p = []
  safe : Safe svc s.outbox
  single : s.outbox.EventsSingle

section Accounted

variable {svc : OutboxPublishService} {s t : RecoveryState} {p : Nat} {c c' : Recovery}

/-- One call moves, and with it the rows it inserted. -/
theorem Accounted.move (acc : Accounted svc s) (call : s.recoveries p = some c)
    (request : c'.request = c.request) (audits : List (Nat × AuditEvent))
    (own : ∀ entry ∈ audits, entry.1 = p)
    (consistent : ∀ o, s.outbox.calls p = some ⟨c.request.publishing, o⟩ →
      Consistent c o (s.auditsOf p) c.phase →
      Consistent c' o (s.auditsOf p ++ audits.map Prod.snd) c'.phase) :
    Accounted svc ({ s with audits := s.audits ++ audits }.setRecovery p c') := by
  have rows : ∀ q, ({ s with audits := s.audits ++ audits }.setRecovery p c').auditsOf q =
      s.auditsOf q ++ if q = p then audits.map Prod.snd else [] := by
    intro q
    rw [RecoveryState.auditsOf, RecoveryState.setRecovery, List.filter_append, List.map_append]
    congr 1
    split
    · next same =>
      subst same
      rw [List.filter_eq_self.2 fun entry hentry => decide_eq_true (own entry hentry)]
    · next other =>
      rw [List.filter_eq_nil_iff.2 fun entry hentry => ?_]
      · rfl
      · rw [decide_eq_true_eq, own entry hentry]
        exact fun same => other same.symm
  refine ⟨fun q d hq => ?_, fun q hq => ?_, acc.safe, acc.single⟩
  · rw [rows q]
    rw [RecoveryState.recoveries_setRecovery] at hq
    split at hq
    · next same =>
      subst same
      cases hq
      obtain ⟨o, ho, before⟩ := acc.calls q c call
      rw [if_pos rfl, request]
      exact ⟨o, ho, consistent o ho before⟩
    · next other =>
      rw [if_neg other, List.append_nil]
      exact acc.calls q d hq
  · rw [rows q]
    rw [RecoveryState.recoveries_setRecovery] at hq
    split at hq
    · cases hq
    · next other =>
      rw [if_neg other, List.append_nil]
      exact acc.others q hq

/-- One call moves without inserting a row. -/
theorem Accounted.still (acc : Accounted svc s) (call : s.recoveries p = some c)
    (request : c'.request = c.request)
    (consistent : ∀ o, s.outbox.calls p = some ⟨c.request.publishing, o⟩ →
      Consistent c o (s.auditsOf p) c.phase →
      Consistent c' o (s.auditsOf p) c'.phase) : Accounted svc (s.setRecovery p c') := by
  have moved : Accounted svc ({ s with audits := s.audits ++ [] }.setRecovery p c') := by
    refine acc.move call request [] (fun _ h => nomatch h) fun o ho h => ?_
    rw [List.map_nil, List.append_nil]
    exact consistent o ho h
  rw [List.append_nil] at moved
  exact moved

theorem accounted_step {a : RecoveryAction} (acc : Accounted svc s) (h : (recovery svc).step s a = some t) :
    Accounted svc t := by
  cases recovery_cases h with
  | publish a o moved =>
    have settles := step_cases moved
    refine ⟨fun p c hp => ?_, fun p hp => ?_, settles.safe acc.safe, settles.eventsSingle acc.single⟩
    · obtain ⟨old, hold, rfl⟩ := Option.map_eq_some_iff.1 (show s.noteMiss a p = some c from hp)
      obtain ⟨phase, call, before⟩ := acc.calls p old hold
      obtain ⟨phase', call', stays⟩ := step_call moved call
      split
      · exact ⟨phase', call', (before.mono stays).miss⟩
      · exact ⟨phase', call', before.mono stays⟩
    · exact acc.others p (Option.map_eq_none_iff.1 (show s.noteMiss a p = none from hp))
  | call p request identity correlationId o free started =>
    have settles := step_cases started
    refine ⟨fun q c hq => ?_, fun q hq => ?_, settles.safe acc.safe, settles.eventsSingle acc.single⟩
    · rw [RecoveryState.recoveries_setRecovery] at hq
      split at hq
      · next same =>
        subst same
        cases hq
        cases settles with
        | start _ _ unused valid =>
          refine ⟨.selecting, ?_, ?_⟩
          · exact (OutboxState.calls_setPhase _ _ _ _ _).trans (if_pos rfl)
          · change Consistent _ _ (s.auditsOf q) _
            rw [acc.others q free]
            exact .publishing .selecting
      · obtain ⟨phase, call, before⟩ := acc.calls q c hq
        obtain ⟨phase', call', stays⟩ := step_call started call
        exact ⟨phase', call', before.mono stays⟩
    · rw [RecoveryState.recoveries_setRecovery] at hq
      split at hq
      · cases hq
      · exact acc.others q hq
  | putOff p c call waiting =>
    refine acc.still call rfl fun o _ before => ?_
    rw [waiting] at before
    simpa only [waiting] using before.request
  | cancelInsert p c record next call recording =>
    refine acc.still call rfl fun o _ before => ?_
    rw [recording] at before
    exact before.raise true
  | cancelRecorded p c next call recorded =>
    refine acc.still call rfl fun o _ before => ?_
    rw [recorded] at before
    exact before.leave _
  | resume p c r settled phase call transaction waiting resumed =>
    refine acc.still call rfl fun o ho before => ?_
    cases transaction.symm.trans ho
    rw [waiting] at before
    exact before.resume resumed
  | insertAudit p occurredAt actorId c record next call recording =>
    have request : ({ c with phase := .recorded next } : Recovery).request = c.request := rfl
    refine acc.move call request [(p, record.row occurredAt actorId)] (fun entry hentry => ?_) fun o _
      before => ?_
    · rw [List.mem_singleton.1 hentry]
    · rw [recording] at before
      exact before.insert occurredAt actorId
  | failAudit p c record next call recording =>
    refine acc.still call rfl fun o _ before => ?_
    rw [recording] at before
    exact before.raise false
  | finish p c next call recorded =>
    refine acc.still call rfl fun o _ before => ?_
    rw [recorded] at before
    exact before.leave _

theorem accounted_invariant (reach : (recovery svc).Reachable s) : Accounted svc s := by
  refine reach.invariant ?_ fun _ _ _ acc hstep => accounted_step acc hstep
  rintro s ⟨outboxInit, noCalls, noAudits⟩
  have rows (p : Nat) : s.auditsOf p = [] := by
    rw [RecoveryState.auditsOf, noAudits]
    rfl
  constructor
  · intro p c call
    rw [noCalls p] at call
    cases call
  · exact fun p _ => rows p
  · exact safe_invariant (.init outboxInit)
  · intro p id phase call
    rw [outboxInit.2.2.2.1 p] at call
    cases call

end Accounted

/-! ## What an audit tells -/

/-- A transaction of an event that committed has one result, for that event. -/
theorem Accounted.single_result {svc : OutboxPublishService} {s : RecoveryState} (acc : Accounted svc s)
    {p : Nat} {id : Uuid} {selected : List OutboxEvent} {results : List OutboxPublishResult}
    (call : s.outbox.calls p = some ⟨.event id, .committed selected results⟩) :
    ∃ result, results = [result] ∧ result.eventId = id := by
  obtain ⟨row, hrow⟩ : ∃ row, selected = [row] := acc.single p id _ call
  have answers := acc.safe.answers p _ _ _ call
  rw [hrow] at answers
  have selection : Selection (.event id) selected := acc.safe.selection p _ _ call
  have same : row.id = id := selection.event id rfl row (hrow ▸ List.mem_singleton_self row)
  cases answers with
  | cons answer rest =>
    cases rest
    exact ⟨_, rfl, answer.eventId.trans same⟩

/-- The record of a call names the events of its results. -/
theorem Accounted.record_eventIds {svc : OutboxPublishService} {s : RecoveryState} (acc : Accounted svc s)
    {p : Nat} {c : Recovery} {selected : List OutboxEvent} {results : List OutboxPublishResult}
    (call : s.outbox.calls p = some ⟨c.request.publishing, .committed selected results⟩) :
    (c.record results).eventIds = results.map OutboxPublishResult.eventId := by
  unfold Recovery.record
  dsimp only
  split
  · next id request =>
    rw [request] at call
    obtain ⟨result, rfl, same⟩ := acc.single_result call
    rw [List.map_singleton, same]
  · rfl

theorem AuditRecord.row_tells {record : AuditRecord} {results : List OutboxPublishResult}
    (eventIds : record.eventIds = results.map OutboxPublishResult.eventId)
    (counts : record.counts = summary results) (occurredAt : Timestamp) (actorId : Option Uuid) :
    (record.row occurredAt actorId).Tells results := by
  constructor
  · refine Eq.trans (show _ = some (.arr (record.eventIds.map fun eventId => .str eventId.text)) from rfl) ?_
    rw [eventIds, List.map_map]
    rfl
  · exact (show _ = some (Json.int record.counts.selected) from rfl).trans (by rw [counts]; rfl)
  · exact (show _ = some (Json.int record.counts.published) from rfl).trans (by rw [counts]; rfl)
  · exact (show _ = some (Json.int record.counts.failed) from rfl).trans (by rw [counts]; rfl)
  · exact (show _ = some (Json.int record.counts.noOp) from rfl).trans (by rw [counts]; rfl)

/-- A call that has ended after the commit of its transaction is audited unless it put off a cancellation. -/
theorem Accounted.audited_iff {svc : OutboxPublishService} {s : RecoveryState} (acc : Accounted svc s)
    {p : Nat} {c : Recovery} {results : List OutboxPublishResult} (settled : s.Settled p c results) :
    s.Audited p c results ↔ c.cancellationRequested = false := by
  obtain ⟨call, ⟨e, ended⟩, r, selected, committed⟩ := settled
  obtain ⟨phase, transaction, consistent⟩ := acc.calls p c call
  cases committed.symm.trans transaction
  rw [ended] at consistent
  generalize rows : s.auditsOf p = audits at consistent
  cases consistent with
  | interrupted requested =>
    refine iff_of_false ?_ (by rw [requested]; exact Bool.noConfusion)
    rintro (⟨row, same, -⟩ | ⟨-, cancellation, same⟩)
    · rw [rows] at same
      cases same
    · rw [ended] at same
      cases same
  | audited occurredAt actorId _ quiet =>
    exact iff_of_true
      (.inl ⟨_, rows, AuditRecord.row_tells (acc.record_eventIds transaction) rfl occurredAt actorId⟩) quiet
  | unaudited cancellation quiet => exact iff_of_true (.inr ⟨rows, cancellation, ended⟩) quiet

/-! ## Cancellations while the publisher works -/

/-- The call waits for its publishing transaction. -/
def RecoveryState.Waiting (s : RecoveryState) (p : Nat) : Prop :=
  ∃ c, s.recoveries p = some c ∧ c.phase = .publishing

/-- Somewhere in the run of these labels the call is cancelled while it waits for its publishing
transaction. -/
def CancelledWaiting (svc : OutboxPublishService) (p : Nat) : RecoveryState → List RecoveryAction → Prop
  | _, [] => False
  | s, a :: as =>
    a = .cancel p ∧ s.Waiting p ∨ ∃ t, (recovery svc).step s a = some t ∧ CancelledWaiting svc p t as

/-- The call has put off a cancellation. -/
def RecoveryState.PutOff (s : RecoveryState) (p : Nat) : Prop :=
  ∃ c, s.recoveries p = some c ∧ c.cancellationRequested = true

section PutOff

variable {svc : OutboxPublishService} {s t : RecoveryState} {a : RecoveryAction} {p q : Nat} {c : Recovery}

theorem RecoveryState.putOff_iff (h : s.recoveries p = some c) : s.PutOff p ↔
      c.cancellationRequested = true := by
  constructor
  · rintro ⟨d, hd, requested⟩
    cases h.symm.trans hd
    exact requested
  · exact fun requested => ⟨c, h, requested⟩

/-- A call that changes its phase keeps what it has put off. -/
theorem RecoveryState.putOff_setPhase {u : RecoveryState} (same : u.recoveries = s.recoveries)
    (h : s.recoveries q = some c) (phase : RecoveryPhase) : (u.setPhase q c phase).PutOff p ↔ s.PutOff p := by
  have calls : (u.setPhase q c phase).recoveries p = if p = q then some { c with phase := phase }
      else u.recoveries p :=
    RecoveryState.recoveries_setRecovery u q p { c with phase := phase }
  by_cases hq : p = q
  · subst hq
    rw [if_pos rfl] at calls
    have moved := RecoveryState.putOff_iff calls
    exact moved.trans (RecoveryState.putOff_iff h).symm
  · rw [if_neg hq, same] at calls
    unfold RecoveryState.PutOff
    rw [calls]

/-- A step puts off a cancellation exactly if it cancels a waiting call. -/
theorem putOff_step (h : (recovery svc).step s a = some t) : t.PutOff p ↔
      s.PutOff p ∨ a = .cancel p ∧ s.Waiting p := by
  have keeps (keep : t.PutOff p ↔ s.PutOff p) (not_ : ¬ (a = .cancel p ∧ s.Waiting p)) :
      t.PutOff p ↔ s.PutOff p ∨ a = .cancel p ∧ s.Waiting p := by
    rw [keep, or_iff_left not_]
  cases recovery_cases h with
  | publish a o moved =>
    refine keeps ?_ (fun cancelled => nomatch cancelled.1)
    constructor
    · rintro ⟨c, hc, requested⟩
      obtain ⟨old, hold, rfl⟩ := Option.map_eq_some_iff.1 (show s.noteMiss a p = some c from hc)
      refine ⟨old, hold, ?_⟩
      split at requested
      · exact requested
      · exact requested
    · rintro ⟨c, hc, requested⟩
      refine ⟨_, Option.map_eq_some_iff.2 ⟨c, hc, rfl⟩, ?_⟩
      split
      · exact requested
      · exact requested
  | call q request identity correlationId o free started =>
    refine keeps ?_ (fun cancelled => nomatch cancelled.1)
    unfold RecoveryState.PutOff
    rw [RecoveryState.recoveries_setRecovery]
    split
    · next same =>
      subst same
      rw [free]
      refine iff_of_false ?_ (fun ⟨_, absent, _⟩ => nomatch absent)
      rintro ⟨c, hc, requested⟩
      cases hc
      cases requested
    · exact Iff.rfl
  | putOff q c call waiting =>
    have calls := RecoveryState.recoveries_setRecovery s q p { c with cancellationRequested := true }
    by_cases same : p = q
    · subst same
      rw [if_pos rfl] at calls
      exact iff_of_true ⟨_, calls, rfl⟩ (.inr ⟨rfl, c, call, waiting⟩)
    · rw [if_neg same] at calls
      refine keeps ?_ fun cancelled => same (RecoveryAction.cancel.inj cancelled.1).symm
      unfold RecoveryState.PutOff
      rw [calls]
  | cancelInsert q c record next call recording =>
    refine keeps (RecoveryState.putOff_setPhase rfl call _) ?_
    rintro ⟨same, d, hd, waiting⟩
    cases same
    cases call.symm.trans hd
    cases recording.symm.trans waiting
  | cancelRecorded q c next call recorded =>
    refine keeps (RecoveryState.putOff_setPhase rfl call _) ?_
    rintro ⟨same, d, hd, waiting⟩
    cases same
    cases call.symm.trans hd
    cases recorded.symm.trans waiting
  | resume q c r settled phase call =>
    exact keeps (RecoveryState.putOff_setPhase rfl call phase) (fun cancelled => nomatch cancelled.1)
  | insertAudit q occurredAt actorId c record next call =>
    exact keeps (RecoveryState.putOff_setPhase rfl call _) (fun cancelled => nomatch cancelled.1)
  | failAudit q c record next call =>
    exact keeps (RecoveryState.putOff_setPhase rfl call _) (fun cancelled => nomatch cancelled.1)
  | finish q c next call =>
    exact keeps (RecoveryState.putOff_setPhase rfl call _) (fun cancelled => nomatch cancelled.1)

/-- A run puts off a cancellation exactly if it cancels the call while it waits. -/
theorem putOff_run {labels : List RecoveryAction} (h : (recovery svc).exec s labels = some t) :
    t.PutOff p ↔ s.PutOff p ∨ CancelledWaiting svc p s labels := by
  induction labels generalizing s with
  | nil =>
    cases h
    exact ⟨.inl, fun h => h.resolve_right id⟩
  | cons a as ih =>
    rw [System.exec, System.execIn, if_pos trivial] at h
    obtain ⟨u, step, rest⟩ := Option.bind_eq_some_iff.1 h
    rw [ih rest, putOff_step step, or_assoc, CancelledWaiting]
    refine or_congr_right (or_congr_right ⟨fun later => ⟨u, step, later⟩, ?_⟩)
    rintro ⟨v, hv, later⟩
    cases step.symm.trans hv
    exact later

end PutOff

/-! ## The audit of every run -/

/-- In every run, a call that has ended after its publishing transaction committed is audited, or its
audit raised, exactly if its caller was not cancelled while it waited for the transaction. -/
theorem recovery_audited_iff (svc : OutboxPublishService) {s₀ s : RecoveryState}
    (init : (recovery svc).init s₀) {labels : List RecoveryAction}
    (run : (recovery svc).exec s₀ labels = some s) {p : Nat} {c : Recovery}
    {results : List OutboxPublishResult} (settled : s.Settled p c results) :
    s.Audited p c results ↔ ¬ CancelledWaiting svc p s₀ labels := by
  have acc : Accounted svc s := accounted_invariant ⟨s₀, init, System.run_of_exec run⟩
  have fresh : ¬ s₀.PutOff p := by
    rintro ⟨d, hd, -⟩
    rw [init.2.1 p] at hd
    cases hd
  rw [acc.audited_iff settled, ← Bool.not_eq_true, ← RecoveryState.putOff_iff settled.1, putOff_run run,
    or_iff_right fresh]

/-! ## A call that is cancelled -/

/-- A run that never cancels the call. -/
theorem not_cancelledWaiting {svc : OutboxPublishService} {p : Nat} {labels : List RecoveryAction}
    (never : .cancel p ∉ labels) (s : RecoveryState) : ¬ CancelledWaiting svc p s labels := by
  induction labels generalizing s with
  | nil => exact id
  | cons a as ih =>
    rintro (⟨rfl, -⟩ | ⟨t, -, later⟩)
    · exact never List.mem_cons_self
    · exact ih (fun h => never (List.mem_cons_of_mem a h)) t later

def jobsTopic : OutboxPublishService := ⟨"rca-jobs", 30000000, by decide⟩

/-- One pending event that no message can be made of. -/
def oneEvent : RecoveryState where
  outbox :=
    ⟨[⟨7, 8, "RCA_RUN_REQUESTED", .null, "k", .PENDING, 0, none, 0⟩], fun _ => none, fun _ => none, []⟩
  recoveries _ := none
  audits := []

theorem oneEvent_init : (recovery jobsTopic).init oneEvent := by
  refine ⟨⟨?_, ?_, fun _ => rfl, fun _ => rfl, rfl⟩, fun _ => rfl, rfl⟩
  · exact List.nodup_singleton _
  · intro e he
    rw [List.mem_singleton.1 he]
    exact iff_of_false nofun fun date => date rfl

/-- A retry of the pending events, up to the selection. -/
def retried : List RecoveryAction :=
  [.call 0 (.retryPending 10) ⟨"operator", true⟩ "c-1", .publish (.select 0 100)]

/-- The publishing transaction settles its row and commits, and the call goes on. -/
def completed : List RecoveryAction := [.publish (.settleNext 0 true), .publish (.commit 0), .resume 0]

/-- How a call ended, the results its transaction committed, and the number of its audit rows. -/
def recovered (s : RecoveryState) (p : Nat) : Option (RecoveryEnd × List OutboxPublishResult × Nat) :=
  match s.recoveries p, s.outbox.calls p with
  | some ⟨_, _, _, _, _, .ended e⟩, some ⟨_, .committed _ results⟩ => some (e, results, (s.auditsOf p).length)
  | _, _ => none

theorem settled_of_recovered {s : RecoveryState} {p n : Nat} {e : RecoveryEnd}
    {results : List OutboxPublishResult} (h : recovered s p = some (e, results, n)) :
    ∃ c, s.Settled p c results ∧ c.phase = .ended e ∧ (s.auditsOf p).length = n := by
  unfold recovered at h
  split at h
  · next request identity correlationId requested missed e' r selected results' call transaction =>
    cases h
    exact ⟨_, ⟨call, ⟨e, rfl⟩, r, selected, transaction⟩, rfl, rfl⟩
  · cases h

/-- The caller is cancelled before the commit: the row is settled, and no audit is written. -/
theorem cancelled_recovery_not_audited : ∃ s c results,
    (recovery jobsTopic).exec oneEvent (retried ++ .cancel 0 :: completed) = some s ∧ s.Settled 0 c results ∧
    results.map OutboxPublishResult.result = [.FAILED] ∧ ¬ s.Audited 0 c results := by
  have ended : ((recovery jobsTopic).exec oneEvent (retried ++ .cancel 0 :: completed)).map (recovered · 0) =
      some (some (.cancelled, [⟨7, .PENDING, .FAILED, some "INVALID_EVENT"⟩], 0)) := by decide
  obtain ⟨s, run, outcome⟩ := Option.map_eq_some_iff.1 ended
  obtain ⟨c, settled, phase, none_⟩ := settled_of_recovered outcome
  refine ⟨s, c, _, run, settled, rfl, ?_⟩
  rintro (⟨row, rows, -⟩ | ⟨-, cancellation, raised⟩)
  · rw [rows] at none_
    cases none_
  · rw [phase] at raised
    cases raised

/-- Without the cancellation the same call is audited. -/
theorem completed_recovery_audited : ∃ s c results,
    (recovery jobsTopic).exec oneEvent (retried ++ completed ++ [.insertAudit 0 200 none, .finish 0]) =
      some s ∧
    s.Settled 0 c results ∧ s.Audited 0 c results := by
  have ended :
    ((recovery jobsTopic).exec oneEvent (retried ++ completed ++ [.insertAudit 0 200 none, .finish 0])).map
    (recovered · 0) =
      some (some (.returned [⟨7, .PENDING, .FAILED, some "INVALID_EVENT"⟩],
        [⟨7, .PENDING, .FAILED, some "INVALID_EVENT"⟩], 1)) := by
    decide
  obtain ⟨s, run, outcome⟩ := Option.map_eq_some_iff.1 ended
  obtain ⟨c, settled, -, -⟩ := settled_of_recovered outcome
  refine ⟨s, c, _, run, settled, (recovery_audited_iff jobsTopic oneEvent_init run settled).2 ?_⟩
  exact not_cancelledWaiting (by simp [retried, completed]) oneEvent

end SreAgent.Outbox
