import SreAgent.Operator.Identity
import SreAgent.Outbox.Safety

/-!
# Recovery calls and their audit

A recovery call waits for a publishing transaction that runs in a task of its own, which a
cancellation of the caller does not reach: the caller notes the cancellation, goes on waiting, and
raises it once the task is done. Only a call that is not cancelled goes on to its audit, a second
transaction, in which a cancellation is raised at once. `recovery` interleaves any number of such
calls with the publishing transactions of `outbox`.
-/

namespace SreAgent.Outbox
open Base Pubsub Operator

/-- `retry_event`, `retry_pending` and `retry_failed`. -/
inductive RecoveryRequest where
  | retryEvent (eventId : Uuid)
  | retryPending (limit : Nat)
  | retryFailed (limit : Nat)
  deriving DecidableEq

namespace RecoveryRequest

/-- The publisher's method. -/
def publishing : RecoveryRequest → Request
  | .retryEvent eventId => .event eventId
  | .retryPending limit => .batch .PENDING limit
  | .retryFailed limit => .batch .FAILED limit

/-- The audited action. -/
def action : RecoveryRequest → String
  | .retryEvent _ => "outbox.retry_event"
  | .retryPending _ => "outbox.retry_pending"
  | .retryFailed _ => "outbox.retry_failed"

end RecoveryRequest

structure OutboxRecoveryBatchResult where
  selected : Nat
  published : Nat
  failed : Nat
  noOp : Nat
  failureCategories : List String
  deriving DecidableEq

/-- How many results have a code. -/
def countOf (code : PublishResultCode) (results : List OutboxPublishResult) : Nat :=
  results.countP fun result => result.result = code

/-- `_summary`. -/
def summary (results : List OutboxPublishResult) : OutboxRecoveryBatchResult where
  selected := results.length
  published := countOf .PUBLISHED results
  failed := countOf .FAILED results
  noOp := countOf .NO_OP results
  failureCategories := (results.filterMap OutboxPublishResult.failureCategory).dedup.insertionSort (· ≤ ·)

/-- The value of a code. -/
def PublishResultCode.text : PublishResultCode → String
  | .PUBLISHED => "PUBLISHED"
  | .FAILED => "FAILED"
  | .NO_OP => "NO_OP"

/-! ## Audit records -/

/-- What `record` is given. -/
structure AuditRecord where
  action : String
  identity : OperatorIdentity
  correlationId : String
  eventIds : List Uuid
  counts : OutboxRecoveryBatchResult
  outcome : String
  deriving DecidableEq

/-- A row of `audit_events`. -/
structure AuditEvent where
  occurredAt : Timestamp
  actorId : Option Uuid
  action : String
  resourceType : String
  resourceId : Option Uuid
  scope : JsonObject

/-- The row `record` inserts; `actorId` is the subject of the operator, if there is one. -/
def AuditRecord.row (record : AuditRecord) (occurredAt : Timestamp) (actorId : Option Uuid) : AuditEvent where
  occurredAt := occurredAt
  actorId := actorId
  action := record.action
  resourceType := "OUTBOX_EVENT"
  resourceId := match record.eventIds with
    | [eventId] => some eventId
    | _ => none
  scope :=
    [("correlationId", .str record.correlationId),
      ("eventIds", .arr (record.eventIds.map fun eventId => .str eventId.text)),
      ("selected", .int record.counts.selected), ("published", .int record.counts.published),
      ("failed", .int record.counts.failed),
      ("noOp", .int record.counts.noOp),
      ("failureCategories", .arr (record.counts.failureCategories.map .str)),
      ("outcome", .str record.outcome)] ++
    if actorId.isNone then [("actorExternalId", .str record.identity.externalId)] else []

/-! ## Calls -/

/-- How a call ends: it returns, or raises `OutboxEventNotFound`, an exception of the publishing
transaction, the cancellation it put off, or what the audit raised. -/
inductive RecoveryEnd where
  | returned (results : List OutboxPublishResult)
  | notFound
  | publishRaised
  | cancelled
  | auditRaised (cancellation : Bool)
  deriving DecidableEq

/-- Where a call stands: waiting for the publisher, in the audit's transaction, after its commit, or
at its end. -/
inductive RecoveryPhase where
  | publishing
  | recording (record : AuditRecord) (next : RecoveryEnd)
  | recorded (next : RecoveryEnd)
  | ended (e : RecoveryEnd)

/-- A call, with the `cancellation_requested` of its settlement and whether its event was not found. -/
structure Recovery where
  request : RecoveryRequest
  identity : OperatorIdentity
  correlationId : String
  cancellationRequested : Bool
  eventNotFound : Bool
  phase : RecoveryPhase

/-- The record of the results of a call. -/
def Recovery.record (c : Recovery) (results : List OutboxPublishResult) : AuditRecord where
  action := c.request.action
  identity := c.identity
  correlationId := c.correlationId
  eventIds := match c.request with
    | .retryEvent eventId => [eventId]
    | _ => results.map OutboxPublishResult.eventId
  counts := summary results
  outcome := match c.request with
    | .retryEvent _ => ((results.head?.map OutboxPublishResult.result).map PublishResultCode.text).getD ""
    | _ => "COMPLETED"

/-- The record of a call whose event does not exist. -/
def Recovery.notFoundRecord (c : Recovery) (eventId : Uuid) : AuditRecord :=
  ⟨"outbox.retry_event", c.identity, c.correlationId, [eventId], ⟨1, 0, 0, 0, []⟩, "NOT_FOUND"⟩

/-- What `_complete_durable_settlement` and the entry point make of a finished transaction. -/
def Recovery.resumed (c : Recovery) : Phase → Option RecoveryPhase
  | .committed _ results =>
    some (if c.cancellationRequested then .ended .cancelled
      else .recording (c.record results) (.returned results))
  | .aborted =>
    match c.request, c.eventNotFound with
    | .retryEvent eventId, true => some (.recording (c.notFoundRecord eventId) .notFound)
    | _, _ => some (.ended .publishRaised)
  | _ => none

/-- The outbox, the recovery calls, and the audit rows with the call that inserted them. -/
structure RecoveryState where
  outbox : OutboxState
  recoveries : Nat → Option Recovery
  audits : List (Nat × AuditEvent)

inductive RecoveryAction where
  | publish (a : Action)
  | call (p : Nat) (request : RecoveryRequest) (identity : OperatorIdentity) (correlationId : String)
  | cancel (p : Nat)
  | resume (p : Nat)
  | insertAudit (p : Nat) (occurredAt : Timestamp) (actorId : Option Uuid)
  | failAudit (p : Nat)
  | finish (p : Nat)

namespace RecoveryState

def setRecovery (s : RecoveryState) (p : Nat) (c : Recovery) : RecoveryState :=
  { s with recoveries := Function.update s.recoveries p (some c) }

def setPhase (s : RecoveryState) (p : Nat) (c : Recovery) (phase : RecoveryPhase) : RecoveryState :=
  s.setRecovery p { c with phase := phase }

@[simp] theorem recoveries_setRecovery (s : RecoveryState) (p q : Nat) (c : Recovery) :
    (s.setRecovery p c).recoveries q = if q = p then some c else s.recoveries q := by
  simp [setRecovery, Function.update_apply]

/-- The selecting statement of a publishing transaction finds no row for its event. -/
def misses (o : OutboxState) : Action → Option Nat
  | .select p _ =>
    match o.calls p with
    | some ⟨.event id, .selecting⟩ => if (o.event id).isNone then some p else none
    | _ => none
  | _ => none

/-- A call whose event is missed is told so. -/
def noteMiss (s : RecoveryState) (a : Action) : Nat → Option Recovery := fun p =>
  (s.recoveries p).map fun c => if misses s.outbox a = some p then { c with eventNotFound := true } else c

/-- One step. -/
def step (svc : OutboxPublishService) (s : RecoveryState) : RecoveryAction → Option RecoveryState
  | .publish a => (s.outbox.step svc a).map fun o => { s with outbox := o, recoveries := s.noteMiss a }
  | .call p request identity correlationId =>
    if (s.recoveries p).isNone then
      (s.outbox.step svc (.start p request.publishing)).map fun o =>
        { s with outbox := o }.setRecovery p ⟨request, identity, correlationId, false, false, .publishing⟩
    else none
  | .cancel p =>
    match s.recoveries p with
    | none => none
    | some c =>
      match c.phase with
      | .publishing => some (s.setRecovery p { c with cancellationRequested := true })
      | .recording _ _ | .recorded _ => some (s.setPhase p c (.ended (.auditRaised true)))
      | .ended _ => none
  | .resume p =>
    match s.recoveries p, s.outbox.calls p with
    | some c, some ⟨_, settled⟩ =>
      match c.phase with
      | .publishing => (c.resumed settled).map fun phase => s.setPhase p c phase
      | _ => none
    | _, _ => none
  | .insertAudit p occurredAt actorId =>
    match s.recoveries p with
    | none => none
    | some c =>
      match c.phase with
      | .recording record next =>
        some ({ s with audits := s.audits ++ [(p, record.row occurredAt actorId)] }.setPhase p c
          (.recorded next))
      | _ => none
  | .failAudit p =>
    match s.recoveries p with
    | none => none
    | some c =>
      match c.phase with
      | .recording _ _ => some (s.setPhase p c (.ended (.auditRaised false)))
      | _ => none
  | .finish p =>
    match s.recoveries p with
    | none => none
    | some c =>
      match c.phase with
      | .recorded next => some (s.setPhase p c (.ended next))
      | _ => none

/-- The audit rows of a call. -/
def auditsOf (s : RecoveryState) (p : Nat) : List AuditEvent :=
  (s.audits.filter fun entry => entry.1 = p).map Prod.snd

end RecoveryState

/-- Recovery calls and publishing transactions, from a state with no call under way and no audit. -/
def recovery (svc : OutboxPublishService) : System RecoveryState RecoveryAction where
  init s := (outbox svc).init s.outbox ∧ (∀ p, s.recoveries p = none) ∧ s.audits = []
  step := RecoveryState.step svc

/-! ## What a step does -/

/-- A step of the system. -/
inductive RecoveryCases (svc : OutboxPublishService) (s : RecoveryState) : RecoveryAction → RecoveryState →
      Prop where
  | publish (a : Action) (o : OutboxState) (moved : (outbox svc).step s.outbox a = some o) :
      RecoveryCases svc s (.publish a) { s with outbox := o, recoveries := s.noteMiss a }
  | call (p : Nat) (request : RecoveryRequest) (identity : OperatorIdentity) (correlationId : String)
      (o : OutboxState) (free : s.recoveries p = none)
      (started : (outbox svc).step s.outbox (.start p request.publishing) = some o) :
      RecoveryCases svc s (.call p request identity correlationId)
        ({ s with outbox := o }.setRecovery p ⟨request, identity, correlationId, false, false, .publishing⟩)
  | putOff (p : Nat) (c : Recovery) (call : s.recoveries p = some c) (waiting : c.phase = .publishing) :
      RecoveryCases svc s (.cancel p) (s.setRecovery p { c with cancellationRequested := true })
  | cancelInsert (p : Nat) (c : Recovery) (record : AuditRecord) (next : RecoveryEnd)
      (call : s.recoveries p = some c) (recording : c.phase = .recording record next) :
      RecoveryCases svc s (.cancel p) (s.setPhase p c (.ended (.auditRaised true)))
  | cancelRecorded (p : Nat) (c : Recovery) (next : RecoveryEnd) (call : s.recoveries p = some c)
      (recorded : c.phase = .recorded next) :
      RecoveryCases svc s (.cancel p) (s.setPhase p c (.ended (.auditRaised true)))
  | resume (p : Nat) (c : Recovery) (r : Request) (settled : Phase) (phase : RecoveryPhase)
      (call : s.recoveries p = some c) (transaction : s.outbox.calls p = some ⟨r, settled⟩)
      (waiting : c.phase = .publishing) (resumed : c.resumed settled = some phase) :
      RecoveryCases svc s (.resume p) (s.setPhase p c phase)
  | insertAudit (p : Nat) (occurredAt : Timestamp) (actorId : Option Uuid) (c : Recovery)
      (record : AuditRecord) (next : RecoveryEnd) (call : s.recoveries p = some c)
      (recording : c.phase = .recording record next) :
      RecoveryCases svc s (.insertAudit p occurredAt actorId)
        ({ s with audits := s.audits ++ [(p, record.row occurredAt actorId)] }.setPhase p c (.recorded next))
  | failAudit (p : Nat) (c : Recovery) (record : AuditRecord) (next : RecoveryEnd)
      (call : s.recoveries p = some c) (recording : c.phase = .recording record next) :
      RecoveryCases svc s (.failAudit p) (s.setPhase p c (.ended (.auditRaised false)))
  | finish (p : Nat) (c : Recovery) (next : RecoveryEnd) (call : s.recoveries p = some c)
      (recorded : c.phase = .recorded next) :
      RecoveryCases svc s (.finish p) (s.setPhase p c (.ended next))

theorem recovery_cases {svc : OutboxPublishService} {s t : RecoveryState} {a : RecoveryAction}
    (h : (recovery svc).step s a = some t) :
    RecoveryCases svc s a t := by
  cases a with
  | publish a =>
    obtain ⟨o, moved, rfl⟩ := Option.map_eq_some_iff.1 h
    exact .publish a o moved
  | call p request identity correlationId =>
    simp only [recovery, RecoveryState.step] at h
    split at h
    · next free =>
      obtain ⟨o, started, rfl⟩ := Option.map_eq_some_iff.1 h
      exact .call p request identity correlationId o (Option.isNone_iff_eq_none.1 free) started
    · cases h
  | cancel p =>
    simp only [recovery, RecoveryState.step] at h
    split at h
    · cases h
    · next c call =>
      split at h
      · next waiting =>
        cases h
        exact .putOff p c call waiting
      · next record next recording =>
        cases h
        exact .cancelInsert p c record next call recording
      · next next recorded =>
        cases h
        exact .cancelRecorded p c next call recorded
      · cases h
  | resume p =>
    simp only [recovery, RecoveryState.step] at h
    split at h
    · next c r settled call transaction =>
      split at h
      · next waiting =>
        obtain ⟨phase, resumed, rfl⟩ := Option.map_eq_some_iff.1 h
        exact .resume p c r settled phase call transaction waiting resumed
      · cases h
    · cases h
  | insertAudit p occurredAt actorId =>
    simp only [recovery, RecoveryState.step] at h
    split at h
    · cases h
    · next c call =>
      split at h
      · next record next recording =>
        cases h
        exact .insertAudit p occurredAt actorId c record next call recording
      · cases h
  | failAudit p =>
    simp only [recovery, RecoveryState.step] at h
    split at h
    · cases h
    · next c call =>
      split at h
      · next record next recording =>
        cases h
        exact .failAudit p c record next call recording
      · cases h
  | finish p =>
    simp only [recovery, RecoveryState.step] at h
    split at h
    · cases h
    · next c call =>
      split at h
      · next next recorded =>
        cases h
        exact .finish p c next call recorded
      · cases h

end SreAgent.Outbox
