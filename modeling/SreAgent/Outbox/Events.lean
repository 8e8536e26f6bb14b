import Mathlib
import SreAgent.Base.Table
import SreAgent.Base.Time
import SreAgent.Pubsub.Messages

/-!
# Outbox events and their settlement

A row of `outbox_events`, the message `_published_data` makes of it, and what
`_publish_locked_rows` does with one locked row: send or not, the version of the row it writes
and the result it returns.
-/

namespace SreAgent.Outbox
open Base Pubsub

/-- The check of `outbox_events.status`. -/
inductive OutboxStatus where
  | PENDING | PUBLISHED | FAILED
  deriving DecidableEq, Repr

structure OutboxEvent where
  id : Uuid
  aggregateId : Uuid
  eventType : String
  payload : Json
  idempotencyKey : String
  status : OutboxStatus
  availableAt : Timestamp
  publishedAt : Option Timestamp
  createdAt : Timestamp

/-- `PublishResultCode`. -/
inductive PublishResultCode where
  | PUBLISHED | FAILED | NO_OP
  deriving DecidableEq, Repr

structure OutboxPublishResult where
  eventId : Uuid
  previousStatus : OutboxStatus
  result : PublishResultCode
  failureCategory : Option String
  deriving DecidableEq

/-- `OutboxPublishService`: its topic and its delay, which its constructor checks. -/
structure OutboxPublishService where
  topic : String
  retryDelay : Int
  retryDelay_pos : 0 < retryDelay

/-- A message handed to the publisher for an event, and whether the publisher returned. -/
structure SentMessage where
  eventId : Uuid
  topic : String
  data : List UInt8
  idempotencyKey : String
  accepted : Bool
  deriving DecidableEq

/-- `_published_data`; `none` is `_InvalidPersistedEvent`. -/
def publishedData (row : OutboxEvent) : Option (List UInt8) :=
  if row.eventType ≠ "RCA_RUN_REQUESTED" then none
  else (RcaJobMessage.fromMapping row.payload).map RcaJobMessage.toBytes

/-- `ORDER BY available_at, created_at, id`. -/
def OutboxEvent.Before (a b : OutboxEvent) : Prop :=
  a.availableAt < b.availableAt ∨ a.availableAt = b.availableAt ∧
    (a.createdAt < b.createdAt ∨ a.createdAt = b.createdAt ∧ a.id ≤ b.id)

instance : DecidableRel OutboxEvent.Before := fun a b => by unfold OutboxEvent.Before; infer_instance

/-- The row after a successful send. -/
def markPublished (attemptedAt : Timestamp) (row : OutboxEvent) : OutboxEvent :=
  { row with status := .PUBLISHED, publishedAt := some attemptedAt }

namespace OutboxPublishService

/-- `_settle_failed`: the row it writes. -/
def markFailed (svc : OutboxPublishService) (attemptedAt : Timestamp) (row : OutboxEvent) : OutboxEvent :=
  { row with status := .FAILED, publishedAt := none, availableAt := attemptedAt + svc.retryDelay }

/-- One row settled: what was sent, the result, and the version of the row in the transaction. -/
structure Settlement where
  sent : Option SentMessage
  result : OutboxPublishResult
  version : OutboxEvent

/-- The body of the loop of `_publish_locked_rows`; `accepted` is whether the publisher returns. -/
def settleRow (svc : OutboxPublishService) (attemptedAt : Timestamp) (row : OutboxEvent) (accepted : Bool) :
    Settlement :=
  let result (code : PublishResultCode) (category : Option String) : OutboxPublishResult :=
    ⟨row.id, row.status, code, category⟩
  if row.status = .PUBLISHED then ⟨none, result .NO_OP none, row⟩
  else
    match publishedData row with
    | none => ⟨none, result .FAILED (some "INVALID_EVENT"), svc.markFailed attemptedAt row⟩
    | some data =>
      let message : SentMessage := ⟨row.id, svc.topic, data, row.idempotencyKey, accepted⟩
      if accepted = true then ⟨some message, result .PUBLISHED none, markPublished attemptedAt row⟩
      else ⟨some message, result .FAILED (some "PUBLISH_ERROR"), svc.markFailed attemptedAt row⟩

end OutboxPublishService

/-! ## What a settlement is -/

/-- The version `new` differs from `old` at most where the service writes. -/
def SameEvent (old new : OutboxEvent) : Prop :=
  new.id = old.id ∧ new.aggregateId = old.aggregateId ∧ new.eventType = old.eventType ∧
    new.payload = old.payload ∧
    new.idempotencyKey = old.idempotencyKey ∧ new.createdAt = old.createdAt

/-- `PUBLISHED` exactly when the publication is dated. -/
def OutboxEvent.Dated (e : OutboxEvent) : Prop := e.status = .PUBLISHED ↔ e.publishedAt ≠ none

/-- The result and the version written tell one outcome of the row. -/
structure SettledAs (row : OutboxEvent) (result : OutboxPublishResult) (version : OutboxEvent) : Prop where
  eventId : result.eventId = row.id
  previousStatus : result.previousStatus = row.status
  same : SameEvent row version
  noOp : row.status = .PUBLISHED → result.result = .NO_OP ∧ version = row
  settled : row.status ≠ .PUBLISHED →
    (result.result = .PUBLISHED ∧ version.status = .PUBLISHED ∧ version.publishedAt ≠ none) ∨
    (result.result = .FAILED ∧ version.status = .FAILED ∧ version.publishedAt = none)

/-- A message carries the canonical encoding of its event's payload and its idempotency key. -/
def SentMessage.Of (m : SentMessage) (svc : OutboxPublishService) (row : OutboxEvent) : Prop :=
  m.eventId = row.id ∧ m.topic = svc.topic ∧ publishedData row = some m.data ∧
    m.idempotencyKey = row.idempotencyKey

theorem SameEvent.refl (e : OutboxEvent) : SameEvent e e := ⟨rfl, rfl, rfl, rfl, rfl, rfl⟩

theorem SameEvent.trans {a b c : OutboxEvent} (h : SameEvent a b) (h' : SameEvent b c) : SameEvent a c :=
  ⟨h'.1.trans h.1, h'.2.1.trans h.2.1, h'.2.2.1.trans h.2.2.1, h'.2.2.2.1.trans h.2.2.2.1,
    h'.2.2.2.2.1.trans h.2.2.2.2.1, h'.2.2.2.2.2.trans h.2.2.2.2.2⟩

/-- Messages do not depend on the columns the service writes. -/
theorem SameEvent.publishedData {a b : OutboxEvent} (h : SameEvent a b) :
    Outbox.publishedData b = Outbox.publishedData a := by
  simp only [Outbox.publishedData, h.2.2.1, h.2.2.2.1]

theorem SentMessage.Of.mono {m : SentMessage} {svc : OutboxPublishService} {a b : OutboxEvent}
    (h : m.Of svc a) (same : SameEvent a b) : m.Of svc b :=
  ⟨h.1.trans same.1.symm, h.2.1, same.publishedData.trans h.2.2.1, h.2.2.2.trans same.2.2.2.2.1.symm⟩

section Settle

variable (svc : OutboxPublishService) (attemptedAt : Timestamp) (row : OutboxEvent) (accepted : Bool)

theorem settleRow_settledAs :
    SettledAs row (svc.settleRow attemptedAt row accepted).result (svc.settleRow attemptedAt row
      accepted).version := by
  unfold OutboxPublishService.settleRow
  dsimp only
  split
  · next published =>
    exact ⟨rfl, rfl, .refl row, fun _ => ⟨rfl, rfl⟩, fun open_ => absurd published open_⟩
  · next open_ =>
    split
    · exact ⟨rfl, rfl, ⟨rfl, rfl, rfl, rfl, rfl, rfl⟩, fun h => absurd h open_, fun _ => .inr ⟨rfl, rfl, rfl⟩⟩
    · split
      · exact ⟨rfl, rfl, ⟨rfl, rfl, rfl, rfl, rfl, rfl⟩, fun h => absurd h open_,
          fun _ => .inl ⟨rfl, rfl, by simp [markPublished]⟩⟩
      · exact ⟨rfl, rfl, ⟨rfl, rfl, rfl, rfl, rfl, rfl⟩, fun h => absurd h open_,
          fun _ => .inr ⟨rfl, rfl, rfl⟩⟩

/-- What is sent is the message of the row, and only for a row that is not published. -/
theorem settleRow_sent {m : SentMessage} (h : (svc.settleRow attemptedAt row accepted).sent = some m) :
    m.Of svc row ∧ row.status ≠ .PUBLISHED := by
  unfold OutboxPublishService.settleRow at h
  dsimp only at h
  split at h
  · cases h
  · next open_ =>
    split at h
    · cases h
    · next data hdata =>
      split at h <;>
      · cases h
        exact ⟨⟨rfl, rfl, hdata, rfl⟩, open_⟩

end Settle

/-- A settled version is dated. -/
theorem SettledAs.dated {row version : OutboxEvent} {result : OutboxPublishResult}
    (h : SettledAs row result version) (dated : row.Dated) : version.Dated := by
  by_cases published : row.status = .PUBLISHED
  · rw [(h.noOp published).2]
    exact dated
  · rcases h.settled published with ⟨-, status, date⟩ | ⟨-, status, date⟩
    · exact iff_of_true status date
    · rw [OutboxEvent.Dated, status, date]
      simp

end SreAgent.Outbox
