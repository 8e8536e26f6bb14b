import SreAgent.Base.Transition
import SreAgent.Outbox.Events

/-!
# Publishing calls under row locks

`publish_event`, `publish_pending` and `publish_failed` as transactions that interleave freely.
One SQL statement is one step: the selecting statement reads the committed rows and locks what it
returns, a batch skipping locked rows (`SKIP LOCKED`), a single event waiting for its row. Then
every locked row is settled in turn, its new version staying inside the transaction until the
commit. A rollback (an exception, a lost connection, a crash) may end a call at any point; what
was sent before it stays sent. Ingestion adds pending events at any time.
-/

namespace SreAgent.Outbox
open Base Pubsub

/-- A call: `publish_event`, or `publish_pending` and `publish_failed` by the status they select. -/
inductive Request where
  | event (id : Uuid)
  | batch (status : OutboxStatus) (limit : Nat)
  deriving DecidableEq

/-- The two batch methods and their `_validate_limit`. -/
def Request.Valid : Request → Prop
  | .event _ => True
  | .batch status limit => (status = .PENDING ∨ status = .FAILED) ∧ 1 ≤ limit ∧ limit ≤ 100

instance (r : Request) : Decidable r.Valid := by
  unfold Request.Valid; split <;> infer_instance

/-- How far the transaction of a call is. -/
inductive Phase where
  | selecting
  | settling (attemptedAt : Timestamp) (selected todo : List OutboxEvent)
      (done : List (OutboxPublishResult × OutboxEvent))
  | committed (selected : List OutboxEvent) (results : List OutboxPublishResult)
  | aborted

structure Publishing where
  request : Request
  phase : Phase

/-- The rows a call has locked, as it read them. -/
def Phase.selected : Phase → List OutboxEvent
  | .settling _ sel _ _ | .committed sel _ => sel
  | _ => []

/-- The committed rows, the row locks, the calls, and everything handed to the publisher. -/
structure OutboxState where
  events : List OutboxEvent
  locks : Uuid → Option Nat
  calls : Nat → Option Publishing
  sent : List SentMessage

inductive Action where
  | insert (e : OutboxEvent)
  | start (p : Nat) (r : Request)
  | select (p : Nat) (attemptedAt : Timestamp)
  | settleNext (p : Nat) (accepted : Bool)
  | commit (p : Nat)
  | abort (p : Nat)

namespace OutboxState

/-- The row stored under an identifier. -/
def event (s : OutboxState) (id : Uuid) : Option OutboxEvent := Table.lookup OutboxEvent.id id s.events

def setPhase (s : OutboxState) (p : Nat) (r : Request) (phase : Phase) : OutboxState :=
  { s with calls := Function.update s.calls p (some ⟨r, phase⟩) }

/-- Lock rows for a call. -/
def lock (s : OutboxState) (p : Nat) (rows : List OutboxEvent) : OutboxState :=
  { s with locks := fun id => if ∃ row ∈ rows, row.id = id then some p else s.locks id }

/-- Release every lock of a call. -/
def release (s : OutboxState) (p : Nat) : OutboxState :=
  { s with locks := fun id => if s.locks id = some p then none else s.locks id }

/-- The rows a batch selects. -/
def selectable (s : OutboxState) (status : OutboxStatus) (limit : Nat) : List OutboxEvent :=
  ((s.events.filter fun e => e.status = status ∧ e.publishedAt = none ∧ s.locks e.id = none).insertionSort
    OutboxEvent.Before).take limit

/-- The table with the versions of a committing transaction. -/
def overlay (versions events : List OutboxEvent) : List OutboxEvent :=
  events.map fun e => (Table.lookup OutboxEvent.id e.id versions).getD e

/-- A settling phase just entered. -/
def beginSettling (s : OutboxState) (p : Nat) (r : Request) (attemptedAt : Timestamp)
    (rows : List OutboxEvent) :
    OutboxState :=
  (s.lock p rows).setPhase p r (.settling attemptedAt rows rows [])

/-- One step. -/
def step (svc : OutboxPublishService) (s : OutboxState) : Action → Option OutboxState
  | .insert e =>
    if e.status = .PENDING ∧ e.publishedAt = none ∧
        ∀ r ∈ s.events, r.id ≠ e.id ∧ r.idempotencyKey ≠ e.idempotencyKey then
      some { s with events := s.events ++ [e] }
    else none
  | .start p r =>
    if (s.calls p).isNone = true ∧ r.Valid then some (s.setPhase p r .selecting) else none
  | .select p attemptedAt =>
    match s.calls p with
    | some ⟨.event id, .selecting⟩ =>
      match s.event id with
      | none => some (s.setPhase p (.event id) .aborted)
      | some row =>
        if s.locks id = none then some (s.beginSettling p (.event id) attemptedAt [row]) else none
    | some ⟨.batch status limit, .selecting⟩ =>
      some (s.beginSettling p (.batch status limit) attemptedAt (s.selectable status limit))
    | _ => none
  | .settleNext p accepted =>
    match s.calls p with
    | some ⟨r, .settling attemptedAt sel (row :: todo) done⟩ =>
      let settled := svc.settleRow attemptedAt row accepted
      some ({ s with sent := s.sent ++ settled.sent.toList }.setPhase p r
        (.settling attemptedAt sel todo (done ++ [(settled.result, settled.version)])))
    | _ => none
  | .commit p =>
    match s.calls p with
    | some ⟨r, .settling _ sel [] done⟩ =>
      some (({ s with events := overlay (done.map Prod.snd) s.events }.release p).setPhase p r
        (.committed sel (done.map Prod.fst)))
    | _ => none
  | .abort p =>
    match s.calls p with
    | some ⟨r, .selecting⟩ | some ⟨r, .settling _ _ _ _⟩ => some ((s.release p).setPhase p r .aborted)
    | _ => none

end OutboxState

/-- Publishing calls over a well-formed table, from a state with no call under way and no lock. -/
def outbox (svc : OutboxPublishService) : System OutboxState Action where
  init s := Table.Keyed OutboxEvent.id s.events ∧ (∀ e ∈ s.events, e.Dated) ∧ (∀ id, s.locks id = none) ∧
    (∀ p, s.calls p = none) ∧ s.sent = []
  step := OutboxState.step svc

/-! ## What a step does -/

/-- A step of the system, with the guards its code checks. -/
inductive StepCases (svc : OutboxPublishService) (s : OutboxState) : Action → OutboxState → Prop where
  | insert (e : OutboxEvent) (pending : e.status = .PENDING) (undated : e.publishedAt = none)
      (fresh : ∀ r ∈ s.events, r.id ≠ e.id) : StepCases svc s (.insert e) { s with events := s.events ++ [e] }
  | start (p : Nat) (r : Request) (free : s.calls p = none) (valid : r.Valid) :
      StepCases svc s (.start p r) (s.setPhase p r .selecting)
  | notFound (p : Nat) (attemptedAt : Timestamp) (id : Uuid)
      (call : s.calls p = some ⟨.event id, .selecting⟩) :
      StepCases svc s (.select p attemptedAt) (s.setPhase p (.event id) .aborted)
  | selectEvent (p : Nat) (attemptedAt : Timestamp) (id : Uuid) (row : OutboxEvent)
      (call : s.calls p = some ⟨.event id, .selecting⟩) (stored : s.event id = some row)
      (free : s.locks id = none) :
      StepCases svc s (.select p attemptedAt) (s.beginSettling p (.event id) attemptedAt [row])
  | selectBatch (p : Nat) (attemptedAt : Timestamp) (status : OutboxStatus) (limit : Nat)
      (call : s.calls p = some ⟨.batch status limit, .selecting⟩) :
      StepCases svc s (.select p attemptedAt)
        (s.beginSettling p (.batch status limit) attemptedAt (s.selectable status limit))
  | settleNext (p : Nat) (accepted : Bool) (r : Request) (attemptedAt : Timestamp) (sel : List OutboxEvent)
      (row : OutboxEvent) (todo : List OutboxEvent) (done : List (OutboxPublishResult × OutboxEvent))
      (call : s.calls p = some ⟨r, .settling attemptedAt sel (row :: todo) done⟩) :
      StepCases svc s (.settleNext p accepted)
        ({ s with sent := s.sent ++ (svc.settleRow attemptedAt row accepted).sent.toList }.setPhase p r
          (.settling attemptedAt sel todo (done ++ [((svc.settleRow attemptedAt row accepted).result,
            (svc.settleRow attemptedAt row accepted).version)])))
  | commit (p : Nat) (r : Request) (attemptedAt : Timestamp) (sel : List OutboxEvent)
      (done : List (OutboxPublishResult × OutboxEvent))
      (call : s.calls p = some ⟨r, .settling attemptedAt sel [] done⟩) :
      StepCases svc s (.commit p)
        (({ s with events := OutboxState.overlay (done.map Prod.snd) s.events }.release p).setPhase p r
          (.committed sel (done.map Prod.fst)))
  | abort (p : Nat) (r : Request) (phase : Phase) (call : s.calls p = some ⟨r, phase⟩) :
      StepCases svc s (.abort p) ((s.release p).setPhase p r .aborted)

theorem step_cases {svc : OutboxPublishService} {s t : OutboxState} {a : Action}
    (h : (outbox svc).step s a = some t) :
    StepCases svc s a t := by
  cases a with
  | insert e =>
    simp only [outbox, OutboxState.step] at h
    split at h
    · next guard =>
      cases h
      exact .insert e guard.1 guard.2.1 fun r hr => (guard.2.2 r hr).1
    · cases h
  | start p r =>
    simp only [outbox, OutboxState.step] at h
    split at h
    · next guard =>
      cases h
      exact .start p r (Option.isNone_iff_eq_none.1 guard.1) guard.2
    · cases h
  | select p attemptedAt =>
    simp only [outbox, OutboxState.step] at h
    split at h
    · next id call =>
      split at h
      · cases h
        exact .notFound p attemptedAt id call
      · next row stored =>
        split at h
        · next free =>
          cases h
          exact .selectEvent p attemptedAt id row call stored free
        · cases h
    · next status limit call =>
      cases h
      exact .selectBatch p attemptedAt status limit call
    · cases h
  | settleNext p accepted =>
    simp only [outbox, OutboxState.step] at h
    split at h
    · next r attemptedAt sel row todo done call =>
      cases h
      exact .settleNext p accepted r attemptedAt sel row todo done call
    · cases h
  | commit p =>
    simp only [outbox, OutboxState.step] at h
    split at h
    · next r attemptedAt sel done call =>
      cases h
      exact .commit p r attemptedAt sel done call
    · cases h
  | abort p =>
    simp only [outbox, OutboxState.step] at h
    split at h
    · next r call =>
      cases h
      exact .abort p r _ call
    · next r attemptedAt sel todo done call =>
      cases h
      exact .abort p r _ call
    · cases h

end SreAgent.Outbox
