import SreAgent.Base.Transition
import SreAgent.Lifecycle.Transactions

/-!
# `RcaJobHandler.handle` and the interleaving of handlers

`handle` is a sequence of separate transactions. `Phase` is where one call stands between two
of them, `Move` is the next thing it does together with what its environment chooses
(clock readings, the outcome of the analysis, which task finishes first), and `advance` is the
code of one move. `lifecycle` interleaves any number of calls, on any messages and under any
worker identifiers, with deliveries, clock advances and crashes. A call that raises (a lost
database connection, a unique index, a cancellation) stops without an answer: it is a crash.
-/

namespace SreAgent.Lifecycle
open Base Pubsub

/-- The exceptions `_classify_failure` tells apart. -/
inductive ProcessorError where
  | connectionError | timeoutError | other
  deriving DecidableEq

/-- `_classify_failure`. -/
def classifyFailure : ProcessorError → LifecycleFailureCode
  | .connectionError => .MCP_TRANSPORT
  | .timeoutError => .DEADLINE_EXCEEDED
  | .other => .INTERNAL_ERROR

/-- How far the processor of a claim is. It returns only after its one report transaction, with
the status of that report. -/
inductive ProcessorState where
  | analysing
  | reported (result : RcaProcessingResult)
  deriving DecidableEq

/-- How `_renew_lease` ends before the processor does. -/
inductive RenewalEnd where
  | leaseLost
  | deadlineExceeded
  | raised (e : ProcessorError)
  deriving DecidableEq

/-- The renewal task. -/
inductive RenewalState where
  | renewing
  | stopped (e : RenewalEnd)
  deriving DecidableEq

/-- Where a `handle` call stands. -/
inductive Phase where
  | claiming
  | unclaimed
  | marking (code : LifecycleFailureCode)
  | claimed (c : RcaJobClaim)
  | executing (c : RcaJobClaim) (processor : ProcessorState) (renewal : RenewalState)
  | settlingSuccess (c : RcaJobClaim) (r : RcaProcessingResult)
  | settlingFailure (c : RcaJobClaim) (code : LifecycleFailureCode)
  | returned (d : JobDisposition)
  deriving DecidableEq

/-- A `handle` call: its handler, its message, the time it was delivered and its phase. -/
structure Handling where
  handler : RcaJobHandler
  message : RcaJobMessage
  startedAt : Timestamp
  phase : Phase

/-- Which task `asyncio.wait` reports first. -/
inductive Wake where
  | nothing
  | processorRaised (e : ProcessorError)
  | processorReturned
  | renewal
  deriving DecidableEq

/-- One thing a `handle` call does. -/
inductive Move where
  | claim
  | readUnclaimed
  | mark
  | start (remaining : Int)
  | renew
  | renewalEnds (e : RenewalEnd)
  | persistReport (d : RcaReportDraft) (failureCode : Option LifecycleFailureCode) (newId : Nat → Uuid)
  | wake (remaining : Int) (w : Wake)
  | settle

/-- How the exceptions of `_execute_with_lease` leave `handle`. -/
def RenewalEnd.exit (c : RcaJobClaim) : RenewalEnd → Phase
  | .leaseLost => .returned .NACK
  | .deadlineExceeded => .settlingFailure c .DEADLINE_EXCEEDED
  | .raised e => .settlingFailure c (classifyFailure e)

/-- The end of `_execute_with_lease`: what is raised or returned once a task is done, and how
`handle` goes on. `remaining` is `_remaining_seconds` read when the processor is done. -/
def wakeUp (c : RcaJobClaim) (processor : ProcessorState) (renewal : RenewalState) (remaining : Int) :
    Wake → Option Phase
  | .nothing => some (.settlingFailure c .DEADLINE_EXCEEDED)
  | .processorRaised e =>
    some (.settlingFailure c (if remaining ≤ 0 then .DEADLINE_EXCEEDED else classifyFailure e))
  | .processorReturned =>
    match processor with
    | .analysing => none
    | .reported r =>
      some (if remaining ≤ 0 then .settlingFailure c .DEADLINE_EXCEEDED else .settlingSuccess c r)
  | .renewal =>
    match renewal with
    | .renewing => none
    | .stopped e => some (e.exit c)

/-- One move of a `handle` call. `none`: the call cannot do this in its phase, or its transaction
was rolled back by the database. -/
def advance (x : Handling) (now : Timestamp) (db : WorkerTables) : Move → Option (Phase × WorkerTables)
  | .claim =>
    match x.phase with
    | .claiming =>
      match x.handler.claim x.message now db with
      | .error _ => none
      | .ok (none, db') => some (.unclaimed, db')
      | .ok (some c, db') => some (.claimed c, db')
    | _ => none
  | .readUnclaimed =>
    match x.phase with
    | .unclaimed =>
      match RcaJobHandler.unclaimedDecision x.message (x.handler.unclaimedRow x.message now db) with
      | .answer d => some (.returned d, db)
      | .terminate code => some (.marking code, db)
    | _ => none
  | .mark =>
    match x.phase with
    | .marking code => some (.returned .ACK, RcaJobHandler.markUnclaimedTerminal x.message code now db)
    | _ => none
  | .start remaining =>
    match x.phase with
    | .claimed c =>
      some (if remaining ≤ 0 then .settlingFailure c .DEADLINE_EXCEEDED
        else .executing c .analysing .renewing, db)
    | _ => none
  | .renew =>
    match x.phase with
    | .executing c processor .renewing =>
      let (held, db') := c.renewLease now db
      some (.executing c processor (if held then .renewing else .stopped .leaseLost), db')
    | _ => none
  | .renewalEnds e =>
    match x.phase with
    | .executing c processor .renewing =>
      if e = .leaseLost then none else some (.executing c processor (.stopped e), db)
    | _ => none
  | .persistReport d failureCode newId =>
    match x.phase with
    | .executing c .analysing renewal =>
      some (.executing c (.reported ⟨d.status, failureCode⟩) renewal, persistReport c.rcaRunId d newId db)
    | _ => none
  | .wake remaining w =>
    match x.phase with
    | .executing c processor renewal => (wakeUp c processor renewal remaining w).map fun p => (p, db)
    | _ => none
  | .settle =>
    match x.phase with
    | .settlingSuccess c r =>
      let (d, db') := c.settleSuccess r now db
      some (.returned d, db')
    | .settlingFailure c code =>
      let (d, db') := c.settleFailure code now db
      some (.returned d, db')
    | _ => none

/-- The tables, the clock and the `handle` calls under way. -/
structure LifecycleState where
  db : WorkerTables
  now : Timestamp
  calls : Nat → Option Handling

inductive Action where
  | deliver (p : Nat) (h : RcaJobHandler) (m : RcaJobMessage)
  | tick (dt : Nat)
  | crash (p : Nat)
  | move (p : Nat) (mv : Move)

namespace LifecycleState

/-- Replace one call. -/
def setCall (s : LifecycleState) (p : Nat) (x : Option Handling) : LifecycleState :=
  { s with calls := Function.update s.calls p x }

@[simp] theorem setCall_db (s : LifecycleState) (p : Nat) (x : Option Handling) :
    (s.setCall p x).db = s.db := rfl

@[simp] theorem setCall_now (s : LifecycleState) (p : Nat) (x : Option Handling) :
    (s.setCall p x).now = s.now := rfl

@[simp] theorem setCall_self (s : LifecycleState) (p : Nat) (x : Option Handling) :
    (s.setCall p x).calls p = x := by
  simp [setCall]

theorem setCall_of_ne (s : LifecycleState) {p q : Nat} (h : q ≠ p) (x : Option Handling) :
    (s.setCall p x).calls q = s.calls q := by
  simp [setCall, h]

/-- One step of the interleaved system. -/
def step (s : LifecycleState) : Action → Option LifecycleState
  | .deliver p h m =>
    if s.calls p = none then some (s.setCall p (some ⟨h, m, s.now, .claiming⟩)) else none
  | .tick dt => some { s with now := s.now + dt }
  | .crash p => some (s.setCall p none)
  | .move p mv => do
    let x ← s.calls p
    let (phase, db) ← advance x s.now s.db mv
    some ({ s with db := db }.setCall p (some { x with phase := phase }))

end LifecycleState

/-- Handlers at work on well-formed tables, from a state with no call under way. -/
def lifecycle : System LifecycleState Action where
  init s := s.db.WellFormed ∧ ∀ p, s.calls p = none
  step := LifecycleState.step

end SreAgent.Lifecycle
