import SreAgent.Base.Shield
import SreAgent.Outbox.Recovery

/-!
# Durable settlement

`_complete_durable_settlement` runs an operation in a task of its own and awaits shields of it until it is
done. A cancellation of the caller is put off: the loop notes it, goes on, and raises it at the end.
-/

namespace SreAgent.Outbox
open Base

variable {α ε : Type*} {isException : ε → Bool}

/-- How the call ends; `noted` tells whether the note on the put-off cancellation was added. -/
inductive SettlementEnd (α ε : Type*) where
  | returned (result : α)
  | raised (error : ε) (noted : Bool)
  | cancelled
  deriving DecidableEq

/-- One turn of the loop, from `cancellation_requested` and what `await asyncio.shield(settlement)` gave. -/
def settlementTurn (isException : ε → Bool) (cancellationRequested : Bool) (settlement : Future α ε) :
    Awaited α ε → Bool ⊕ SettlementEnd α ε
  | .value result => .inr (if cancellationRequested then .cancelled else .returned result)
  | .raised error => .inr (.raised error (isException error && cancellationRequested))
  | .cancelledError =>
    match settlement with
    | .pending => .inl true
    | .cancelled => .inr .cancelled
    | .result _ => .inr .cancelled
    | .exception error => .inr (.raised error (isException error))

/-- `_complete_durable_settlement`. -/
def settlementLoop (isException : ε → Bool) : Coroutine α ε Bool (SettlementEnd α ε) where
  start := false
  resume := settlementTurn isException
  ends := by
    intro requested settlement input done
    cases input with
    | cancelledError =>
      cases settlement with
      | pending => cases done
      | _ => exact ⟨_, rfl⟩
    | _ => exact ⟨_, rfl⟩

/-- What the call makes of the task and of whether its caller was cancelled. -/
def settlementEnd (isException : ε → Bool) (settlement : Future α ε) (cancelled : Bool) :
    Option (SettlementEnd α ε) :=
  match settlement with
  | .pending => none
  | .result result => some (if cancelled then .cancelled else .returned result)
  | .exception error => some (.raised error (isException error && cancelled))
  | .cancelled => some .cancelled

/-- The loop remembers exactly the cancellations that were raised in it. -/
theorem settlement_meets :
    (settlementLoop (α := α) isException).Meets (fun requested raised => requested = raised)
      (fun settlement cancelled r => settlementEnd isException settlement cancelled = some r) where
  start := rfl
  again := by
    intro requested raised requested' _ next
    cases next
    rfl
  cancelled := by
    intro requested raised settlement r _ ended
    cases settlement <;> cases ended
    · rfl
    · change some (SettlementEnd.raised _ (isException _ && true)) = _
      rw [Bool.and_true]
    · rfl
  heard := by
    rintro requested _ settlement input r rfl heard ended
    cases settlement with
    | pending => cases heard
    | _ =>
      cases heard
      cases ended
      rfl

/-- The call, from the moment it awaits the first shield; its caller may have been cancelled before. -/
def settling (isException : ε → Bool) (cancelled : Bool) : Loop α ε Bool (SettlementEnd α ε) :=
  Loop.begin_ (settlementLoop isException) cancelled

/-- Whatever the timing of cancellations and callbacks, the task of the operation is not cancelled and
ends once. The call ends after it, with the result, the cancellation or the exception of the
operation, as soon as nothing is ready; the loop does not spin. -/
theorem settlement_survives (isException : ε → Bool) (cancelled : Bool) {labels : List (LoopAction α ε)}
    {s : Loop α ε Bool (SettlementEnd α ε)}
    (run : (shielded (settlementLoop isException)).exec (settling isException cancelled) labels = some s) :
    (s.taskCancels = 0 ∧ labels.countP LoopAction.isComplete ≤ 1 ∧ ∀ f, .complete f ∈ labels → s.task = f) ∧
    (0 < s.cancels ↔ cancelled = true ∨
      Arrives (settlementLoop isException) (settling isException cancelled) labels) ∧
    (∀ r, s.caller = .ended r → settlementEnd isException s.task (decide (0 < s.cancels)) = some r) ∧
    (s.task.done = true → s.ready = [] → ∃ r, s.caller = .ended r) ∧
    labels.countP LoopAction.isRun ≤ 3 * (s.cancels + 1) := by
  have begins : Loop.Sound (fun requested raised => requested = raised)
      (fun settlement cancelled r => settlementEnd isException settlement cancelled = some r)
        (settling (α := α) isException cancelled) :=
    Loop.sound_begin settlement_meets cancelled
  have sound := sound_exec settlement_meets begins run
  have pending : (settling (α := α) isException cancelled).task = .pending := (Loop.frame_awaitShield _).task
  have counted : (settling (α := α) isException cancelled).cancels = cancelled.toNat :=
    (Loop.frame_awaitShield _).cancels
  obtain ⟨-, once, kept⟩ := completes_once run
  refine ⟨⟨sound.spared, ?_, kept⟩, ?_, fun r ended => ?_, sound.quiet, ?_⟩
  · rw [pending] at once
    exact once
  · rw [cancels_iff run, counted]
    cases cancelled <;> simp
  · cases sound.phase with
    | waiting locals k caller => cases caller.symm.trans ended
    | woken locals k f caller => cases caller.symm.trans ended
    | ended r' task caller asleep same holds few =>
      cases caller.symm.trans ended
      cases hdone : task.done with
      | false =>
        rw [Future.eq_pending.1 hdone] at holds
        cases holds
      | true =>
        rw [same hdone]
        exact holds
  · have bound := runs_le settlement_meets begins run
    have start : (settling (α := α) isException cancelled).weight + 3 * 0 =
        0 + 3 * (settling (α := α) isException cancelled).shields.length := Loop.weight_awaitShield false
    have few := sound.few
    omega

/-- A caller cancelled while it waits, and again when the end of the operation has been passed on. -/
def cancelledTwice : List (LoopAction Nat Empty) :=
  [.cancel, .run 1, .complete (.result 7), .run 2, .cancel, .run 3, .run 0, .run 0, .run 0]

/-- The operation succeeds all the same, and the caller raises the cancellation. -/
theorem cancelled_twice_survives :
    ∃ s, (shielded (settlementLoop fun _ => true)).exec (settling (fun _ => true) false) cancelledTwice =
      some s ∧
    s.taskCancels = 0 ∧ s.task = .result 7 ∧ s.caller = .ended .cancelled := by
  obtain ⟨s, run⟩ : ∃ s, (shielded (settlementLoop fun _ => true)).exec (settling (fun _ => true) false)
      cancelledTwice = some s :=
    ⟨_, rfl⟩
  have quiet : s.ready = [] := by
    cases run
    rfl
  obtain ⟨⟨spared, -, task⟩, arrived, ends, finished, -⟩ := settlement_survives (fun _ => true) false run
  have result : s.task = .result 7 := task _ (by decide)
  obtain ⟨r, ended⟩ := finished (by rw [result]; rfl) quiet
  have end_ := ends r ended
  have some_ : 0 < s.cancels := arrived.2 (.inr ⟨[], _, _, rfl, rfl, fun _ waits => by cases waits⟩)
  rw [result, decide_eq_true some_] at end_
  cases end_
  exact ⟨s, run, spared, result, ended⟩

/-- A recovery call that waits makes of its transaction what the settlement makes of the task that runs it. -/
theorem resumed_eq (c : Recovery) (phase : Phase) : c.resumed phase =
    (settlementEnd (fun _ => true) (match phase with
      | .committed _ results => .result results
      | .aborted => .exception ()
      | _ => .pending) c.cancellationRequested).map fun
        | .returned results => .recording (c.record results) (.returned results)
        | .cancelled => .ended .cancelled
        | .raised _ _ => match c.request, c.eventNotFound with
          | .retryEvent eventId, true => .recording (c.notFoundRecord eventId) .notFound
          | _, _ => .ended .publishRaised := by
  cases phase with
  | selecting => rfl
  | settling => rfl
  | committed selected results =>
    unfold Recovery.resumed settlementEnd
    cases c.cancellationRequested <;> rfl
  | aborted =>
    unfold Recovery.resumed settlementEnd
    cases c.request <;> cases c.eventNotFound <;> rfl

end SreAgent.Outbox
