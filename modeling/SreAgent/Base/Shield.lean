import Mathlib
import SreAgent.Base.History

/-!
# Waiting for a task behind a shield

A caller awaits shields of one task on an event loop. A shield is a future of its own: the task's end is
passed on to it by a callback, a cancellation of the caller ends the shield alone. The callbacks that are
ready run in any order, between them the caller is cancelled and the task goes on.
-/

namespace SreAgent.Base

/-- A future: pending, or done in one of three ways. -/
inductive Future (α ε : Type*) where
  | pending
  | result (a : α)
  | exception (e : ε)
  | cancelled
  deriving DecidableEq

/-- What an `await` gives or raises. -/
inductive Awaited (α ε : Type*) where
  | value (a : α)
  | raised (e : ε)
  | cancelledError
  deriving DecidableEq

variable {α ε l ρ : Type*}

namespace Future

def done : Future α ε → Bool
  | pending => false
  | _ => true

/-- `future.result()`. -/
def awaited : Future α ε → Option (Awaited α ε)
  | pending => none
  | result a => some (.value a)
  | exception e => some (.raised e)
  | cancelled => some .cancelledError

theorem eq_pending {f : Future α ε} : f.done = false ↔ f = pending := by cases f <;> simp [done]

theorem awaited_of_done {f : Future α ε} (h : f.done = true) : ∃ input, f.awaited = some input := by
  cases f with
  | pending => cases h
  | _ => exact ⟨_, rfl⟩

theorem done_of_awaited {f : Future α ε} {input : Awaited α ε} (h : f.awaited = some input) :
    f.done = true := by
  cases f with
  | pending => cases h
  | _ => rfl

end Future

/-- A coroutine that awaits shields of a task: from its locals, the task and what the last shield gave
it awaits another one or ends. Once the task is done it ends. -/
structure Coroutine (α ε l ρ : Type*) where
  start : l
  resume : l → Future α ε → Awaited α ε → l ⊕ ρ
  ends : ∀ locals {task} input, task.done = true → ∃ r, resume locals task input = .inr r

/-- The callbacks of a shield: of the task's end, of the shield's end, and of the caller that awaits it. -/
inductive Callback where
  | propagate (shield : Nat)
  | detach (shield : Nat)
  | wakeup (shield : Nat)
  deriving DecidableEq

/-- The future a caller awaits. -/
inductive Waiter where
  | task
  | shield (k : Nat)
  deriving DecidableEq

inductive Position (l ρ : Type*) where
  | waiting (locals : l) (on : Waiter)
  | ended (r : ρ)

/-- The loop: the task and the shields whose callback it holds, the shields made so far, the callbacks
that are ready, the caller, and how many cancellations reached caller and task. -/
structure Loop (α ε l ρ : Type*) where
  task : Future α ε
  observers : List Nat
  shields : List (Future α ε)
  ready : List Callback
  caller : Position l ρ
  mustCancel : Bool
  cancels : Nat
  taskCancels : Nat

namespace Loop

/-- The end of a shield, if it is pending: its callbacks become ready. -/
def finishShield (s : Loop α ε l ρ) (k : Nat) (f : Future α ε) : Loop α ε l ρ :=
  match s.shields[k]? with
  | some .pending => { s with shields := s.shields.set k f, ready := s.ready ++ [.detach k, .wakeup k] }
  | _ => s

/-- `await asyncio.shield(task)`. The shield of a task that is done is the task, and gives its end at once; a
cancellation that was requested before ends a new shield as soon as it is awaited. -/
def awaitShield (c : Coroutine α ε l ρ) (s : Loop α ε l ρ) (locals : l) : Loop α ε l ρ :=
  match s.task.awaited with
  | some input =>
    match c.resume locals s.task input with
    | .inl locals => { s with caller := .waiting locals .task }
    | .inr r => { s with caller := .ended r }
  | none =>
    let k := s.shields.length
    let s := { s with
      shields := s.shields ++ [Future.pending]
      observers := s.observers ++ [k]
      caller := .waiting locals (.shield k) }
    if s.mustCancel then { s with mustCancel := false }.finishShield k .cancelled else s

/-- The next step of the caller: a cancellation that was requested takes the place of what it awaited. -/
def resume (c : Coroutine α ε l ρ) (s : Loop α ε l ρ) (input : Awaited α ε) : Loop α ε l ρ :=
  match s.caller with
  | .ended _ => s
  | .waiting locals _ =>
    let input := if s.mustCancel then .cancelledError else input
    let s := { s with mustCancel := false }
    match c.resume locals s.task input with
    | .inl locals => s.awaitShield c locals
    | .inr r => { s with caller := .ended r }

/-- A callback runs. -/
def call (c : Coroutine α ε l ρ) (s : Loop α ε l ρ) : Callback → Loop α ε l ρ
  | .propagate k => s.finishShield k s.task
  | .detach k => if s.task.done then s else { s with observers := s.observers.erase k }
  | .wakeup k =>
    match s.shields[k]?.bind Future.awaited with
    | some input => s.resume c input
    | none => s

/-- `caller.cancel()`: it is passed on to the future the caller awaits, and kept for later if that is done. -/
def cancel (s : Loop α ε l ρ) : Loop α ε l ρ :=
  match s.caller with
  | .ended _ => s
  | .waiting _ .task => { s with cancels := s.cancels + 1, taskCancels := s.taskCancels + 1 }
  | .waiting _ (.shield k) =>
    match s.shields[k]? with
    | some .pending => { s with cancels := s.cancels + 1 }.finishShield k .cancelled
    | _ => { s with cancels := s.cancels + 1, mustCancel := true }

/-- The task is created and its first shield awaited, by a caller that may have been cancelled before. -/
def begin_ (c : Coroutine α ε l ρ) (cancelled : Bool) : Loop α ε l ρ :=
  awaitShield c ⟨.pending, [], [], [], .waiting c.start .task, cancelled, cancelled.toNat, 0⟩ c.start

end Loop

/-- What happens on the loop: a cancellation of the caller, the end of the task, or a ready callback. -/
inductive LoopAction (α ε : Type*) where
  | cancel
  | complete (f : Future α ε)
  | run (i : Nat)
  deriving DecidableEq

def LoopAction.isRun : LoopAction α ε → Bool
  | run _ => true
  | _ => false

/-- The caller of `c` on the loop. -/
def shielded (c : Coroutine α ε l ρ) : System (Loop α ε l ρ) (LoopAction α ε) where
  init s := ∃ cancelled, s = Loop.begin_ c cancelled
  step s
    | .cancel => some s.cancel
    | .complete f =>
      if s.task.done = false ∧ f.done = true then
        some { s with task := f, observers := [], ready := s.ready ++ s.observers.map .propagate }
      else none
    | .run i =>
      match s.ready[i]? with
      | none => none
      | some callback => some ({ s with ready := s.ready.eraseIdx i }.call c callback)

variable {c : Coroutine α ε l ρ} {s t : Loop α ε l ρ}

/-- What a coroutine keeps of its locals, by whether a cancellation was raised in it, and how it ends:
by the task and by whether the caller was cancelled. -/
structure Coroutine.Meets (c : Coroutine α ε l ρ) (J : l → Bool → Prop) (R : Future α ε → Bool → ρ → Prop) :
    Prop where
  start : J c.start false
  again : ∀ {locals b locals'}, J locals b → c.resume locals .pending .cancelledError = .inl locals' →
    J locals' true
  cancelled : ∀ {locals b task r}, J locals b → c.resume locals task .cancelledError = .inr r → R task true r
  heard : ∀ {locals b task input r}, J locals b → task.awaited = some input →
    c.resume locals task input = .inr r → R task b r

namespace Loop

/-- The shields whose end wakes the caller. -/
def wakeups (ready : List Callback) : List Nat :=
  ready.filterMap fun
    | .wakeup k => some k
    | _ => none

/-- Where the caller stands: its last shield is pending, or has ended and wakes it, or the caller has
ended. -/
inductive Phase (J : l → Bool → Prop) (R : Future α ε → Bool → ρ → Prop) (s : Loop α ε l ρ) : Prop where
  | waiting (locals : l) (k : Nat) (caller : s.caller = .waiting locals (.shield k))
      (last : k + 1 = s.shields.length) (pending : s.shields[k]? = some .pending)
      (asleep : wakeups s.ready = []) (quiet : s.mustCancel = false)
      (observed : s.task.done = false → k ∈ s.observers)
      (told : s.task.done = true → .propagate k ∈ s.ready) (holds : J locals (decide (0 < s.cancels)))
      (few : s.shields.length ≤ s.cancels + 1)
  | woken (locals : l) (k : Nat) (f : Future α ε) (caller : s.caller = .waiting locals (.shield k))
      (last : k + 1 = s.shields.length) (ended : s.shields[k]? = some f) (done : f.done = true)
      (awake : wakeups s.ready = [k])
      (why : (0 < s.cancels ∧ (f = .cancelled ∨ s.mustCancel = true) ∧ ∃ b, J locals b) ∨
        (s.mustCancel = false ∧ f = s.task ∧ J locals (decide (0 < s.cancels))))
      (few : s.shields.length ≤ s.cancels + 1) (fewer : s.task.done = false → s.shields.length ≤ s.cancels)
  | ended (r : ρ) (task : Future α ε) (caller : s.caller = .ended r) (asleep : wakeups s.ready = [])
      (same : task.done = true → s.task = task) (holds : R task (decide (0 < s.cancels)) r)
      (few : s.shields.length ≤ s.cancels + 1)

/-- A shield is pending only while the caller awaits it. -/
def Only (s : Loop α ε l ρ) : Prop :=
  ∀ k, s.shields[k]? = some .pending → ∃ locals, s.caller = .waiting locals (.shield k)

/-- Shields are detached from the task after their end. -/
def Detached (s : Loop α ε l ρ) : Prop :=
  ∀ k, .detach k ∈ s.ready → ∃ f, s.shields[k]? = some f ∧ f.done = true

/-- What every step of the loop keeps. -/
structure Sound (J : l → Bool → Prop) (R : Future α ε → Bool → ρ → Prop) (s : Loop α ε l ρ) : Prop where
  phase : Phase J R s
  only : Only s
  detached : Detached s
  spared : s.taskCancels = 0
  passed : ∀ k, .propagate k ∈ s.ready → s.task.done = true

variable {J : l → Bool → Prop} {R : Future α ε → Bool → ρ → Prop}

/-- A pending shield takes the result, and schedules the detachment and the wakeup of its task. -/
theorem finishShield_pending {k : Nat} (f : Future α ε) (h : s.shields[k]? = some .pending) :
    s.finishShield k f =
    { s with shields := s.shields.set k f, ready := s.ready ++ [.detach k, .wakeup k] } := by
  unfold finishShield
  rw [h]

/-- A shield that is done keeps its result. -/
theorem finishShield_done {k : Nat} (f : Future α ε) (h : s.shields[k]? ≠ some .pending) :
    s.finishShield k f = s := by
  unfold finishShield
  split
  · next pending => exact absurd pending h
  · rfl

theorem wakeups_append (first last : List Callback) :
    wakeups (first ++ last) = wakeups first ++ wakeups last :=
  List.filterMap_append

theorem wakeups_propagate (shields : List Nat) : wakeups (shields.map .propagate) = [] := by
  unfold wakeups
  rw [List.filterMap_map]
  exact List.filterMap_eq_nil_iff.2 fun _ _ => rfl

/-- The callbacks around the one that runs. -/
theorem split_ready {ready : List Callback} {i : Nat} {callback : Callback} (h : ready[i]? = some callback) :
    ∃ before after, ready = before ++ callback :: after ∧ ready.eraseIdx i = before ++ after := by
  obtain ⟨lt, rfl⟩ := List.getElem?_eq_some_iff.1 h
  refine ⟨ready.take i, ready.drop (i + 1), ?_, List.eraseIdx_eq_take_drop_succ ready i⟩
  rw [List.getElem_cons_drop, List.take_append_drop]

/-- The last shield ends: it wakes the caller. -/
theorem phase_finishShield {locals : l} {k : Nat} {f : Future α ε}
    (caller : s.caller = .waiting locals (.shield k)) (last : k + 1 = s.shields.length)
    (pending : s.shields[k]? = some .pending) (asleep : wakeups s.ready = []) (done : f.done = true)
    (why : (0 < s.cancels ∧ (f = .cancelled ∨ s.mustCancel = true) ∧ ∃ b, J locals b) ∨
      (s.mustCancel = false ∧ f = s.task ∧ J locals (decide (0 < s.cancels))))
    (few : s.shields.length ≤ s.cancels + 1) (fewer : s.task.done = false → s.shields.length ≤ s.cancels) :
    Phase J R (s.finishShield k f) := by
  rw [finishShield_pending f pending]
  refine .woken locals k f caller ?_ ?_ done ?_ why ?_ ?_
  · rw [List.length_set]
    exact last
  · exact List.getElem?_set_self (by omega)
  · rw [wakeups_append, asleep]
    rfl
  · rw [List.length_set]
    exact few
  · rw [List.length_set]
    exact fewer

/-- A new shield is awaited. -/
theorem phase_awaitShield {locals : l} (pending : s.task = .pending) (asleep : wakeups s.ready = [])
    (why : (s.mustCancel = false ∧ J locals (decide (0 < s.cancels)) ∧ s.shields.length ≤ s.cancels) ∨
      (s.mustCancel = true ∧ 0 < s.cancels ∧ (∃ b, J locals b) ∧ s.shields.length + 1 ≤ s.cancels)) :
    Phase J R (s.awaitShield c locals) := by
  unfold awaitShield
  rw [pending]
  dsimp only [Future.awaited]
  rcases why with ⟨quiet, holds, few⟩ | ⟨must, some_, holds, few⟩
  · rw [if_neg (by rw [quiet]; exact Bool.false_ne_true)]
    refine .waiting locals s.shields.length rfl ?_ List.getElem?_concat_length asleep quiet (fun _ => ?_)
      (fun done => ?_) holds ?_
    · rw [List.length_append, List.length_singleton]
    · exact List.mem_append_right _ (List.mem_singleton_self _)
    · cases done
    · rw [List.length_append, List.length_singleton]
      exact Nat.succ_le_succ few
  · rw [if_pos must]
    refine phase_finishShield (rfl : _ = Position.waiting locals (.shield s.shields.length)) ?_
      List.getElem?_concat_length asleep rfl (.inl ⟨some_, .inl rfl, holds⟩) ?_ fun _ => ?_
    · rw [List.length_append, List.length_singleton]
    · rw [List.length_append, List.length_singleton]
      exact Nat.le_succ_of_le few
    · rw [List.length_append, List.length_singleton]
      exact few

/-- What the caller's steps leave alone: the task, the cancellations, and the callbacks of the task's end. -/
structure Frame (s t : Loop α ε l ρ) : Prop where
  task : t.task = s.task
  cancels : t.cancels = s.cancels
  spared : t.taskCancels = s.taskCancels
  passed : ∀ j, .propagate j ∈ t.ready → .propagate j ∈ s.ready

theorem frame_finishShield (k : Nat) (f : Future α ε) : Frame s (s.finishShield k f) := by
  unfold finishShield
  split
  · refine ⟨rfl, rfl, rfl, fun j mem => ?_⟩
    rcases List.mem_append.1 mem with there | new
    · exact there
    · simp at new
  · exact ⟨rfl, rfl, rfl, fun _ mem => mem⟩

theorem frame_awaitShield (locals : l) : Frame s (s.awaitShield c locals) := by
  unfold awaitShield
  split
  · split <;> exact ⟨rfl, rfl, rfl, fun _ mem => mem⟩
  · dsimp only
    split
    · have framed := frame_finishShield (s := { s with
        mustCancel := false, shields := s.shields ++ [Future.pending],
        observers := s.observers ++ [s.shields.length],
        caller := (.waiting locals (.shield s.shields.length) : Position l ρ) }) s.shields.length .cancelled
      exact ⟨framed.task, framed.cancels, framed.spared, framed.passed⟩
    · exact ⟨rfl, rfl, rfl, fun _ mem => mem⟩

theorem frame_resume (input : Awaited α ε) : Frame s (s.resume c input) := by
  unfold resume
  split
  · exact ⟨rfl, rfl, rfl, fun _ mem => mem⟩
  · dsimp only
    split
    · next locals _ =>
      have framed := frame_awaitShield (c := c) (s := { s with mustCancel := false }) locals
      exact ⟨framed.task, framed.cancels, framed.spared, framed.passed⟩
    · exact ⟨rfl, rfl, rfl, fun _ mem => mem⟩

/-- The caller goes on: it awaits a new shield only while the task is pending. -/
theorem phase_resume (meets : c.Meets J R) {locals : l} {w : Waiter} {f : Future α ε} {input : Awaited α ε}
    (caller : s.caller = .waiting locals w) (heard : f.awaited = some input) (asleep : wakeups s.ready = [])
    (why : (0 < s.cancels ∧ (f = .cancelled ∨ s.mustCancel = true) ∧ ∃ b, J locals b) ∨
      (s.mustCancel = false ∧ f = s.task ∧ J locals (decide (0 < s.cancels))))
    (few : s.shields.length ≤ s.cancels + 1) (fewer : s.task.done = false → s.shields.length ≤ s.cancels) :
    Phase J R (s.resume c input) := by
  unfold resume
  rw [caller]
  dsimp only
  rcases why with ⟨some_, raised, b, holds⟩ | ⟨quiet, rfl, holds⟩
  · have same : (if s.mustCancel = true then Awaited.cancelledError else input) = .cancelledError := by
      rcases raised with rfl | must
      · cases heard
        exact ite_self _
      · exact if_pos must
    rw [same]
    cases next : c.resume locals s.task .cancelledError with
    | inl locals' =>
      have pending : s.task = .pending := by
        apply Future.eq_pending.1
        by_contra done
        obtain ⟨r, ends⟩ := c.ends locals .cancelledError (Bool.not_eq_false _ ▸ done)
        cases next.symm.trans ends
      have kept : J locals' true := meets.again holds (pending ▸ next)
      refine phase_awaitShield (s := { s with mustCancel := false }) pending asleep (.inl ⟨rfl, ?_, ?_⟩)
      · rw [decide_eq_true some_]
        exact kept
      · exact fewer (by rw [pending]; rfl)
    | inr r =>
      refine .ended r s.task rfl asleep (fun _ => rfl) ?_ few
      rw [decide_eq_true some_]
      exact meets.cancelled holds next
  · rw [quiet]
    obtain ⟨r, ends⟩ := c.ends locals input (Future.done_of_awaited heard)
    rw [if_neg Bool.false_ne_true, ends]
    exact .ended r s.task rfl asleep (fun _ => rfl) (meets.heard holds heard ends) few

theorem only_finishShield {k : Nat} {f : Future α ε} (done : f.done = true) (only : Only s) :
    Only (s.finishShield k f) := by
  intro j pending
  by_cases last : s.shields[k]? = some .pending
  · rw [finishShield_pending f last] at pending ⊢
    dsimp only at pending ⊢
    rw [List.getElem?_set] at pending
    split at pending
    · split at pending
      · cases pending
        cases done
      · cases pending
    · exact only j pending
  · rw [finishShield_done f last] at pending ⊢
    exact only j pending

theorem detached_finishShield {k : Nat} {f : Future α ε} (done : f.done = true) (detached : Detached s) :
    Detached (s.finishShield k f) := by
  intro j mem
  by_cases last : s.shields[k]? = some .pending
  · rw [finishShield_pending f last] at mem ⊢
    dsimp only at mem ⊢
    obtain ⟨less, -⟩ := List.getElem?_eq_some_iff.1 last
    by_cases here : k = j
    · subst here
      exact ⟨f, List.getElem?_set_self less, done⟩
    · rw [List.getElem?_set_ne here]
      rcases List.mem_append.1 mem with there | new
      · exact detached j there
      · rcases List.mem_cons.1 new with same | new
        · cases same
          exact absurd rfl here
        · cases List.mem_singleton.1 new
  · rw [finishShield_done f last] at mem ⊢
    exact detached j mem

theorem only_awaitShield {locals : l} (none_ : ∀ j : Nat, s.shields[j]? ≠ some Future.pending) :
    Only (s.awaitShield c locals) := by
  have added : ∀ j, (s.shields ++ [Future.pending])[j]? = some .pending →
      ∃ locals', (.waiting locals (.shield s.shields.length) : Position l ρ) =
        .waiting locals' (.shield j) := by
    intro j pending
    rcases Nat.lt_trichotomy j s.shields.length with less | rfl | more
    · rw [List.getElem?_append_left less] at pending
      exact absurd pending (none_ j)
    · exact ⟨locals, rfl⟩
    · rw [List.getElem?_eq_none (by rw [List.length_append, List.length_singleton]; omega)] at pending
      cases pending
  unfold awaitShield
  split
  · split <;> exact fun j pending => absurd pending (none_ j)
  · dsimp only
    split
    · exact only_finishShield rfl added
    · exact added

theorem detached_awaitShield {locals : l} (detached : Detached s) : Detached (s.awaitShield c locals) := by
  have added : ∀ j, .detach j ∈ s.ready → ∃ f, (s.shields ++ [Future.pending])[j]? = some f ∧
      f.done = true := by
    intro j mem
    obtain ⟨f, there, done⟩ := detached j mem
    obtain ⟨less, -⟩ := List.getElem?_eq_some_iff.1 there
    exact ⟨f, (List.getElem?_append_left less).trans there, done⟩
  unfold awaitShield
  split
  · split <;> exact detached
  · dsimp only
    split
    · exact detached_finishShield rfl added
    · exact added

theorem only_resume {input : Awaited α ε} (none_ : ∀ j : Nat, s.shields[j]? ≠ some Future.pending) :
    Only (s.resume c input) := by
  unfold resume
  split
  · exact fun j pending => absurd pending (none_ j)
  · dsimp only
    split
    · exact only_awaitShield none_
    · exact fun j pending => absurd pending (none_ j)

theorem detached_resume {input : Awaited α ε} (detached : Detached s) : Detached (s.resume c input) := by
  unfold resume
  split
  · exact detached
  · dsimp only
    split
    · exact detached_awaitShield detached
    · exact detached

/-- A new task is sound. -/
theorem sound_begin (meets : c.Meets J R) (cancelled : Bool) : Sound J R (begin_ c cancelled) := by
  refine ⟨phase_awaitShield rfl rfl ?_, only_awaitShield fun j none_ => ?_,
    detached_awaitShield fun j mem => ?_, (frame_awaitShield _).spared, fun k mem => ?_⟩
  · cases cancelled with
    | false => exact .inl ⟨rfl, meets.start, Nat.le_refl 0⟩
    | true => exact .inr ⟨rfl, Nat.zero_lt_one, ⟨false, meets.start⟩, Nat.le_refl 1⟩
  · cases none_
  · cases mem
  · cases (frame_awaitShield _).passed k mem

/-- A cancellation keeps the loop sound. -/
theorem sound_cancel (sound : Sound J R s) : Sound J R s.cancel := by
  cases sound.phase with
  | waiting locals k caller last pending asleep quiet observed told holds few =>
    have same : s.cancel = { s with cancels := s.cancels + 1 }.finishShield k .cancelled := by
      unfold cancel
      rw [caller]
      dsimp only
      rw [pending]
    have framed := frame_finishShield (s := { s with cancels := s.cancels + 1 }) k .cancelled
    rw [same]
    refine ⟨phase_finishShield caller last pending asleep rfl ?_ ?_ fun _ => few,
      only_finishShield rfl sound.only,
      detached_finishShield rfl sound.detached, framed.spared.trans sound.spared, fun j mem => ?_⟩
    · exact .inl ⟨Nat.succ_pos _, .inl rfl, _, holds⟩
    · exact Nat.le_succ_of_le few
    · rw [framed.task]
      exact sound.passed j (framed.passed j mem)
  | woken locals k f caller last ended done awake why few fewer =>
    have same : s.cancel = { s with cancels := s.cancels + 1, mustCancel := true } := by
      unfold cancel
      rw [caller]
      dsimp only
      rw [ended]
      cases f with
      | pending => cases done
      | _ => rfl
    have holds : ∃ b, J locals b := by
      rcases why with ⟨-, -, holds⟩ | ⟨-, -, holds⟩
      · exact holds
      · exact ⟨_, holds⟩
    rw [same]
    refine ⟨.woken locals k f caller last ended done awake ?_ ?_ fun open_ => ?_, sound.only,
      sound.detached, sound.spared, sound.passed⟩
    · exact .inl ⟨Nat.succ_pos _, .inr rfl, holds⟩
    · exact Nat.le_succ_of_le few
    · exact Nat.le_succ_of_le (fewer open_)
  | ended r task caller asleep same holds few =>
    have unchanged : s.cancel = s := by
      unfold cancel
      rw [caller]
    rw [unchanged]
    exact sound

/-- The end of the inner task keeps the loop sound. -/
theorem sound_complete {f : Future α ε} (sound : Sound J R s) (open_ : s.task.done = false)
    (done : f.done = true) :
    Sound J R { s with task := f, observers := [], ready := s.ready ++ s.observers.map .propagate } := by
  have calm : wakeups (s.ready ++ s.observers.map .propagate) = wakeups s.ready := by
    rw [wakeups_append, wakeups_propagate, List.append_nil]
  refine ⟨?_, sound.only, fun k mem => ?_, sound.spared, fun k _ => done⟩
  · cases sound.phase with
    | waiting locals k caller last pending asleep quiet observed told holds few =>
      refine .waiting locals k caller last pending (calm.trans asleep) quiet (fun never => ?_) (fun _ => ?_)
        holds few
      · cases done.symm.trans never
      · exact List.mem_append_right _ (List.mem_map_of_mem (observed open_))
    | woken locals k g caller last ended hg awake why few fewer =>
      refine .woken locals k g caller last ended hg (calm.trans awake) ?_ few fun never => ?_
      · rcases why with first | ⟨-, rfl, -⟩
        · exact .inl first
        · cases open_.symm.trans hg
      · cases done.symm.trans never
    | ended r task caller asleep same holds few =>
      refine .ended r task caller (calm.trans asleep) (fun before => ?_) holds few
      cases open_.symm.trans (same before ▸ before)
  · rcases List.mem_append.1 mem with there | new
    · exact sound.detached k there
    · simp at new

/-! ## A ready callback runs -/

section Dequeue
variable {before after : List Callback} {callback : Callback}

theorem wakeups_silent (silent : ∀ k, callback ≠ .wakeup k) :
    wakeups (before ++ after) = wakeups (before ++ callback :: after) := by
  rw [wakeups_append, wakeups_append]
  cases callback with
  | wakeup k => exact absurd rfl (silent k)
  | propagate | detach => rfl

theorem mem_ready_of_rest {other : Callback} (mem : other ∈ before ++ after) :
    other ∈ before ++ callback :: after := by
  rcases List.mem_append.1 mem with first | rest
  · exact List.mem_append_left _ first
  · exact List.mem_append_right _ (List.mem_cons_of_mem _ rest)

theorem mem_rest_of_ne {other : Callback} (ne : other ≠ callback)
    (mem : other ∈ before ++ callback :: after) :
    other ∈ before ++ after := by
  rcases List.mem_append.1 mem with first | rest
  · exact List.mem_append_left _ first
  · exact List.mem_append_right _ ((List.mem_cons.1 rest).resolve_left ne)

/-- The only wakeup that is ready leaves the queue. -/
theorem wakeups_woken {j k : Nat} (awake : wakeups (before ++ .wakeup k :: after) = [j]) :
    j = k ∧ wakeups (before ++ after) = [] := by
  have counted : wakeups before ++ k :: wakeups after = [j] := by
    rw [wakeups_append] at awake
    exact awake
  rw [wakeups_append]
  cases hb : wakeups before with
  | nil =>
    rw [hb, List.nil_append] at counted
    obtain ⟨same, rest⟩ := List.cons.inj counted
    exact ⟨same.symm, rest⟩
  | cons x xs =>
    rw [hb] at counted
    have lengths := congrArg List.length counted
    simp at lengths

/-- A callback leaves the queue that neither wakes the caller nor is the one the last shield ends by; the task
stops to observe other shields. -/
theorem Phase.dequeue (phase : Phase J R s) {observers : List Nat}
    (split : s.ready = before ++ callback :: after) (silent : ∀ k, callback ≠ .wakeup k)
    (others : ∀ k, s.shields[k]? = some .pending → callback ≠ .propagate k ∧
      (k ∈ s.observers → k ∈ observers)) :
    Phase J R { s with observers := observers, ready := before ++ after } := by
  have calm : wakeups (before ++ after) = wakeups s.ready := by
    rw [split]
    exact wakeups_silent silent
  cases phase with
  | waiting locals k caller last pending asleep quiet observed told holds few =>
    obtain ⟨other, still⟩ := others k pending
    refine .waiting locals k caller last pending (calm.trans asleep) quiet (fun open_ => ?_)
      (fun done => ?_) holds few
    · exact still (observed open_)
    · exact mem_rest_of_ne other.symm (split ▸ told done)
  | woken locals k f caller last ended hf awake why few fewer =>
    exact .woken locals k f caller last ended hf (calm.trans awake) why few fewer
  | ended r task caller asleep same holds few => exact .ended r task caller (calm.trans asleep) same holds few

/-- Callbacks that are taken from the queue leave shields detached. -/
theorem Detached.dequeue (detached : Detached s) (split : s.ready = before ++ callback :: after) :
    Detached { s with ready := before ++ after } :=
  fun k mem => detached k (split ▸ mem_ready_of_rest mem)

theorem sound_dequeue (sound : Sound J R s) {observers : List Nat}
    (split : s.ready = before ++ callback :: after) (silent : ∀ k, callback ≠ .wakeup k)
    (others : ∀ k, s.shields[k]? = some .pending → callback ≠ .propagate k ∧
      (k ∈ s.observers → k ∈ observers)) :
    Sound J R { s with observers := observers, ready := before ++ after } :=
  ⟨sound.phase.dequeue split silent others, sound.only, sound.detached.dequeue split, sound.spared,
    fun k mem => sound.passed k (split ▸ mem_ready_of_rest mem)⟩

/-- The task's end is passed on: the shield ends if the caller still awaits it. -/
theorem sound_propagate {k : Nat} (sound : Sound J R s) (split : s.ready = before ++ .propagate k :: after) :
    Sound J R ({ s with ready := before ++ after }.finishShield k s.task) := by
  have silent : ∀ j, Callback.propagate k ≠ .wakeup j := by
    rintro j ⟨⟩
  have done : s.task.done = true := sound.passed k (split ▸ List.mem_append_right _ List.mem_cons_self)
  have framed := frame_finishShield (s := { s with ready := before ++ after }) k s.task
  by_cases pending : s.shields[k]? = some .pending
  · refine ⟨?_, only_finishShield done sound.only, detached_finishShield done (sound.detached.dequeue split),
      framed.spared.trans sound.spared, fun j mem => ?_⟩
    · obtain ⟨locals, waits⟩ := sound.only k pending
      have calm : wakeups (before ++ after) = wakeups s.ready := by
        rw [split]
        exact wakeups_silent silent
      cases sound.phase with
      | waiting locals j caller last _ asleep quiet observed told holds few =>
        cases waits.symm.trans caller
        refine phase_finishShield caller last pending (calm.trans asleep) done (.inr ⟨quiet, rfl, holds⟩)
          few fun open_ => ?_
        cases done.symm.trans open_
      | woken locals j f caller last ended hf awake why few fewer =>
        cases waits.symm.trans caller
        cases ended.symm.trans pending
        cases hf
      | ended r task caller asleep same holds few => cases waits.symm.trans caller
    · rw [framed.task]
      exact done
  · rw [finishShield_done _ (by exact pending)]
    refine sound_dequeue sound split silent fun j open_ => ⟨?_, id⟩
    rintro ⟨⟩
    exact pending open_

/-- A shield that has ended is no longer told of the task's end. -/
theorem sound_detach {k : Nat} (sound : Sound J R s) (split : s.ready = before ++ .detach k :: after) :
    Sound J R ({ s with ready := before ++ after }.call c (.detach k)) := by
  have silent : ∀ j, Callback.detach k ≠ .wakeup j := by
    rintro j ⟨⟩
  have other : ∀ j, Callback.detach k ≠ .propagate j := by
    rintro j ⟨⟩
  change Sound J R (if s.task.done = true then { s with ready := before ++ after }
    else { s with ready := before ++ after, observers := s.observers.erase k })
  split_ifs with done
  · exact sound_dequeue sound split silent fun j _ => ⟨other j, id⟩
  · refine sound_dequeue sound split silent fun j pending => ⟨other j, (List.mem_erase_of_ne ?_).2⟩
    rintro rfl
    obtain ⟨f, there, ended⟩ := sound.detached j (split ▸ List.mem_append_right _ List.mem_cons_self)
    cases there.symm.trans pending
    cases ended

/-- The caller is woken: its last shield has ended. -/
theorem sound_wakeup {k : Nat} (meets : c.Meets J R) (sound : Sound J R s)
    (split : s.ready = before ++ .wakeup k :: after) :
    Sound J R ({ s with ready := before ++ after }.call c (.wakeup k)) := by
  have awaited : wakeups s.ready ≠ [] := by
    rw [split, wakeups_append]
    exact List.append_ne_nil_of_right_ne_nil _ (List.cons_ne_nil _ _)
  cases sound.phase with
  | waiting locals j caller last pending asleep quiet observed told holds few => exact absurd asleep awaited
  | ended r task caller asleep same holds few => exact absurd asleep awaited
  | woken locals j f caller last ended hf awake why few fewer =>
    obtain ⟨rfl, calm⟩ := wakeups_woken (split ▸ awake)
    obtain ⟨input, heard⟩ := Future.awaited_of_done hf
    have same : ({ s with ready := before ++ after } : Loop α ε l ρ).call c (.wakeup j) =
        { s with ready := before ++ after }.resume c input := by
      unfold call
      dsimp only
      rw [ended, Option.bind_some, heard]
    have none_ : ∀ i : Nat, ({ s with ready := before ++ after } : Loop α ε l ρ).shields[i]? ≠
        some Future.pending := by
      intro i pending
      obtain ⟨_, waits⟩ := sound.only i pending
      cases caller.symm.trans waits
      cases ended.symm.trans pending
      cases hf
    have framed := frame_resume (c := c) (s := { s with ready := before ++ after }) input
    rw [same]
    refine ⟨phase_resume meets caller heard calm why few fewer, only_resume none_,
      detached_resume (sound.detached.dequeue split), framed.spared.trans sound.spared, fun i mem => ?_⟩
    rw [framed.task]
    exact sound.passed i (split ▸ mem_ready_of_rest (framed.passed i mem))

/-- A callback has left the queue. -/
theorem sound_run (meets : c.Meets J R) (sound : Sound J R s)
    (split : s.ready = before ++ callback :: after) :
    Sound J R ({ s with ready := before ++ after }.call c callback) := by
  cases callback with
  | propagate k => exact sound_propagate sound split
  | detach k => exact sound_detach sound split
  | wakeup k => exact sound_wakeup meets sound split

end Dequeue

/-! ## Every callback runs -/

/-- The callbacks that are ready or may become so. -/
def weight (s : Loop α ε l ρ) : Nat :=
  s.observers.length + s.ready.length + 2 * s.shields.countP fun f => !f.done

/-- Finishing a shield adds no weight. -/
theorem weight_finishShield {k : Nat} {f : Future α ε} (done : f.done = true) :
    (s.finishShield k f).weight = s.weight ∧ (s.finishShield k f).shields.length = s.shields.length := by
  by_cases pending : s.shields[k]? = some .pending
  · obtain ⟨less, here⟩ := List.getElem?_eq_some_iff.1 pending
    have counted : 0 < s.shields.countP fun f => !f.done := by
      refine List.countP_pos_iff.2 ⟨_, List.getElem_mem less, ?_⟩
      rw [here]
      rfl
    rw [finishShield_pending f pending]
    refine ⟨?_, List.length_set⟩
    unfold weight
    dsimp only
    have open_ : (Future.pending : Future α ε).done = false := rfl
    rw [List.countP_set less, here, done, open_, List.length_append]
    simp only [Bool.not_false, Bool.not_true, if_true, Bool.false_eq_true, if_false, List.length_cons,
      List.length_nil]
    omega
  · rw [finishShield_done f pending]
    exact ⟨rfl, rfl⟩

/-- A new shield brings three callbacks. -/
theorem weight_awaitShield (locals : l) :
    (s.awaitShield c locals).weight + 3 * s.shields.length =
      s.weight + 3 * (s.awaitShield c locals).shields.length := by
  have added :
      ({ s with shields := s.shields ++ [Future.pending], observers := s.observers ++ [s.shields.length] } :
      Loop α ε l ρ).weight = s.weight + 3 := by
    unfold weight
    dsimp only
    rw [List.countP_append, List.length_append]
    simp only [Future.done, List.countP_cons, List.countP_nil, List.length_cons, List.length_nil,
      Bool.not_false, if_true]
    omega
  unfold awaitShield
  split
  · split <;> rfl
  · dsimp only
    split
    · next must =>
      obtain ⟨same, length⟩ := weight_finishShield (s := { s with
        mustCancel := false, shields := s.shields ++ [Future.pending],
        observers := s.observers ++ [s.shields.length],
        caller := (.waiting locals (.shield s.shields.length) : Position l ρ) }) (k := s.shields.length)
          (f := .cancelled) rfl
      rw [same, length]
      change ({ s with
        shields := s.shields ++ [Future.pending], observers := s.observers ++ [s.shields.length] } :
        Loop α ε l ρ).weight + _ = _
      rw [added, List.length_append, List.length_singleton]
      omega
    · change ({ s with
        shields := s.shields ++ [Future.pending], observers := s.observers ++ [s.shields.length] } :
        Loop α ε l ρ).weight + _ = _
      rw [added, List.length_append, List.length_singleton]
      omega

/-- Resuming the task changes the weight by what the shield it awaits next brings. -/
theorem weight_resume (input : Awaited α ε) :
    (s.resume c input).weight + 3 * s.shields.length = s.weight + 3 * (s.resume c input).shields.length := by
  unfold resume
  split
  · rfl
  · dsimp only
    split
    · exact weight_awaitShield (s := { s with mustCancel := false }) _
    · rfl

/-- A callback that is called costs weight, but for what new shields bring. -/
theorem weight_call (passed : ∀ k, .propagate k ∈ s.ready → s.task.done = true)
    {before after : List Callback} {callback : Callback} (split : s.ready = before ++ callback :: after) :
    ({ s with ready := before ++ after }.call c callback).weight + 1 + 3 * s.shields.length ≤
      s.weight + 3 * ({ s with ready := before ++ after }.call c callback).shields.length := by
  have less : ({ s with ready := before ++ after } : Loop α ε l ρ).weight + 1 = s.weight := by
    unfold weight
    dsimp only
    rw [split, List.length_append, List.length_append, List.length_cons]
    omega
  cases callback with
  | propagate k =>
    obtain ⟨same, length⟩ := weight_finishShield (s := { s with ready := before ++ after }) (k := k)
      (passed k (split ▸ List.mem_append_right _ List.mem_cons_self))
    change (({ s with ready := before ++ after } : Loop α ε l ρ).finishShield k s.task).weight + _ + _ ≤
      _ + 3 * (({ s with ready := before ++ after } : Loop α ε l ρ).finishShield k s.task).shields.length
    exact Nat.le_of_eq (by rw [same, length, less])
  | detach k =>
    change (if s.task.done = true then ({ s with ready := before ++ after } : Loop α ε l ρ)
      else { s with ready := before ++ after, observers := s.observers.erase k }).weight + 1 +
        3 * s.shields.length ≤
        s.weight + 3 * (if s.task.done = true then ({ s with ready := before ++ after } : Loop α ε l ρ)
          else { s with ready := before ++ after, observers := s.observers.erase k }).shields.length
    split_ifs
    · exact Nat.le_of_eq (by rw [less])
    · have fewer := List.length_erase_le (a := k) (l := s.observers)
      have less' : ({ s with ready := before ++ after, observers := s.observers.erase k } :
        Loop α ε l ρ).weight ≤
          ({ s with ready := before ++ after } : Loop α ε l ρ).weight := by
        unfold weight
        dsimp only
        omega
      dsimp only
      omega
  | wakeup k =>
    change (match s.shields[k]?.bind Future.awaited with
      | some input => ({ s with ready := before ++ after } : Loop α ε l ρ).resume c input
      | none => { s with ready := before ++ after }).weight + 1 + 3 * s.shields.length ≤ s.weight + 3 * (match
        s.shields[k]?.bind Future.awaited with
          | some input => ({ s with ready := before ++ after } : Loop α ε l ρ).resume c input
          | none => { s with ready := before ++ after }).shields.length
    cases s.shields[k]?.bind Future.awaited with
    | none =>
      dsimp only
      omega
    | some input =>
      have same := weight_resume (c := c) (s := { s with ready := before ++ after }) input
      dsimp only at same ⊢
      omega

end Loop

open Loop

/-- The steps of the loop, and what each keeps. -/
theorem sound_step {J : l → Bool → Prop} {R : Future α ε → Bool → ρ → Prop} {a : LoopAction α ε}
    (meets : c.Meets J R) (sound : Sound J R s) (step : (shielded c).step s a = some t) : Sound J R t := by
  cases a with
  | cancel =>
    cases step
    exact sound_cancel sound
  | complete f =>
    change (if s.task.done = false ∧ f.done = true then _ else none) = some t at step
    split_ifs at step with h
    cases step
    exact sound_complete sound h.1 h.2
  | run i =>
    change (match s.ready[i]? with | none => none | some callback => _) = some t at step
    cases found : s.ready[i]? with
    | none =>
      rw [found] at step
      cases step
    | some callback =>
      rw [found] at step
      cases step
      obtain ⟨before, after, split, erased⟩ := split_ready found
      rw [erased]
      exact sound_run meets sound split

/-- Every run keeps the loop sound. -/
theorem sound_exec {J : l → Bool → Prop} {R : Future α ε → Bool → ρ → Prop} {labels : List (LoopAction α ε)}
    (meets : c.Meets J R) (sound : Sound J R s) (run : (shielded c).exec s labels = some t) : Sound J R t :=
  (System.run_of_exec run).invariant (I := Sound J R)
    (fun _ _ _ kept _ step => sound_step meets kept step) sound

/-- A step that runs a callback costs weight, but for what new shields bring. -/
theorem weight_step {a : LoopAction α ε} (passed : ∀ k, .propagate k ∈ s.ready → s.task.done = true)
    (step : (shielded c).step s a = some t) :
    t.weight + (if a.isRun then 1 else 0) + 3 * s.shields.length ≤ s.weight + 3 * t.shields.length := by
  cases a with
  | cancel =>
    cases step
    change s.cancel.weight + 0 + 3 * s.shields.length ≤ s.weight + 3 * s.cancel.shields.length
    unfold Loop.cancel
    split
    · exact Nat.le_refl _
    · exact Nat.le_refl _
    · split
      · next k _ _ _ =>
        obtain ⟨same, length⟩ :=
          weight_finishShield (s := { s with cancels := s.cancels + 1 }) (k := k) (f := .cancelled) rfl
        exact Nat.le_of_eq (by rw [same, length]; rfl)
      · exact Nat.le_refl _
  | complete f =>
    change (if s.task.done = false ∧ f.done = true then _ else none) = some t at step
    split_ifs at step with h
    cases step
    unfold weight
    dsimp only
    have other : (LoopAction.complete f).isRun = false := rfl
    rw [List.length_append, List.length_map, List.length_nil, other, if_neg Bool.false_ne_true]
    omega
  | run i =>
    change (match s.ready[i]? with | none => none | some callback => _) = some t at step
    cases found : s.ready[i]? with
    | none =>
      rw [found] at step
      cases step
    | some callback =>
      rw [found] at step
      cases step
      obtain ⟨before, after, split, erased⟩ := split_ready found
      rw [erased]
      exact weight_call passed split

/-- The callbacks that run are bounded by the shields, and these by the cancellations. -/
theorem runs_le {J : l → Bool → Prop} {R : Future α ε → Bool → ρ → Prop} {labels : List (LoopAction α ε)}
    (meets : c.Meets J R) (sound : Sound J R s) (run : (shielded c).exec s labels = some t) :
    t.weight + labels.countP LoopAction.isRun + 3 * s.shields.length ≤ s.weight + 3 * t.shields.length := by
  induction labels generalizing s with
  | nil =>
    cases run
    exact Nat.le_refl _
  | cons a labels ih =>
    rw [System.exec_cons] at run
    obtain ⟨u, step, rest⟩ := Option.bind_eq_some_iff.1 run
    have first := weight_step sound.passed step
    have later := ih (sound_step meets sound step) rest
    rw [List.countP_cons]
    omega

/-- The last shields are as few as the cancellations. -/
theorem Loop.Sound.few {J : l → Bool → Prop} {R : Future α ε → Bool → ρ → Prop} (sound : Sound J R s) :
    s.shields.length ≤ s.cancels + 1 := by
  cases sound.phase <;> assumption

/-- Where nothing is ready and the task is done, the caller has ended. -/
theorem Loop.Sound.quiet {J : l → Bool → Prop} {R : Future α ε → Bool → ρ → Prop} (sound : Sound J R s)
    (done : s.task.done = true) (ready : s.ready = []) : ∃ r, s.caller = .ended r := by
  cases sound.phase with
  | waiting locals k caller last pending asleep quiet observed told holds few =>
    have mem := told done
    rw [ready] at mem
    cases mem
  | woken locals k f caller last ended hf awake why few fewer =>
    rw [ready] at awake
    cases awake
  | ended r task caller asleep same holds few => exact ⟨r, caller⟩

/-- A step changes the task only at its end, and counts a cancellation of a caller that has not ended. -/
theorem step_frame {a : LoopAction α ε} (step : (shielded c).step s a = some t) :
    (t.task = s.task ∨ ∃ f, a = .complete f ∧ s.task.done = false ∧ t.task = f ∧ f.done = true) ∧
      (0 < t.cancels ↔ 0 < s.cancels ∨ a = .cancel ∧ ∀ r, s.caller ≠ .ended r) := by
  cases a with
  | cancel =>
    cases step
    unfold Loop.cancel
    split
    · next r ended =>
      refine ⟨.inl rfl, .inl, ?_⟩
      rintro (some_ | ⟨-, waits⟩)
      · exact some_
      · exact absurd ended (waits r)
    · next waits =>
        exact ⟨.inl rfl, iff_of_true (Nat.succ_pos _)
          (.inr ⟨rfl, fun r ended => by cases waits.symm.trans ended⟩)⟩
    · next waits =>
      have counts : 0 < s.cancels ∨ (LoopAction.cancel : LoopAction α ε) = .cancel ∧
          ∀ r, s.caller ≠ .ended r :=
        .inr ⟨rfl, fun r ended => by cases waits.symm.trans ended⟩
      split
      · next k _ _ =>
        have framed := frame_finishShield (s := { s with cancels := s.cancels + 1 }) k .cancelled
        rw [framed.task, framed.cancels]
        exact ⟨.inl rfl, iff_of_true (Nat.succ_pos _) counts⟩
      · exact ⟨.inl rfl, iff_of_true (Nat.succ_pos _) counts⟩
  | complete f =>
    change (if s.task.done = false ∧ f.done = true then _ else none) = some t at step
    split_ifs at step with h
    cases step
    exact ⟨.inr ⟨f, rfl, h.1, rfl, h.2⟩, .inl,
      fun counts => counts.resolve_right fun never => nomatch never.1⟩
  | run i =>
    change (match s.ready[i]? with | none => none | some callback => _) = some t at step
    cases found : s.ready[i]? with
    | none =>
      rw [found] at step
      cases step
    | some callback =>
      rw [found] at step
      cases step
      have framed : (({ s with ready := s.ready.eraseIdx i } : Loop α ε l ρ).call c callback).task = s.task ∧
          (({ s with ready := s.ready.eraseIdx i } : Loop α ε l ρ).call c callback).cancels = s.cancels := by
        unfold Loop.call
        split
        · exact ⟨(frame_finishShield _ _).task, (frame_finishShield _ _).cancels⟩
        · split_ifs <;> exact ⟨rfl, rfl⟩
        · split
          · exact ⟨(frame_resume _).task, (frame_resume _).cancels⟩
          · exact ⟨rfl, rfl⟩
      rw [framed.1, framed.2]
      exact ⟨.inl rfl, .inl, fun counts => counts.resolve_right fun never => nomatch never.1⟩

def LoopAction.isComplete : LoopAction α ε → Bool
  | complete _ => true
  | _ => false

/-- The task ends at most once, and stays as it ended. -/
theorem completes_once {labels : List (LoopAction α ε)} (run : (shielded c).exec s labels = some t) :
    (s.task.done = true → t.task = s.task) ∧ labels.countP LoopAction.isComplete ≤
      (if s.task.done = true then 0 else 1) ∧
      ∀ f, .complete f ∈ labels → t.task = f := by
  induction labels generalizing s with
  | nil =>
    cases run
    exact ⟨fun _ => rfl, Nat.zero_le _, fun f mem => by cases mem⟩
  | cons a labels ih =>
    rw [System.exec_cons] at run
    obtain ⟨u, step, rest⟩ := Option.bind_eq_some_iff.1 run
    obtain ⟨kept, once, ends⟩ := ih rest
    rcases (step_frame step).1 with same | ⟨f, rfl, open_, same, done⟩
    · rw [same] at kept once
      have other : a.isComplete = false := by
        cases a with
        | complete f =>
          change (if s.task.done = false ∧ f.done = true then _ else none) = some u at step
          split_ifs at step with h
          cases step
          have never : s.task.done = true := (congrArg Future.done same).symm.trans h.2
          cases h.1.symm.trans never
        | _ => rfl
      refine ⟨kept, ?_, fun f mem => ?_⟩
      · rw [List.countP_cons_of_neg (by rw [other]; exact Bool.false_ne_true)]
        exact once
      · rcases List.mem_cons.1 mem with rfl | mem
        · cases other
        · exact ends f mem
    · have closed : t.task = f := (kept (same ▸ done)).trans same
      rw [same, if_pos done] at once
      refine ⟨fun never => ?_, ?_, fun g mem => ?_⟩
      · cases open_.symm.trans never
      · rw [List.countP_cons_of_pos rfl, open_, if_neg Bool.false_ne_true]
        omega
      · rcases List.mem_cons.1 mem with first | later
        · cases first
          exact closed
        · exact ends g later

/-- A cancellation arrives while the caller has not ended. -/
def Arrives (c : Coroutine α ε l ρ) (s : Loop α ε l ρ) (labels : List (LoopAction α ε)) : Prop :=
  ∃ before after u, labels = before ++ .cancel :: after ∧ (shielded c).exec s before = some u ∧
    ∀ r, u.caller ≠ .ended r

/-- A cancellation is counted exactly if one was before, or one arrives. -/
theorem cancels_iff {labels : List (LoopAction α ε)} (run : (shielded c).exec s labels = some t) :
    0 < t.cancels ↔ 0 < s.cancels ∨ Arrives c s labels := by
  induction labels generalizing s with
  | nil =>
    cases run
    refine ⟨.inl, fun arrives => arrives.resolve_right ?_⟩
    rintro ⟨before, after, u, split, -⟩
    simp at split
  | cons a labels ih =>
    rw [System.exec_cons] at run
    obtain ⟨u, step, rest⟩ := Option.bind_eq_some_iff.1 run
    rw [ih rest, (step_frame step).2]
    constructor
    · rintro ((some_ | ⟨rfl, waits⟩) | ⟨before, after, v, rfl, reached, waits⟩)
      · exact .inl some_
      · exact .inr ⟨[], labels, s, rfl, rfl, waits⟩
      · refine .inr ⟨a :: before, after, v, rfl, ?_, waits⟩
        rw [System.exec_cons, step]
        exact reached
    · rintro (some_ | ⟨before, after, v, split, reached, waits⟩)
      · exact .inl (.inl some_)
      · cases before with
        | nil =>
          cases split
          cases reached
          exact .inl (.inr ⟨rfl, waits⟩)
        | cons b before =>
          cases split
          rw [System.exec_cons, step] at reached
          exact .inr ⟨before, after, v, rfl, reached, waits⟩

end SreAgent.Base
