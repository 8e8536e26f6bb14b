import Mathlib
import SreAgent.Base.Transition

/-!
# Concurrent tasks that try again

One task for each key reads a clock, runs, and either tries again or files a result or a failure under
its key, in two dictionaries that the tasks share. An event is a reading for a task, or the end of its
run; tasks may take turns in any order. What becomes of a key depends on its own events alone
(`isolated`), and on the verdicts over them (`Trail`).
-/

namespace SreAgent.Base.Retries

variable {κ χ ω ρ φ : Type}

/-- What is made of the end of a run. -/
inductive Verdict (ρ φ : Type) where
  | again
  | filed (r : ρ)
  | failed (f : φ)

/-- How many runs a task has, what a reading refuses, and the verdict over the end of a run. -/
structure Policy (κ χ ω ρ φ : Type) where
  limit : Nat
  refuses : κ → χ → Option φ
  settle : κ → Nat → ω → Verdict ρ φ

/-- Where a task stands: before a run, in one, or at its end. -/
inductive Task where
  | waiting (attempt : Nat)
  | running (attempt : Nat)
  | finished
  deriving DecidableEq

inductive Event (χ ω : Type) where
  | reading (c : χ)
  | ended (o : ω)

/-- What belongs to one key: its task, the runs it started, and what is filed under it. -/
structure Slot (ρ φ : Type) where
  task : Task
  invoked : Nat
  result : Option ρ
  failure : Option φ

/-- The tasks and the dictionaries they share. -/
structure State (κ ρ φ : Type) where
  tasks : κ → Task
  invoked : κ → Nat
  results : κ → Option ρ
  failures : κ → Option φ

def State.slot (s : State κ ρ φ) (k : κ) : Slot ρ φ := ⟨s.tasks k, s.invoked k, s.results k, s.failures k⟩

/-- What a task writes, all under its key. -/
def State.put [DecidableEq κ] (s : State κ ρ φ) (k : κ) (slot : Slot ρ φ) : State κ ρ φ where
  tasks := Function.update s.tasks k slot.task
  invoked := Function.update s.invoked k slot.invoked
  results := Function.update s.results k slot.result
  failures := Function.update s.failures k slot.failure

variable (p : Policy κ χ ω ρ φ)

/-- A task after one of its events. -/
def resume (k : κ) (slot : Slot ρ φ) : Event χ ω → Option (Slot ρ φ)
  | .reading c =>
    match slot.task with
    | .waiting attempt =>
      match p.refuses k c with
      | some f => some { slot with task := .finished, failure := some f }
      | none => some { slot with task := .running attempt, invoked := slot.invoked + 1 }
    | _ => none
  | .ended o =>
    match slot.task with
    | .running attempt =>
      match p.settle k attempt o with
      | .again =>
        some { slot with task := if attempt + 1 < p.limit then .waiting (attempt + 1) else .finished }
      | .filed r => some { slot with task := .finished, result := some r }
      | .failed f => some { slot with task := .finished, failure := some f }
    | _ => none

/-- The task of one key. -/
def task (k : κ) : System (Slot ρ φ) (Event χ ω) where
  init _ := True
  step := resume p k

/-- The tasks, taking turns. -/
def tasks [DecidableEq κ] : System (State κ ρ φ) (κ × Event χ ω) where
  init _ := True
  step s e := (resume p e.1 (s.slot e.1) e.2).map (s.put e.1)

/-- The events of a key. -/
def own [DecidableEq κ] (k : κ) (es : List (κ × Event χ ω)) : List (Event χ ω) :=
  (es.filter fun e => e.1 = k).map Prod.snd

/-- How the runs of a task ended. -/
def ends (es : List (Event χ ω)) : List ω := es.filterMap fun e => match e with
  | .ended o => some o
  | .reading _ => none

theorem ends_append (es es' : List (Event χ ω)) : ends (es ++ es') = ends es ++ ends es' :=
  List.filterMap_append

/-! ## Isolation -/

section Isolation

variable {p} [DecidableEq κ] {s s' : State κ ρ φ} {k k' : κ} {es : List (κ × Event χ ω)}

theorem slot_put (slot : Slot ρ φ) : (s.put k slot).slot k = slot := by
  simp only [State.put, State.slot, Function.update_self]

theorem slot_put_of_ne (ne : k' ≠ k) (slot : Slot ρ φ) : (s.put k slot).slot k' = s.slot k' := by
  simp only [State.put, State.slot, Function.update_of_ne ne]

theorem own_cons (e : κ × Event χ ω) (es : List (κ × Event χ ω)) :
    own k (e :: es) = if e.1 = k then e.2 :: own k es else own k es := by
  unfold own
  rw [List.filter_cons]
  by_cases same : e.1 = k
  · rw [if_pos (decide_eq_true same), if_pos same]
    rfl
  · rw [if_neg (by simpa using same), if_neg same]

/-- The tasks of the other keys pass a key by. -/
theorem exec_slot (h : (tasks p).exec s es = some s') (k : κ) :
    (task p k).exec (s.slot k) (own k es) = some (s'.slot k) := by
  induction es generalizing s with
  | nil =>
    cases h
    rfl
  | cons e es ih =>
    simp only [System.exec, System.execIn, if_true] at h
    obtain ⟨t, step, rest⟩ := Option.bind_eq_some_iff.1 h
    obtain ⟨slot, resumed, rfl⟩ := Option.map_eq_some_iff.1 step
    have later := ih rest
    by_cases same : e.1 = k
    · subst same
      rw [slot_put] at later
      rw [own_cons, if_pos rfl]
      simp only [System.exec, System.execIn, if_true]
      exact Option.bind_eq_some_iff.2 ⟨slot, resumed, later⟩
    · rw [slot_put_of_ne (Ne.symm same)] at later
      rw [own_cons, if_neg same]
      exact later

/-- What becomes of a key depends on its own events alone. -/
theorem isolated {t t' : State κ ρ φ} {es' : List (κ × Event χ ω)} (h : (tasks p).exec s es = some s')
    (h' : (tasks p).exec t es' = some t') (start : s.slot k = t.slot k) (same : own k es = own k es') :
    s'.slot k = t'.slot k := by
  have first := exec_slot h k
  have second := exec_slot h' k
  rw [start, same] at first
  exact Option.some.inj (first.symm.trans second)

end Isolation

/-! ## The trail of a task -/

/-- The first `n` runs ended, and each was to be tried again. -/
def Again (k : κ) (n : Nat) (es : List (Event χ ω)) : Prop :=
  ∀ i < n, ∃ o, (ends es)[i]? = some o ∧ p.settle k i o = .again

/-- What a task has done by its events, from a start without a result and with `base` filed as its failure. -/
inductive Trail (k : κ) (base : Option φ) (es : List (Event χ ω)) : Slot ρ φ → Prop where
  | waiting (n : Nat) (within : n < p.limit) (again : Again p k n es) (count : (ends es).length = n) :
      Trail k base es ⟨.waiting n, n, none, base⟩
  | running (n : Nat) (within : n < p.limit) (again : Again p k n es) (count : (ends es).length = n) :
      Trail k base es ⟨.running n, n + 1, none, base⟩
  | refused (n : Nat) (c : χ) (f : φ) (within : n < p.limit) (again : Again p k n es)
      (read : Event.reading c ∈ es)
      (refusal : p.refuses k c = some f) : Trail k base es ⟨.finished, n, none, some f⟩
  | filed (n : Nat) (o : ω) (r : ρ) (within : n < p.limit) (again : Again p k n es)
      (ended : Event.ended o ∈ es)
      (verdict : p.settle k n o = .filed r) : Trail k base es ⟨.finished, n + 1, some r, base⟩
  | failed (n : Nat) (o : ω) (f : φ) (within : n < p.limit) (again : Again p k n es)
      (ended : Event.ended o ∈ es)
      (verdict : p.settle k n o = .failed f) : Trail k base es ⟨.finished, n + 1, none, some f⟩
  | exhausted (n : Nat) (o : ω) (last : n + 1 = p.limit) (again : Again p k (n + 1) es)
      (ended : Event.ended o ∈ es)
      (verdict : p.settle k n o = .again) : Trail k base es ⟨.finished, n + 1, none, base⟩

section Trail

variable {p} {k : κ} {base : Option φ} {slot slot' : Slot ρ φ} {es es' : List (Event χ ω)} {e : Event χ ω}
  {n : Nat}

/-- What led to another attempt still does as events are appended. -/
theorem Again.append (h : Again p k n es) (es' : List (Event χ ω)) : Again p k n (es ++ es') := by
  intro i hi
  obtain ⟨o, found, verdict⟩ := h i hi
  refine ⟨o, ?_, verdict⟩
  rw [ends_append, List.getElem?_append_left (List.getElem?_eq_some_iff.1 found).1]
  exact found

/-- An end that is to be tried again leads to one more attempt. -/
theorem Again.succ {o : ω} (h : Again p k n es) (count : (ends es).length = n)
    (verdict : p.settle k n o = .again) :
    Again p k (n + 1) (es ++ [.ended o]) := by
  intro i hi
  rcases Nat.lt_succ_iff_lt_or_eq.1 hi with earlier | rfl
  · exact h.append _ i earlier
  · refine ⟨o, ?_, verdict⟩
    rw [ends_append, List.getElem?_append_right (Nat.le_of_eq count), count, Nat.sub_self]
    rfl

/-- One event of a task. -/
theorem Trail.step (h : Trail p k base es slot) (step : resume p k slot e = some slot') :
    Trail p k base (es ++ [e]) slot' := by
  cases e with
  | reading c =>
    cases h
    case waiting n within again count =>
      have ends_same : (ends (es ++ [.reading c])).length = n := by
        rw [ends_append, List.length_append, count]
        rfl
      unfold resume at step
      dsimp only at step
      split at step
      · next f refusal =>
        cases step
        exact .refused n c f within (again.append _) (List.mem_append_right es List.mem_cons_self) refusal
      · cases step
        exact .running n within (again.append _) ends_same
    all_goals cases step
  | ended o =>
    have last : Event.ended o ∈ es ++ [.ended o] := List.mem_append_right es List.mem_cons_self
    cases h
    case running n within again count =>
      unfold resume at step
      dsimp only at step
      split at step
      · next verdict =>
        cases step
        split
        · next more =>
          refine .waiting (n + 1) more (again.succ count verdict) ?_
          rw [ends_append, List.length_append, count]
          rfl
        · next beyond =>
          have whole : n + 1 = p.limit := by omega
          exact .exhausted n o whole (again.succ count verdict) last verdict
      · next r verdict =>
        cases step
        exact .filed n o r within (again.append _) last verdict
      · next f verdict =>
        cases step
        exact .failed n o f within (again.append _) last verdict
    all_goals cases step

/-- A trail goes on over a run of the task. -/
theorem Trail.exec (h : Trail p k base es slot) (run : (task p k).exec slot es' = some slot') :
    Trail p k base (es ++ es') slot' := by
  induction es' generalizing es slot with
  | nil =>
    cases run
    rw [List.append_nil]
    exact h
  | cons e es' ih =>
    simp only [System.exec, System.execIn, if_true] at run
    obtain ⟨t, step, rest⟩ := Option.bind_eq_some_iff.1 run
    have later := ih (h.step step) rest
    rwa [List.append_assoc] at later

/-- The trail of a task from its start. -/
theorem trail_of_exec (positive : 0 < p.limit)
    (run : (task p k).exec ⟨.waiting 0, 0, none, base⟩ es = some slot) :
    Trail p k base es slot := by
  have start : Trail p k base [] (⟨.waiting 0, 0, none, base⟩ : Slot ρ φ) := .waiting 0 positive nofun rfl
  exact start.exec run

/-- Every run but the last ended in a verdict to try again. -/
theorem Trail.invoked (h : Trail p k base es slot) :
    slot.invoked ≤ p.limit ∧ Again p k (slot.invoked - 1) es := by
  cases h with
  | waiting n within again | refused n _ _ within again =>
    refine ⟨Nat.le_of_lt within, fun i hi => again i ?_⟩
    dsimp only at hi
    omega
  | running n within again | filed n _ _ within again | failed n _ _ within again => exact ⟨within, again⟩
  | exhausted n _ last again =>
    refine ⟨Nat.le_of_eq last, fun i hi => again i ?_⟩
    dsimp only at hi
    omega

/-- A task at its end takes no event. -/
theorem exec_finished (done : slot.task = .finished) (run : (task p k).exec slot es = some slot') :
    slot' = slot := by
  cases es with
  | nil =>
    cases run
    rfl
  | cons e es =>
    simp only [System.exec, System.execIn, if_true] at run
    obtain ⟨t, step, -⟩ := Option.bind_eq_some_iff.1 run
    have stuck : resume p k slot e = none := by
      unfold resume
      cases e <;> simp only [done]
    cases stuck.symm.trans step

end Trail

/-! ## A group of tasks -/

/-- The tasks of the selected keys, before their first run. -/
def State.start [DecidableEq κ] (selected : List κ) (failures : κ → Option φ) : State κ ρ φ where
  tasks k := if k ∈ selected then .waiting 0 else .finished
  invoked _ := 0
  results _ := none
  failures := failures

/-- Every task has come to its end. -/
def State.Finished (s : State κ ρ φ) : Prop := ∀ k, s.tasks k = .finished

section Group

variable {p} [DecidableEq κ] {selected : List κ} {failures : κ → Option φ} {s : State κ ρ φ}
  {es : List (κ × Event χ ω)} {k : κ}

/-- A selected task leaves the trail of its own events. -/
theorem trail_of_selected (positive : 0 < p.limit)
    (run : (tasks p).exec (State.start selected failures) es = some s) (routed : k ∈ selected) :
    Trail p k (failures k) (own k es) (s.slot k) := by
  have alone := exec_slot run k
  have start : (State.start selected failures : State κ ρ φ).slot k = ⟨.waiting 0, 0, none, failures k⟩ := by
    simp only [State.start, State.slot, if_pos routed]
  rw [start] at alone
  exact trail_of_exec positive alone

/-- A task that is not selected is never started. -/
theorem slot_of_unselected (run : (tasks p).exec (State.start selected failures) es = some s)
    (unrouted : k ∉ selected) :
    s.slot k = ⟨.finished, 0, none, failures k⟩ := by
  have alone := exec_slot run k
  have start : (State.start selected failures : State κ ρ φ).slot k = ⟨.finished, 0, none, failures k⟩ := by
    simp only [State.start, State.slot, if_neg unrouted]
  rw [start] at alone
  exact exec_finished rfl alone

end Group

end SreAgent.Base.Retries
