import Mathlib

/-!
# Labelled transition systems

A system is a partial step function: the label of a step carries every choice of the
environment (which party moves, what the network or the clock does), so a run is determined
by its labels. `Run` is a finite run whose steps all satisfy a side condition `ok`; the
unrestricted runs are those with `ok` everywhere true. `Run.invariant` is the one induction
the safety results rest on, `Run.stable` its reading for facts that, once true, stay true.
-/

namespace SreAgent.Base

/-- A transition system on states `σ` with labels `α`: initial states and a partial step. -/
structure System (σ α : Type*) where
  init : σ → Prop
  step : σ → α → Option σ

namespace System

variable {σ α : Type*} {S : System σ α} {ok : σ → α → Prop} {I : σ → Prop}

/-- A finite run from `s` to `t` all of whose steps satisfy `ok`. -/
inductive Run (S : System σ α) (ok : σ → α → Prop) (s : σ) : σ → Prop where
  | refl : Run S ok s s
  | tail {t u : σ} {a : α} : Run S ok s t → ok t a → S.step t a = some u → Run S ok s u

/-- No restriction on the steps. -/
abbrev Free (_ : σ) (_ : α) : Prop := True

/-- A run with no restriction on its steps. -/
abbrev Steps (S : System σ α) (s t : σ) : Prop := S.Run Free s t

/-- Reached from an initial state by some run. -/
def Reachable (S : System σ α) (t : σ) : Prop := ∃ s, S.init s ∧ S.Steps s t

/-- `I` is kept by every step taken where `ok` holds. -/
def Preserves (S : System σ α) (ok : σ → α → Prop) (I : σ → Prop) : Prop :=
  ∀ s a t, I s → ok s a → S.step s a = some t → I t

/-- The invariant rule: what the steps of a run keep, the run keeps. -/
theorem Run.invariant {s t : σ} (run : S.Run ok s t) (keep : S.Preserves ok I) (base : I s) : I t := by
  induction run with
  | refl => exact base
  | tail _ hok hstep ih => exact keep _ _ _ ih hok hstep

/-- A fact every step keeps is stable along every run. -/
theorem Steps.stable {s t : σ} (run : S.Steps s t) (keep : ∀ s a t, I s → S.step s a = some t → I t)
    (base : I s) : I t :=
  run.invariant (fun s a t h _ => keep s a t h) base

/-- A weaker side condition. -/
theorem Run.mono {ok' : σ → α → Prop} {s t : σ} (run : S.Run ok s t) (weaker : ∀ s a, ok s a → ok' s a) :
    S.Run ok' s t := by
  induction run with
  | refl => exact .refl
  | tail _ hok hstep ih => exact .tail ih (weaker _ _ hok) hstep

/-- Forget the side condition of a run. -/
theorem Run.steps {s t : σ} (run : S.Run ok s t) : S.Steps s t := run.mono fun _ _ _ => trivial

/-- Runs compose. -/
theorem Run.trans {s t u : σ} (first : S.Run ok s t) (second : S.Run ok t u) : S.Run ok s u := by
  induction second with
  | refl => exact first
  | tail _ hok hstep ih => exact .tail ih hok hstep

/-- The initial states are reachable. -/
theorem Reachable.init {s : σ} (h : S.init s) : S.Reachable s := ⟨s, h, .refl⟩

/-- What a reachable state leads to is reachable. -/
theorem Reachable.steps {s t : σ} (h : S.Reachable s) (run : S.Steps s t) : S.Reachable t := by
  obtain ⟨s₀, h₀, run₀⟩ := h
  exact ⟨s₀, h₀, run₀.trans run⟩

theorem Reachable.step {s t : σ} {a : α} (h : S.Reachable s) (hstep : S.step s a = some t) :
    S.Reachable t :=
  h.steps (.tail .refl trivial hstep)

/-- An invariant holds in every reachable state. -/
theorem Reachable.invariant {t : σ} (h : S.Reachable t) (base : ∀ s, S.init s → I s)
    (keep : ∀ s a t, I s → S.step s a = some t → I t) : I t := by
  obtain ⟨s, h₀, run⟩ := h
  exact run.stable keep (base s h₀)

/-- The state after a list of labels, when every one of them is enabled and meets `ok`. -/
def execIn (S : System σ α) (ok : σ → α → Prop) [∀ s a, Decidable (ok s a)] : σ → List α → Option σ
  | s, [] => some s
  | s, a :: as => if ok s a then (S.step s a).bind fun t => S.execIn ok t as else none

/-- The state after a list of labels, when every one of them is enabled. -/
abbrev exec (S : System σ α) : σ → List α → Option σ := S.execIn Free

/-- Executing labels is a run. -/
theorem run_of_exec [∀ s a, Decidable (ok s a)] {as : List α} {s t : σ} (h : S.execIn ok s as = some t) :
    S.Run ok s t := by
  induction as generalizing s with
  | nil => cases h; exact .refl
  | cons a as ih =>
    simp only [execIn] at h
    split at h
    · next hok =>
      obtain ⟨u, hu, rest⟩ := Option.bind_eq_some_iff.1 h
      exact Run.trans (.tail .refl hok hu) (ih rest)
    · cases h

end System

end SreAgent.Base
