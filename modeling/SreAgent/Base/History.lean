import Mathlib
import SreAgent.Base.Transition

/-!
# Histories

A history is the list of the labels of a run. Where a step keeps a property exactly if it meets a
condition, a history keeps it exactly if all its steps meet the condition (`along_iff`). What holds at
the end of a history and not at its beginning holds from one of its steps on (`exists_crossing`).
-/

namespace SreAgent.Base.System

variable {σ α : Type*} {S : System σ α} {s₀ s u v : σ} {a : α} {before after labels : List α}

@[simp] theorem exec_nil : S.exec s [] = some s := rfl

theorem exec_cons : S.exec s (a :: labels) = (S.step s a).bind fun t => S.exec t labels := if_pos trivial

theorem exec_append : S.exec s (before ++ after) = (S.exec s before).bind fun t => S.exec t after := by
  induction before generalizing s with
  | nil => rfl
  | cons a before ih =>
    rw [List.cons_append, exec_cons, exec_cons, Option.bind_assoc]
    exact Option.bind_congr fun t _ => ih

theorem exec_concat : S.exec s (before ++ [a]) = (S.exec s before).bind fun t => S.step t a := by
  rw [exec_append]
  refine Option.bind_congr fun t _ => ?_
  rw [exec_cons]
  exact Option.bind_fun_some _

/-- `I` holds in every state of a history. -/
def Along (S : System σ α) (I : σ → Prop) (s₀ : σ) (labels : List α) : Prop :=
  ∀ before after u, labels = before ++ after → S.exec s₀ before = some u → I u

/-- Every step of a history meets `ok`. -/
def StepsAlong (S : System σ α) (ok : σ → α → Prop) (s₀ : σ) (labels : List α) : Prop :=
  ∀ before a after u, labels = before ++ a :: after → S.exec s₀ before = some u → ok u a

/-- Where a step keeps `I` exactly if it meets `ok`, a history keeps `I` exactly if all its steps meet
`ok`. -/
theorem along_iff {I : σ → Prop} {ok : σ → α → Prop} (run : S.exec s₀ labels = some s) (base : I s₀)
    (step : ∀ before u a v, S.exec s₀ before = some u → I u → S.step u a = some v → (I v ↔ ok u a)) :
    S.Along I s₀ labels ↔ S.StepsAlong ok s₀ labels := by
  constructor
  · intro along before a after u split here
    rw [split, exec_append, here, Option.bind_some, exec_cons] at run
    obtain ⟨v, next, -⟩ := Option.bind_eq_some_iff.1 run
    have there : S.exec s₀ (before ++ [a]) = some v := by rw [exec_concat, here, Option.bind_some, next]
    exact (step before u a v here (along before (a :: after) u split here) next).1
      (along (before ++ [a]) after v (by simp [split]) there)
  · intro steps before
    induction before using List.reverseRecOn with
    | nil =>
      rintro after u - here
      cases here
      exact base
    | append_singleton before a ih =>
      intro after u split here
      rw [exec_concat] at here
      obtain ⟨t, there, next⟩ := Option.bind_eq_some_iff.1 here
      have split' : labels = before ++ a :: after := by simp [split]
      exact (step before t a u there (ih (a :: after) t split' there) next).2
        (steps before a after t split' there)

/-- A step of a history from which on `P` holds. -/
structure Crossing (S : System σ α) (P : σ → Prop) (s₀ : σ) (labels : List α) (u : σ) (a : α) (v : σ) :
    Prop where
  split : ∃ before after, labels = before ++ a :: after ∧ S.exec s₀ before = some u ∧ S.Along P v after
  step : S.step u a = some v
  outside : ¬ P u
  inside : P v

/-- What held all along and holds at the new end holds all along. -/
theorem Along.concat {P : σ → Prop} (along : S.Along P s₀ labels)
    (holds : ∀ u, S.exec s₀ (labels ++ [a]) = some u → P u) :
    S.Along P s₀ (labels ++ [a]) := by
  intro before after u split here
  rcases List.eq_nil_or_concat after with rfl | ⟨after, b, rfl⟩
  · rw [List.append_nil] at split
    exact holds u (split ▸ here)
  · rw [List.concat_eq_append, ← List.append_assoc] at split
    exact along before after u (List.append_inj' split rfl).1 here

/-- What holds at the end of a history and not at its beginning holds from one of its steps on. -/
theorem exists_crossing {P : σ → Prop} (run : S.exec s₀ labels = some s) (outside : ¬ P s₀) (inside : P s) :
    ∃ u a v, S.Crossing P s₀ labels u a v := by
  induction labels using List.reverseRecOn generalizing s with
  | nil =>
    cases run
    exact absurd inside outside
  | append_singleton before a ih =>
    rw [exec_concat] at run
    obtain ⟨t, there, next⟩ := Option.bind_eq_some_iff.1 run
    by_cases already : P t
    · obtain ⟨u, b, v, ⟨first, rest, rfl, here, along⟩, step, before_, after_⟩ := ih there already
      refine ⟨u, b, v, ⟨first, rest ++ [a], by simp, here, along.concat fun w reached => ?_⟩, step,
        before_, after_⟩
      rw [exec_append, here, Option.bind_some, exec_cons, step, Option.bind_some] at there
      rw [exec_concat, there, Option.bind_some, next] at reached
      cases reached
      exact inside
    · refine ⟨t, a, s, ⟨before, [], rfl, there, ?_⟩, next, already, inside⟩
      intro first rest w split here
      obtain ⟨rfl, rfl⟩ := List.append_eq_nil_iff.1 split.symm
      cases here
      exact inside

end SreAgent.Base.System
