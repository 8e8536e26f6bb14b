import Mathlib

/-!
# Maps that may fail

A sequence in `Except` answers if both steps do. `mapM` into `Option` answers if every item does, in
the order of the items; a permutation of the items permutes the answers (`mapM_perm`).
-/

namespace SreAgent.Base

variable {α β : Type*} {f : α → Option β} {l : List α}

theorem bind_eq_ok {ε : Type v} {γ δ : Type u} {x : Except ε γ} {g : γ → Except ε δ} {b : δ} :
    (x >>= g) = .ok b ↔ ∃ a, x = .ok a ∧ g a = .ok b := by
  cases x with
  | error e =>
    constructor
    · intro h
      cases h
    · rintro ⟨a, h, -⟩
      cases h
  | ok a =>
    constructor
    · intro h
      exact ⟨a, rfl, h⟩
    · rintro ⟨_, h, hg⟩
      cases h
      exact hg

/-- A partial map succeeds with the list of what it finds. -/
theorem mapM_eq_some {ys : List β} : l.mapM f = some ys ↔ List.Forall₂ (fun x y => f x = some y) l ys := by
  induction l generalizing ys with
  | nil => simp [eq_comm]
  | cons x xs ih =>
    rw [List.mapM_cons]
    constructor
    · intro h
      obtain ⟨y, hy, h⟩ := Option.bind_eq_some_iff.1 h
      obtain ⟨rest, hrest, h⟩ := Option.bind_eq_some_iff.1 h
      cases h
      exact .cons hy (ih.1 hrest)
    · intro h
      cases h with
      | cons hy hrest =>
        rw [hy, ih.2 hrest]
        rfl

theorem exists_of_forall₂ {R : α → β → Prop} {xs : List α} {ys : List β} (h : List.Forall₂ R xs ys) {y : β}
    (hy : y ∈ ys) : ∃ x ∈ xs, R x y := by
  induction h with
  | nil => cases hy
  | cons head _ ih =>
    rcases List.mem_cons.1 hy with rfl | hy
    · exact ⟨_, List.mem_cons_self, head⟩
    · obtain ⟨x, hx, related⟩ := ih hy
      exact ⟨x, List.mem_cons_of_mem _ hx, related⟩

theorem mapM_eq_map {g : α → β} (h : ∀ a ∈ l, f a = some (g a)) : l.mapM f = some (l.map g) :=
  mapM_eq_some.2 (List.forall₂_map_right_iff.2 (List.forall₂_same.2 h))

/-- A partial map fails where one element does. -/
theorem mapM_eq_none {a : α} (ha : a ∈ l) (h : f a = none) : l.mapM f = none := by
  cases found : l.mapM f with
  | none => rfl
  | some ys =>
    obtain ⟨y, -, hy⟩ := exists_of_forall₂ (mapM_eq_some.1 found).flip ha
    cases hy.symm.trans h

/-- A partial map that finds every element succeeds. -/
theorem mapM_isSome (h : ∀ a ∈ l, (f a).isSome) : ∃ ys, l.mapM f = some ys := by
  induction l with
  | nil => exact ⟨[], rfl⟩
  | cons a l ih =>
    obtain ⟨y, hy⟩ := Option.isSome_iff_exists.1 (h a List.mem_cons_self)
    obtain ⟨ys, hys⟩ := ih fun b hb => h b (List.mem_cons_of_mem a hb)
    refine ⟨y :: ys, ?_⟩
    rw [List.mapM_cons, hy, hys]
    rfl

/-- What is read of the answers, where an item determines it. -/
theorem map_of_mapM {γ : Type*} {read : β → γ} {g : α → γ} {ys : List β}
    (h : ∀ a ∈ l, ∀ b, f a = some b → read b = g a) (found : l.mapM f = some ys) : ys.map read = l.map g := by
  have each := mapM_eq_some.1 found
  clear found
  induction each with
  | nil => rfl
  | cons head _ ih =>
    rw [List.map_cons, List.map_cons, h _ List.mem_cons_self _ head,
      ih fun a ha => h a (List.mem_cons_of_mem _ ha)]

theorem eq_map_of_mapM {g : α → β} {ys : List β} (h : ∀ a ∈ l, ∀ b, f a = some b → g a = b)
    (found : l.mapM f = some ys) :
    ys = l.map g := by
  have each := mapM_eq_some.1 found
  clear found
  induction each with
  | nil => rfl
  | cons head _ ih =>
    rw [List.map_cons, h _ List.mem_cons_self _ head, ← ih fun a ha => h a (List.mem_cons_of_mem _ ha)]

/-- The answers stand in the order of the items. -/
theorem mapM_perm {l' : List α} (perm : l.Perm l') {ys : List β} (found : l.mapM f = some ys) :
    ∃ ys', l'.mapM f = some ys' ∧ ys.Perm ys' := by
  obtain ⟨ys', each, perm'⟩ := List.perm_comp_forall₂ perm.symm (mapM_eq_some.1 found)
  exact ⟨ys', mapM_eq_some.2 each, perm'.symm⟩

end SreAgent.Base
