import Mathlib

/-!
# Outcomes of validation

A validator hands over a value, or collects an error (`invalid`), or raises an exception that
nobody collects. The fields of a model are all validated, one after the other; the first
exception ends the validation (`both`, `list`).
-/

namespace SreAgent.Base

/-- What a validator comes to; `ε` are the exceptions it does not collect. -/
inductive Outcome (ε α : Type*) where
  | valid (a : α)
  | invalid
  | raised (e : ε)
  deriving DecidableEq

namespace Outcome

variable {ε α β : Type*}

def map (f : α → β) : Outcome ε α → Outcome ε β
  | valid a => valid (f a)
  | invalid => invalid
  | raised e => raised e

/-- A further check on a validated value. -/
def andThen (x : Outcome ε α) (f : α → Outcome ε β) : Outcome ε β :=
  match x with
  | valid a => f a
  | invalid => invalid
  | raised e => raised e

/-- Two fields of one model. -/
def both (x : Outcome ε α) (y : Outcome ε β) : Outcome ε (α × β) :=
  match x, y with
  | raised e, _ => raised e
  | _, raised e => raised e
  | valid a, valid b => valid (a, b)
  | _, _ => invalid

/-- A check without a value. -/
def check (b : Bool) : Outcome ε Unit := if b then valid () else invalid

/-- The items of a list, in order. -/
def all : List (Outcome ε α) → Outcome ε (List α)
  | [] => valid []
  | x :: xs => (both x (all xs)).map fun (a, as) => a :: as

/-- A list of bounded length: no item is looked at beyond the first over the bound. -/
def list (minLength maxLength : Nat) (validate : β → Outcome ε α) (items : List β) : Outcome ε (List α) :=
  (all ((items.take (maxLength + 1)).map validate)).andThen fun as =>
    if items.length < minLength ∨ maxLength < items.length then invalid else valid as

/-- An exception escapes. -/
def Raises (x : Outcome ε α) : Prop := ∃ e, x = raised e

@[simp] theorem raises_valid (a : α) : ¬ (valid a : Outcome ε α).Raises := by rintro ⟨e, h⟩; cases h

@[simp] theorem raises_invalid : ¬ (invalid : Outcome ε α).Raises := by rintro ⟨e, h⟩; cases h

@[simp] theorem raises_raised (e : ε) : (raised e : Outcome ε α).Raises := ⟨e, rfl⟩

@[simp] theorem raises_map (f : α → β) (x : Outcome ε α) : (x.map f).Raises ↔ x.Raises := by
  cases x <;> simp [map]

@[simp] theorem raises_both (x : Outcome ε α) (y : Outcome ε β) : (both x y).Raises ↔
      x.Raises ∨ y.Raises := by
  cases x <;> cases y <;> simp [both]

@[simp] theorem raises_check (b : Bool) : ¬ (check b : Outcome ε Unit).Raises := by
  cases b <;> simp [check]

@[simp] theorem raises_all (xs : List (Outcome ε α)) : (all xs).Raises ↔ ∃ x ∈ xs, x.Raises := by
  induction xs with
  | nil => simp [all]
  | cons x xs ih => simp [all, ih]

/-- A list raises exactly if an item among those it looks at does. -/
theorem raises_list (lo hi : Nat) (validate : β → Outcome ε α) (items : List β) :
    (list lo hi validate items).Raises ↔ ∃ item ∈ items.take (hi + 1), (validate item).Raises := by
  have same : (list lo hi validate items).Raises ↔ (all ((items.take (hi + 1)).map validate)).Raises := by
    unfold list
    cases all ((items.take (hi + 1)).map validate) with
    | valid as =>
      simp only [andThen]
      split <;> simp
    | invalid => simp [andThen]
    | raised e => simp [andThen]
  rw [same, raises_all]
  simp only [List.mem_map, exists_exists_and_eq_and]

@[simp] theorem map_eq_valid {f : α → β} {x : Outcome ε α} {b : β} : x.map f = valid b ↔
      ∃ a, x = valid a ∧ f a = b := by
  cases x <;> simp [map]

@[simp] theorem both_eq_valid {x : Outcome ε α} {y : Outcome ε β} {p : α × β} :
    both x y = valid p ↔ x = valid p.1 ∧ y = valid p.2 := by
  obtain ⟨a, b⟩ := p
  cases x <;> cases y <;> simp [both]

@[simp] theorem check_eq_valid {b : Bool} {u : Unit} : (check b : Outcome ε Unit) = valid u ↔ b = true := by
  cases b <;> simp [check]

/-- A sequence is valid exactly if both steps are. -/
theorem andThen_eq_valid {x : Outcome ε α} {f : α → Outcome ε β} {b : β} :
    x.andThen f = valid b ↔ ∃ a, x = valid a ∧ f a = valid b := by
  cases x <;> simp [andThen]

/-- A list of outcomes is valid exactly if every one is. -/
theorem all_eq_valid {xs : List (Outcome ε α)} {as : List α} :
    all xs = valid as ↔ List.Forall₂ (fun x a => x = valid a) xs as := by
  induction xs generalizing as with
  | nil => cases as <;> simp [all]
  | cons x xs ih =>
    cases as with
    | nil => simp [all]
    | cons a as => simp [all, ih]

/-- Every accepted item was an outcome. -/
theorem all_mem {xs : List (Outcome ε α)} {as : List α} (h : all xs = valid as) {a : α} (ha : a ∈ as) :
    valid a ∈ xs := by
  have each := all_eq_valid.1 h
  clear h
  induction each with
  | nil => cases ha
  | cons head _ ih =>
    rcases List.mem_cons.1 ha with rfl | ha
    · exact head ▸ List.mem_cons_self
    · exact List.mem_cons_of_mem _ (ih ha)

/-- A list is accepted when its length is in bounds and every item is. -/
theorem list_eq_valid {lo hi : Nat} {validate : β → Outcome ε α} {items : List β} {as : List α} :
    list lo hi validate items = valid as ↔
      (lo ≤ items.length ∧ items.length ≤ hi) ∧
        List.Forall₂ (fun item a => validate item = valid a) items as := by
  rw [list, andThen_eq_valid]
  constructor
  · rintro ⟨as', h, hif⟩
    split at hif
    · cases hif
    · next bounds =>
      cases hif
      rw [List.take_of_length_le (by omega), all_eq_valid, List.forall₂_map_left_iff] at h
      exact ⟨by omega, h⟩
  · rintro ⟨bounds, h⟩
    refine ⟨as, ?_, if_neg (by omega)⟩
    rw [List.take_of_length_le (by omega), all_eq_valid, List.forall₂_map_left_iff]
    exact h

end Outcome

end SreAgent.Base
