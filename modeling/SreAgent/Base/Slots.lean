import Mathlib

/-!
# Dictionaries listed in a fixed order

A dictionary is a function from its keys. `file` fills one from a list, where a later item takes the
place of an earlier one of its key; `inOrder` lists what a dictionary holds, in a fixed order of the
keys. Filing what has been listed gives the dictionary back (`file_inOrder`).
-/

namespace SreAgent.Base.Slots

variable {κ α β : Type*} [DecidableEq κ] {key : α → κ} {order : List κ} {d base : κ → Option α}
  {k : κ} {a : α}

/-- `d[key(a)] = a` for every item. -/
def file (key : α → κ) (items : List α) (base : κ → Option α) : κ → Option α :=
  items.foldl (fun d a => Function.update d (key a) (some a)) base

/-- `d[k] for k in order if k in d`. -/
def inOrder (order : List κ) (d : κ → Option α) : List α := order.filterMap d

/-- Every value is filed under its own key. -/
def Filed (key : α → κ) (d : κ → Option α) : Prop := ∀ k a, d k = some a → key a = k

theorem file_cons (a : α) (items : List α) :
    file key (a :: items) base = file key items (Function.update base (key a) (some a)) := rfl

omit [DecidableEq κ] in
theorem filed_none : Filed key fun _ => none := nofun

/-- What is filed under a key is an item of that key, or was filed there before. -/
theorem of_file {items : List α} (h : file key items base k = some a) : a ∈ items ∧ key a = k ∨
      base k = some a := by
  induction items generalizing base with
  | nil => exact .inr h
  | cons b items ih =>
    rw [file_cons] at h
    rcases ih h with ⟨later, same⟩ | before
    · exact .inl ⟨List.mem_cons_of_mem b later, same⟩
    · rw [Function.update_apply] at before
      split at before
      · next same =>
        cases before
        exact .inl ⟨List.mem_cons_self, same.symm⟩
      · exact .inr before

/-- Filing by key keeps the slots filed. -/
theorem Filed.file (h : Filed key base) (items : List α) : Filed key (file key items base) := by
  intro k a found
  rcases of_file found with ⟨-, same⟩ | before
  · exact same
  · exact h k a before

omit [DecidableEq κ] in
/-- The listed entries are those of the slots. -/
theorem mem_inOrder : a ∈ inOrder order d ↔ ∃ k ∈ order, d k = some a := List.mem_filterMap

omit [DecidableEq κ] in
/-- The keys of a listing. -/
theorem map_inOrder (h : Filed key d) : (inOrder order d).map key = order.filter fun k => (d k).isSome := by
  induction order with
  | nil => rfl
  | cons k order ih =>
    rw [inOrder, List.filterMap_cons, List.filter_cons]
    cases found : d k with
    | none => exact ih
    | some a =>
      rw [List.map_cons, h k a found]
      exact congrArg (k :: ·) ih

omit [DecidableEq κ] in
theorem filter_inOrder (p : α → Bool) : (inOrder order d).filter p = inOrder order fun k =>
      (d k).filter p := List.filter_filterMap

omit [DecidableEq κ] in
theorem map_filter_inOrder (p : α → Bool) (f : α → β) :
    ((inOrder order d).filter p).map f = inOrder order fun k => ((d k).filter p).map f := by
  rw [filter_inOrder]
  exact List.map_filterMap

/-- A key that no item has keeps what is filed under it. -/
theorem file_of_notMem {items : List α} (h : k ∉ items.map key) : file key items base k = base k := by
  induction items generalizing base with
  | nil => rfl
  | cons a items ih =>
    rw [List.map_cons, List.mem_cons, not_or] at h
    rw [file_cons, ih h.2, Function.update_of_ne h.1]

/-- With distinct keys every item is in its own slot. -/
theorem file_of_mem {items : List α} (nodup : (items.map key).Nodup) (h : a ∈ items) :
    file key items base (key a) = some a := by
  induction items generalizing base with
  | nil => cases h
  | cons b items ih =>
    rw [List.map_cons, List.nodup_cons] at nodup
    rcases List.mem_cons.1 h with rfl | later
    · rw [file_cons, file_of_notMem nodup.1, Function.update_self]
    · exact ih nodup.2 later

/-- A slot is filled by an item of its key, or was before. -/
theorem file_isSome {items : List α} : (file key items base k).isSome ↔
      k ∈ items.map key ∨ (base k).isSome := by
  induction items generalizing base with
  | nil => simp [file]
  | cons b items ih =>
    rw [file_cons, ih, List.map_cons, List.mem_cons, Function.update_apply]
    by_cases same : k = key b
    · simp [same]
    · simp [same]

/-- The slot of a key is found in the list. -/
theorem find?_inOrder (h : Filed key d) (complete : ∀ k, k ∈ order) (k : κ) :
    (inOrder order d).find? (fun a => key a = k) = d k := by
  cases found : d k with
  | none =>
    rw [List.find?_eq_none]
    intro a ha same
    obtain ⟨k', -, hk'⟩ := mem_inOrder.1 ha
    have here : k' = k := (h k' a hk').symm.trans (of_decide_eq_true same)
    rw [here, found] at hk'
    cases hk'
  | some a =>
    cases first : (inOrder order d).find? (fun a => key a = k) with
    | none =>
      have absent := List.find?_eq_none.1 first a (mem_inOrder.2 ⟨k, complete k, found⟩)
      exact absurd (decide_eq_true (h k a found)) absent
    | some b =>
      obtain ⟨k', -, hk'⟩ := mem_inOrder.1 (List.mem_of_find?_eq_some first)
      have match_ := List.find?_some first
      have same : key b = k := of_decide_eq_true match_
      rw [(h k' b hk').symm.trans same, found] at hk'
      exact hk'.symm

/-- What has been listed is filed again as it was. -/
theorem file_inOrder (h : Filed key d) (nodup : order.Nodup) (complete : ∀ k, k ∈ order) :
    file key (inOrder order d) base = fun k => (d k).or (base k) := by
  have keys : (inOrder order d).map key = order.filter fun k => (d k).isSome := map_inOrder h
  funext k
  cases found : d k with
  | none =>
    rw [Option.none_or]
    apply file_of_notMem
    rw [keys, List.mem_filter, found]
    simp
  | some a =>
    rw [Option.some_or]
    have listed : a ∈ inOrder order d := mem_inOrder.2 ⟨k, complete k, found⟩
    have placed : file key (inOrder order d) base (key a) = some a :=
      file_of_mem (keys ▸ nodup.filter _) listed
    rwa [h k a found] at placed

end SreAgent.Base.Slots
