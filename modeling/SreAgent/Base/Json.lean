import Mathlib

/-!
# JSON values

The values a JSON decoder of Python hands over: integers of any size are kept apart from
floats, a float is an exact rational or one of the three non-finite values, and an object is
the list of its items in insertion order. Strings are texts, unless another type of strings is
given.
-/

namespace SreAgent.Base

/-- A float: its exact value, or an infinity, or not a number. -/
inductive FloatVal where
  | finite (q : ℚ)
  | infinite (negative : Bool)
  | nan
  deriving DecidableEq

/-- A decoded JSON value. -/
inductive Json (σ : Type := String) where
  | null
  | bool (b : Bool)
  | int (n : Int)
  | float (x : FloatVal)
  | str (s : σ)
  | arr (items : List (Json σ))
  | obj (items : List (σ × Json σ))

/-- A value equal to `1`: what `Literal[1]` accepts. -/
def literalOne : Json → Bool
  | .int n => n = 1
  | .bool b => b
  | .float (.finite q) => q = 1
  | _ => false

/-- An object's items. -/
abbrev JsonObject (σ : Type := String) := List (σ × Json σ)

namespace JsonObject

variable {κ : Type} {α : Type*}

/-- The keys of an object, in order. -/
def keys (d : List (κ × α)) : List κ := d.map Prod.fst

variable [DecidableEq κ]

/-- `d.get(key)`: the item under `key`. -/
def get? (d : List (κ × α)) (key : κ) : Option α :=
  (d.find? fun item => item.1 = key).map Prod.snd

@[simp] theorem get?_nil (key : κ) : get? ([] : List (κ × α)) key = none := rfl

theorem get?_cons (item : κ × α) (d : List (κ × α)) (key : κ) :
    get? (item :: d) key = if item.1 = key then some item.2 else get? d key := by
  by_cases h : item.1 = key <;> simp [get?, h]

@[simp] theorem get?_cons_self (key : κ) (v : α) (d : List (κ × α)) :
    get? ((key, v) :: d) key = some v := by
  simp [get?_cons]

/-- A key is not found exactly if it is not among the keys. -/
theorem get?_eq_none {d : List (κ × α)} {key : κ} : get? d key = none ↔ key ∉ keys d := by
  simp only [get?, keys, Option.map_eq_none_iff, List.find?_eq_none, decide_eq_true_eq, List.mem_map,
    not_exists, not_and]

/-- A value that is found is an item. -/
theorem mem_of_get? {d : List (κ × α)} {key : κ} {v : α} (h : get? d key = some v) :
    (key, v) ∈ d := by
  obtain ⟨⟨k, w⟩, hf, rfl⟩ := Option.map_eq_some_iff.1 h
  have hk : k = key := by simpa using List.find?_some hf
  subst hk
  exact List.mem_of_find?_eq_some hf

end JsonObject

/-! ## Distinct keys -/

namespace Json

mutual

/-- No object in the value has a key twice, as in every dictionary. -/
def Distinct : Json → Prop
  | .arr items => DistinctItems items
  | .obj fields => (JsonObject.keys fields).Nodup ∧ DistinctFields fields
  | _ => True

def DistinctItems : List Json → Prop
  | [] => True
  | v :: rest => Distinct v ∧ DistinctItems rest

def DistinctFields : List (String × Json) → Prop
  | [] => True
  | (_, v) :: rest => Distinct v ∧ DistinctFields rest

end

theorem DistinctItems.of_mem {items : List Json} (h : DistinctItems items) {v : Json} (hv : v ∈ items) :
    v.Distinct := by
  induction items with
  | nil => cases hv
  | cons w rest ih =>
    rcases List.mem_cons.1 hv with rfl | hv
    · exact h.1
    · exact ih h.2 hv

theorem DistinctFields.of_mem {fields : JsonObject} (h : DistinctFields fields) {item : String × Json}
    (hi : item ∈ fields) : item.2.Distinct := by
  induction fields with
  | nil => cases hi
  | cons field rest ih =>
    rcases List.mem_cons.1 hi with rfl | hi
    · exact h.1
    · exact ih h.2 hi

/-- A field of an object with distinct keys. -/
theorem Distinct.field {fields : JsonObject} (h : (Json.obj fields).Distinct) {key : String} {v : Json}
    (hv : JsonObject.get? fields key = some v) : v.Distinct := by
  rw [Distinct] at h
  exact h.2.of_mem (JsonObject.mem_of_get? hv)

/-! ## Finite numbers -/

mutual

/-- No number in the value is infinite, or not a number. -/
def Finite : Json → Prop
  | .float x => ∃ q, x = .finite q
  | .arr items => FiniteItems items
  | .obj fields => FiniteFields fields
  | _ => True

def FiniteItems : List Json → Prop
  | [] => True
  | v :: rest => Finite v ∧ FiniteItems rest

def FiniteFields : List (String × Json) → Prop
  | [] => True
  | (_, v) :: rest => Finite v ∧ FiniteFields rest

end

/-- An array is finite if its items are. -/
theorem finite_arr {items : List Json} : (Json.arr items).Finite ↔ ∀ v ∈ items, v.Finite := by
  rw [Finite]
  induction items with
  | nil => simp [FiniteItems]
  | cons v rest ih => rw [FiniteItems, ih, List.forall_mem_cons]

theorem finite_obj {fields : JsonObject} : (Json.obj fields).Finite ↔ ∀ item ∈ fields, item.2.Finite := by
  rw [Finite]
  induction fields with
  | nil => simp [FiniteFields]
  | cons item rest ih => rw [FiniteFields, ih, List.forall_mem_cons]

end Json

end SreAgent.Base
