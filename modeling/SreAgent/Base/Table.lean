import Mathlib

/-!
# Relational tables as lists of rows

A table is the list of its rows in insertion order. `updateWhere` is `UPDATE ... WHERE`,
`List.find?` on the same predicate is what its `RETURNING` (read as at most one row) sees,
`insertUnique` is an `INSERT` under a unique index. `lookup` reads a table by a key column;
an update that keeps the key acts on a lookup as on a row (`lookup_updateWhere`), and where
the key is a primary key (`Keyed`) a statement restricted to one key value is a statement
about that lookup (`find?_keyed`).
-/

namespace SreAgent.Base.Table

variable {ρ κ : Type*}

/-- `UPDATE t SET f WHERE p`. -/
def updateWhere (p : ρ → Prop) [DecidablePred p] (f : ρ → ρ) (t : List ρ) : List ρ :=
  t.map fun r => if p r then f r else r

/-- A column survives an update that does not write it. -/
theorem map_updateWhere {p : ρ → Prop} [DecidablePred p] {f : ρ → ρ} {t : List ρ} {col : ρ → κ}
    (hf : ∀ r, col (f r) = col r) : (updateWhere p f t).map col = t.map col := by
  simp only [updateWhere, List.map_map]
  refine List.map_congr_left fun r _ => ?_
  simp only [Function.comp_apply]
  split
  · exact hf r
  · rfl

/-- An update that rewrites every row to itself writes nothing. -/
theorem updateWhere_of_fixed {p : ρ → Prop} [DecidablePred p] {f : ρ → ρ} {t : List ρ}
    (h : ∀ r ∈ t, p r → f r = r) : updateWhere p f t = t := by
  conv_rhs => rw [← List.map_id t]
  refine List.map_congr_left fun r hr => ?_
  split
  · next hp => exact h r hr hp
  · rfl

/-- An update no row qualifies for writes nothing. -/
theorem updateWhere_of_none {p : ρ → Prop} [DecidablePred p] {f : ρ → ρ} {t : List ρ}
    (h : ∀ r ∈ t, ¬ p r) : updateWhere p f t = t :=
  updateWhere_of_fixed fun r hr hp => absurd hp (h r hr)

/-- `key` is a primary key of `t`: no two rows share a value. -/
def Keyed (key : ρ → κ) (t : List ρ) : Prop := (t.map key).Nodup

/-- An update that keeps the key keeps the keys distinct. -/
theorem Keyed.updateWhere {key : ρ → κ} {t : List ρ} {p : ρ → Prop} [DecidablePred p] {f : ρ → ρ}
    (hk : Keyed key t) (hf : ∀ r, key (f r) = key r) : Keyed key (updateWhere p f t) := by
  rw [Keyed, map_updateWhere hf]
  exact hk

variable [DecidableEq κ]

/-- The row stored under key value `k`. -/
def lookup (key : ρ → κ) (k : κ) (t : List ρ) : Option ρ := t.find? fun r => decide (key r = k)

/-- `INSERT` under a unique index on `key`: refused when the key value is taken. -/
def insertUnique (key : ρ → κ) (r : ρ) (t : List ρ) : Option (List ρ) :=
  if ∃ s ∈ t, key s = key r then none else some (t ++ [r])

variable {key : ρ → κ} {k : κ} {t : List ρ} {r : ρ}

/-- A row that is found has the key. -/
theorem lookup_key (h : lookup key k t = some r) : key r = k := by
  simpa using List.find?_some h

/-- A row that is found is stored. -/
theorem mem_of_lookup (h : lookup key k t = some r) : r ∈ t := List.mem_of_find?_eq_some h

/-- No row is found exactly if none has the key. -/
theorem lookup_eq_none : lookup key k t = none ↔ ∀ r ∈ t, key r ≠ k := by
  simp [lookup]

/-- In a keyed table every row is found under its own key. -/
theorem Keyed.lookup_of_mem (hk : Keyed key t) (hr : r ∈ t) : lookup key (key r) t = some r := by
  cases hf : lookup key (key r) t with
  | none => exact absurd rfl (lookup_eq_none.1 hf r hr)
  | some s =>
    have same : key s = key r := lookup_key hf
    rw [List.inj_on_of_nodup_map hk (mem_of_lookup hf) hr same]

/-- A lookup after an update is the updated row. -/
theorem lookup_updateWhere {p : ρ → Prop} [DecidablePred p] {f : ρ → ρ}
    (hf : ∀ r, key (f r) = key r) :
    lookup key k (updateWhere p f t) = (lookup key k t).map fun r => if p r then f r else r := by
  have same : ∀ r, key (if p r then f r else r) = key r := by
    intro r
    split
    · exact hf r
    · rfl
  simp only [lookup, Table.updateWhere, List.find?_map, Function.comp_def, same]

/-- A lookup is untouched by an update whose rows all carry another key value. -/
theorem lookup_updateWhere_of_ne {p : ρ → Prop} [DecidablePred p] {f : ρ → ρ}
    (hf : ∀ r, key (f r) = key r) (hp : ∀ r, p r → key r ≠ k) :
    lookup key k (updateWhere p f t) = lookup key k t := by
  rw [lookup_updateWhere hf]
  cases h : lookup key k t with
  | none => rfl
  | some r =>
    have : ¬ p r := fun hr => hp r hr (lookup_key h)
    simp [this]

/-- What a statement restricted to one key value finds, in a keyed table. -/
theorem find?_keyed {g : ρ → Prop} [DecidablePred g] (hk : Keyed key t) :
    (t.find? fun r => decide (key r = k ∧ g r)) = (lookup key k t).filter fun r => decide (g r) := by
  cases h : lookup key k t with
  | none =>
    rw [Option.filter_none, List.find?_eq_none]
    intro r hr
    simp [lookup_eq_none.1 h r hr]
  | some r =>
    have hkey : key r = k := lookup_key h
    by_cases hg : g r
    · rw [Option.filter_some_pos (by simpa using hg)]
      cases hf : t.find? fun r => decide (key r = k ∧ g r) with
      | none => exact absurd (List.find?_eq_none.1 hf r (mem_of_lookup h)) (by simp [hkey, hg])
      | some s =>
        have hs := List.find?_some hf
        simp only [decide_eq_true_eq] at hs
        rw [List.inj_on_of_nodup_map hk (List.mem_of_find?_eq_some hf) (mem_of_lookup h)
          (hs.1.trans hkey.symm)]
    · rw [Option.filter_some_neg (by simpa using hg), List.find?_eq_none]
      intro s hs
      simp only [decide_eq_true_eq, not_and]
      intro hsk
      rwa [List.inj_on_of_nodup_map hk hs (mem_of_lookup h) (hsk.trans hkey.symm)]

/-- A row is inserted exactly if its key is new. -/
theorem insertUnique_eq_some {t' : List ρ} :
    insertUnique key r t = some t' ↔ (∀ s ∈ t, key s ≠ key r) ∧ t' = t ++ [r] := by
  unfold insertUnique
  split
  · next h =>
    obtain ⟨s, hs, he⟩ := h
    simp only [false_iff, reduceCtorEq, not_and]
    intro hn
    exact absurd he (hn s hs)
  · next h =>
    have fresh : ∀ s ∈ t, key s ≠ key r := fun s hs he => h ⟨s, hs, he⟩
    constructor
    · intro he
      exact ⟨fresh, (Option.some.inj he).symm⟩
    · rintro ⟨-, rfl⟩
      rfl

/-- An insertion keeps the keys distinct. -/
theorem Keyed.insertUnique {t' : List ρ} (hk : Keyed key t) (h : insertUnique key r t = some t') :
    Keyed key t' := by
  obtain ⟨fresh, rfl⟩ := insertUnique_eq_some.1 h
  rw [Keyed, List.map_append, List.nodup_append]
  refine ⟨hk, List.nodup_singleton _, ?_⟩
  rintro a ha b hb rfl
  obtain ⟨s, hs, rfl⟩ := List.mem_map.1 ha
  simp only [List.map_cons, List.map_nil, List.mem_singleton] at hb
  exact fresh s hs hb

end SreAgent.Base.Table
