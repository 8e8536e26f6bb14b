import Mathlib

/-!
# Chains of parents

A node may name a parent: `next id` is `none` for an unknown node, `some none` for a root, and
`some (some p)` for a child of `p`. Following the parents from a node ends at a root, runs into an
unknown node, or comes round (`walk_cases`); a walk that remembers what it has seen decides which.
Where every node ends at the one root, the nodes are a tree (`isTree_iff`).
-/

namespace SreAgent.Base.ParentChain

variable {ι : Type*} {next : ι → Option (Option ι)} {a b id : ι}

/-- The chain of a node reaches one whose entry is `stop`. -/
inductive Ends (next : ι → Option (Option ι)) (stop : Option (Option ι)) : ι → Prop where
  | here {id : ι} : next id = stop → Ends next stop id
  | step {id p : ι} : next id = some (some p) → Ends next stop p → Ends next stop id

/-- The chain of a node ends at a root. -/
abbrev EndsAtRoot (next : ι → Option (Option ι)) : ι → Prop := Ends next (some none)

/-- The chain of a node runs into an unknown one. -/
abbrev Dangles (next : ι → Option (Option ι)) : ι → Prop := Ends next none

/-- `b` is the parent of `a`. -/
def Up (next : ι → Option (Option ι)) (a b : ι) : Prop := next a = some (some b)

section Ends

variable {stop : Option (Option ι)} (last : ∀ p, stop ≠ some (some p))

include last

/-- The chain of a parent ends where that of its child does. -/
theorem Ends.up (h : Ends next stop a) (up : Up next a b) : Ends next stop b := by
  cases h with
  | here stops => exact absurd (stops.symm.trans up) (last b)
  | step parent rest =>
    cases parent.symm.trans up
    exact rest

/-- The chain of an ancestor ends where that of its descendant does. -/
theorem Ends.ancestor (h : Ends next stop a) (up : Relation.ReflTransGen (Up next) a b) :
    Ends next stop b := by
  induction up with
  | refl => exact h
  | tail _ up ih => exact ih.up last up

/-- A chain that ends never comes round. -/
theorem Ends.no_round (h : Ends next stop a) : ¬ Relation.TransGen (Up next) a a := by
  induction h with
  | here stops =>
    intro round
    obtain ⟨b, up, -⟩ := Relation.TransGen.head'_iff.1 round
    exact last b (stops.symm.trans up)
  | step parent _ ih =>
    intro round
    obtain ⟨b, up, back⟩ := Relation.TransGen.head'_iff.1 round
    cases parent.symm.trans up
    exact ih (Relation.TransGen.tail' back parent)

end Ends

/-- A chain that ends at a root does not dangle. -/
theorem Ends.not_dangles (h : EndsAtRoot next a) : ¬ Dangles next a := by
  induction h with
  | here root =>
    intro d
    cases d with
    | here unknown => cases root.symm.trans unknown
    | step parent _ => cases root.symm.trans parent
  | step parent _ ih => exact fun d => ih (d.up (by simp) parent)

/-! ## Walking a chain -/

/-- How a walk ends. -/
inductive Walk where
  | root | missing | cycle | outOfFuel
  deriving DecidableEq

variable [DecidableEq ι]

/-- Follow the parents from `id`, remembering the nodes seen. -/
def walk (next : ι → Option (Option ι)) : Nat → List ι → ι → Walk
  | 0, _, _ => .outOfFuel
  | fuel + 1, seen, id =>
    if id ∈ seen then .cycle
    else match next id with
      | none => .missing
      | some none => .root
      | some (some p) => walk next fuel (id :: seen) p

/-- What a walk reports is how the chain goes on. -/
theorem walk_sound {fuel : Nat} {seen : List ι} (path : ∀ x ∈ seen, Relation.TransGen (Up next) x id) :
    (walk next fuel seen id = .root → EndsAtRoot next id) ∧
      (walk next fuel seen id = .missing → Dangles next id) ∧
      (walk next fuel seen id = .cycle → ∃ x, Relation.ReflTransGen (Up next) id x ∧
        Relation.TransGen (Up next) x x) := by
  induction fuel generalizing seen id with
  | zero => exact ⟨nofun, nofun, nofun⟩
  | succ fuel ih =>
    rw [walk]
    split
    · next again => exact ⟨nofun, nofun, fun _ => ⟨id, .refl, path id again⟩⟩
    · split
      · next unknown => exact ⟨nofun, fun _ => .here unknown, nofun⟩
      · next root => exact ⟨fun _ => .here root, nofun, nofun⟩
      · next p parent =>
        have path' : ∀ x ∈ id :: seen, Relation.TransGen (Up next) x p := by
          intro x hx
          rcases List.mem_cons.1 hx with rfl | hx
          · exact .single parent
          · exact .tail (path x hx) parent
        obtain ⟨root, missing, cycle⟩ := ih path'
        refine ⟨fun h => .step parent (root h), fun h => .step parent (missing h), fun h => ?_⟩
        obtain ⟨x, up, round⟩ := cycle h
        exact ⟨x, .head parent up, round⟩

/-- With as much fuel as there are known nodes, and one more, a walk ends. -/
theorem walk_enough {ids : List ι} (known : ∀ a, next a ≠ none → a ∈ ids) {fuel : Nat} {seen : List ι}
    (distinct : seen.Nodup) (within : ∀ x ∈ seen, x ∈ ids) (enough : ids.length < fuel + seen.length) :
    walk next fuel seen id ≠ .outOfFuel := by
  induction fuel generalizing seen id with
  | zero =>
    have := (distinct.subperm within).length_le
    omega
  | succ fuel ih =>
    rw [walk]
    split
    · simp
    · next fresh =>
      split
      · simp
      · simp
      · next p parent =>
        refine ih (List.nodup_cons.2 ⟨fresh, distinct⟩) ?_ (by simp only [List.length_cons]; omega)
        intro x hx
        rcases List.mem_cons.1 hx with rfl | hx
        · exact known x (by simp [parent])
        · exact within x hx

section Whole

variable {ids : List ι} (known : ∀ a, next a ≠ none → a ∈ ids)

include known

/-- The walk from a node ends in one of three ways. -/
theorem walk_cases (id : ι) :
    walk next (ids.length + 1) [] id = .root ∧ EndsAtRoot next id ∨
    walk next (ids.length + 1) [] id = .missing ∧ Dangles next id ∨
    walk next (ids.length + 1) [] id = .cycle ∧
      ∃ x, Relation.ReflTransGen (Up next) id x ∧ Relation.TransGen (Up next) x x := by
  have start : ∀ x ∈ ([] : List ι), Relation.TransGen (Up next) x id := nofun
  obtain ⟨root, missing, cycle⟩ := walk_sound start
  cases h : walk next (ids.length + 1) [] id with
  | root => exact .inl ⟨rfl, root h⟩
  | missing => exact .inr (.inl ⟨rfl, missing h⟩)
  | cycle => exact .inr (.inr ⟨rfl, cycle h⟩)
  | outOfFuel => exact absurd h (walk_enough known List.nodup_nil (by simp) (by simp))

/-- The walk finds the root exactly if the chain ends at one. -/
theorem walk_eq_root : walk next (ids.length + 1) [] id = .root ↔ EndsAtRoot next id := by
  rcases walk_cases known id with ⟨h, e⟩ | ⟨h, d⟩ | ⟨h, x, up, round⟩ <;> rw [h]
  · exact iff_of_true rfl e
  · exact iff_of_false nofun fun e => e.not_dangles d
  · exact iff_of_false nofun fun e => (e.ancestor (by simp) up).no_round (by simp) round

end Whole

/-! ## Trees -/

/-- The entry of a node in a list of nodes with their parents. -/
def entry (links : List (ι × Option ι)) (id : ι) : Option (Option ι) :=
  (links.find? fun link => link.1 = id).map Prod.snd

/-- The listed nodes are one tree: no node twice, one root, every parent listed, and no way round. -/
structure IsTree (links : List (ι × Option ι)) : Prop where
  distinct : (links.map Prod.fst).Nodup
  oneRoot : (links.filter fun link => link.2 = none).length = 1
  parents : ∀ link ∈ links, ∀ p, link.2 = some p → p ∈ links.map Prod.fst
  acyclic : ∀ a, ¬ Relation.TransGen (Up (entry links)) a a

section Tree

variable {links : List (ι × Option ι)}

/-- An identifier has no entry exactly if it is not listed. -/
theorem entry_eq_none : entry links id = none ↔ id ∉ links.map Prod.fst := by
  simp only [entry, Option.map_eq_none_iff, List.find?_eq_none, decide_eq_true_eq, List.mem_map, not_exists,
    not_and]

theorem mem_of_entry {parent : Option ι} (h : entry links id = some parent) : (id, parent) ∈ links := by
  obtain ⟨⟨k, v⟩, hf, rfl⟩ := Option.map_eq_some_iff.1 h
  have hk : k = id := by simpa using List.find?_some hf
  subst hk
  exact List.mem_of_find?_eq_some hf

/-- With distinct identifiers every link is the entry of its own. -/
theorem entry_of_mem (distinct : (links.map Prod.fst).Nodup) {link : ι × Option ι} (h : link ∈ links) :
    entry links link.1 = some link.2 := by
  cases he : entry links link.1 with
  | none => exact absurd (List.mem_map_of_mem h) (entry_eq_none.1 he)
  | some parent => rw [← List.inj_on_of_nodup_map distinct (mem_of_entry he) h rfl]

theorem entry_known (links : List (ι × Option ι)) (a : ι) (h : entry links a ≠ none) :
    a ∈ links.map Prod.fst :=
  not_imp_comm.1 entry_eq_none.2 h

/-- Where every parent is listed, only an unlisted node dangles. -/
theorem unlisted_of_dangles (parents : ∀ link ∈ links, ∀ p, link.2 = some p → p ∈ links.map Prod.fst)
    (h : Dangles (entry links) a) : a ∉ links.map Prod.fst := by
  induction h with
  | here unknown => exact entry_eq_none.1 unknown
  | step parent _ ih => exact absurd (parents _ (mem_of_entry parent) _ rfl) ih

/-- Every chain of a tree ends at its root, and a list whose chains all do, under one root, is a tree. -/
theorem isTree_iff (distinct : (links.map Prod.fst).Nodup)
    (oneRoot : (links.filter fun link => link.2 = none).length = 1) :
    IsTree links ↔ ∀ link ∈ links, EndsAtRoot (entry links) link.1 := by
  constructor
  · intro tree link hlink
    rcases walk_cases (entry_known links) link.1 with ⟨-, ends⟩ | ⟨-, dangles⟩ | ⟨-, x, -, round⟩
    · exact ends
    · exact absurd (List.mem_map_of_mem hlink) (unlisted_of_dangles tree.parents dangles)
    · exact absurd round (tree.acyclic x)
  · intro ends
    have closed : ∀ {a}, entry links a ≠ none → EndsAtRoot (entry links) a := by
      intro a ha
      obtain ⟨parent, hp⟩ := Option.ne_none_iff_exists'.1 ha
      exact ends _ (mem_of_entry hp)
    refine ⟨distinct, oneRoot, fun link hlink p hp => ?_, fun a round => ?_⟩
    · have up : Up (entry links) link.1 p := (entry_of_mem distinct hlink).trans (by rw [hp])
      have := (ends link hlink).up (by simp) up
      refine entry_known links p fun unknown => this.not_dangles (.here unknown)
    · obtain ⟨b, up, -⟩ := Relation.TransGen.head'_iff.1 round
      exact (closed (a := a) (by rw [up]; simp)).no_round (by simp) round

end Tree

end SreAgent.Base.ParentChain
