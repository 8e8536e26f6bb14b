import SreAgent.Base.Preorder

/-!
# Loops over chains of parents

Loops that follow parents with no bound of their own: one collects the nodes above some nodes, one
looks for a chain that comes round. A loop is run with fuel, and ends where all greater amounts of
fuel give the same result. Collecting ends below a root (`climbs_end`); the search ends wherever
every parent is listed (`search_ends`).
-/

namespace SreAgent.Base.ParentChain

/-- How a loop ends, or that its fuel did not suffice. -/
inductive Loop (α : Type*) where
  | done (result : α) | keyError | outOfFuel
  deriving DecidableEq

variable {ι : Type*} {next : ι → Option (Option ι)}

/-- A chain goes on as it does from any node above. -/
theorem Ends.descendant {stop : Option (Option ι)} {a b : ι} (h : Ends next stop b)
    (path : Relation.ReflTransGen (Up next) a b) : Ends next stop a := by
  induction path using Relation.ReflTransGen.head_induction_on with
  | refl => exact h
  | head up _ ih => exact .step up ih

variable [DecidableEq ι] {id : ι} {ids : List ι}

/-! ## Collecting what is above -/

/-- Collect a node and those above it, up to a root. -/
def climb (next : ι → Option (Option ι)) : Nat → Finset ι → Option ι → Loop (Finset ι)
  | _, S, none => .done S
  | 0, _, some _ => .outOfFuel
  | fuel + 1, S, some id =>
    match next id with
    | none => .keyError
    | some parent => climb next fuel (insert id S) parent

/-- Collect what is above each of some nodes. -/
def climbs (next : ι → Option (Option ι)) (fuel : Nat) : Finset ι → List ι → Loop (Finset ι)
  | S, [] => .done S
  | S, id :: rest =>
    match climb next fuel S (some id) with
    | .done T => climbs next fuel T rest
    | .keyError => .keyError
    | .outOfFuel => .outOfFuel

/-- Below a root the loop ends with the node and all those above it. -/
theorem climb_ends {n : Nat} (near : RootWithin next n id) (S : Finset ι) :
    ∃ T, (∀ fuel, n ≤ fuel → climb next fuel S (some id) = .done T) ∧
      ∀ x, x ∈ T ↔ x ∈ S ∨ Relation.ReflTransGen (Up next) id x := by
  induction near generalizing S with
  | @root n id known =>
    refine ⟨insert id S, fun fuel le => ?_, fun x => ?_⟩
    · obtain ⟨fuel, rfl⟩ : ∃ k, fuel = k + 1 := ⟨fuel - 1, by omega⟩
      rw [climb, known]
      cases fuel <;> rfl
    · rw [Finset.mem_insert, or_comm]
      apply or_congr_right
      constructor
      · rintro rfl
        exact .refl
      · intro path
        rcases Relation.ReflTransGen.cases_head_iff.1 path with same | ⟨p, up, -⟩
        · exact same.symm
        · cases known.symm.trans up
  | @step n id p parent _ ih =>
    obtain ⟨T, ends, members⟩ := ih (insert id S)
    refine ⟨T, fun fuel le => ?_, fun x => ?_⟩
    · obtain ⟨fuel, rfl⟩ : ∃ k, fuel = k + 1 := ⟨fuel - 1, by omega⟩
      rw [climb, parent]
      exact ends fuel (by omega)
    · rw [members, Finset.mem_insert, Relation.ReflTransGen.cases_head_iff (a := id)]
      have above : (∃ q, Up next id q ∧ Relation.ReflTransGen (Up next) q x) ↔
          Relation.ReflTransGen (Up next) p x := by
        constructor
        · rintro ⟨q, up, rest⟩
          cases parent.symm.trans up
          exact rest
        · exact fun rest => ⟨p, parent, rest⟩
      rw [above, eq_comm (a := id), or_comm (a := x = id), or_assoc]

/-- The climb from several identifiers ends, and visits them and what is above them. -/
theorem climbs_end {n : Nat} (near : ∀ id ∈ ids, RootWithin next n id) (S : Finset ι) :
    ∃ T, (∀ fuel, n ≤ fuel → climbs next fuel S ids = .done T) ∧
      ∀ x, x ∈ T ↔ x ∈ S ∨ ∃ id ∈ ids, Relation.ReflTransGen (Up next) id x := by
  induction ids generalizing S with
  | nil => exact ⟨S, fun _ _ => rfl, by simp⟩
  | cons id rest ih =>
    obtain ⟨T, climbs_first, members⟩ := climb_ends (near id List.mem_cons_self) S
    obtain ⟨U, climbs_rest, members'⟩ := ih (fun x hx => near x (List.mem_cons_of_mem _ hx)) T
    refine ⟨U, fun fuel le => ?_, fun x => ?_⟩
    · rw [climbs, climbs_first fuel le]
      exact climbs_rest fuel le
    · rw [members', members, or_assoc, List.exists_mem_cons_iff]

/-! ## The search for a cycle -/

/-- Walk from each of some nodes, until a chain comes round. -/
def search (next : ι → Option (Option ι)) (fuel : Nat) : List ι → Loop Bool
  | [] => .done false
  | id :: rest =>
    match walk next fuel [] id with
    | .cycle => .done true
    | .root => search next fuel rest
    | .missing => .keyError
    | .outOfFuel => .outOfFuel

/-- More fuel changes nothing in a walk that ended. -/
theorem walk_mono {fuel fuel' : Nat} {seen : List ι} (ended : walk next fuel seen id ≠ .outOfFuel)
    (le : fuel ≤ fuel') :
    walk next fuel' seen id = walk next fuel seen id := by
  induction fuel generalizing fuel' seen id with
  | zero => exact absurd rfl ended
  | succ fuel ih =>
    obtain ⟨fuel', rfl⟩ : ∃ k, fuel' = k + 1 := ⟨fuel' - 1, by omega⟩
    rw [walk] at ended
    rw [walk, walk]
    split
    · rfl
    · next fresh =>
      rw [if_neg fresh] at ended
      cases known : next id with
      | none => rfl
      | some parent =>
        cases parent with
        | none => rfl
        | some p =>
          rw [known] at ended
          exact ih ended (by omega)

/-- The search ends if no chain runs into an unlisted node, and finds a chain that comes round. -/
theorem search_ends {nodes : List ι} (known : ∀ a, next a ≠ none → a ∈ nodes)
    (total : ∀ id ∈ ids, ¬ Dangles next id) {fuel : Nat} (enough : nodes.length < fuel) :
    search next fuel ids = .done (ids.any fun id => walk next (nodes.length + 1) [] id = .cycle) := by
  induction ids with
  | nil => rfl
  | cons id rest ih =>
    have later := ih fun x hx => total x (List.mem_cons_of_mem _ hx)
    have ended : walk next (nodes.length + 1) [] id ≠ .outOfFuel :=
      walk_enough known List.nodup_nil (by simp) (by simp)
    rw [search, walk_mono ended enough, List.any_cons]
    rcases walk_cases known id with ⟨root, -⟩ | ⟨-, dangles⟩ | ⟨cycle, -⟩
    · rw [root, later]
      rfl
    · exact absurd dangles (total id List.mem_cons_self)
    · rw [cycle]
      rfl

end SreAgent.Base.ParentChain
