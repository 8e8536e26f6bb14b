import Mathlib
import SreAgent.Base.Options
import SreAgent.Base.ParentChain

/-!
# Preorder of a forest given by parents

A depth-first listing of a set of nodes that is closed under parents: each node, then the subtrees
of its children in the order given. The listing names every node of the set once
(`nodup_preorder`, `mem_preorder`) and parents before children (`parentsFirst_preorder`), so each
of its beginnings is closed under parents as well.
-/

namespace SreAgent.Base.ParentChain

variable {ι : Type*} {next : ι → Option (Option ι)}

/-- Node before subtrees. -/
def visit (children : Option ι → List ι) : Nat → ι → List ι
  | 0, _ => []
  | fuel + 1, id => id :: (children (some id)).flatMap (visit children fuel)

/-- The listing from the roots. -/
def preorder (children : Option ι → List ι) (fuel : Nat) : List ι :=
  (children none).flatMap (visit children fuel)

/-- `visit`, if no more than `frames` calls nest. -/
def visitWithin (children : Option ι → List ι) : Nat → ι → Option (List ι)
  | 0, _ => none
  | frames + 1, id => do
    let below ← (children (some id)).mapM (visitWithin children frames)
    return id :: below.flatten

/-- `preorder`, if no more than `frames` calls of `visit` nest. -/
def preorderWithin (children : Option ι → List ι) (frames : Nat) : Option (List ι) := do
  let trees ← (children none).mapM (visitWithin children frames)
  return trees.flatten

/-- `children` lists, once each, the nodes of `S` under a parent. -/
structure Lists (next : ι → Option (Option ι)) (S : Set ι) (children : Option ι → List ι) : Prop where
  mem : ∀ p c, c ∈ children p ↔ c ∈ S ∧ next c = some p
  nodup : ∀ p, (children p).Nodup

/-- The root is fewer than `n` steps up. -/
inductive RootWithin (next : ι → Option (Option ι)) : Nat → ι → Prop where
  | root {n : Nat} {id : ι} : next id = some none → RootWithin next (n + 1) id
  | step {n : Nat} {id p : ι} : next id = some (some p) → RootWithin next n p → RootWithin next (n + 1) id

/-- A walk that finds the root takes no more steps than it has fuel. -/
theorem rootWithin_of_walk [DecidableEq ι] {fuel : Nat} {seen : List ι} {id : ι}
    (h : walk next fuel seen id = .root) : RootWithin next fuel id := by
  induction fuel generalizing seen id with
  | zero => cases h
  | succ fuel ih =>
    rw [walk] at h
    split at h
    · cases h
    · split at h
      · cases h
      · next known => exact .root known
      · next p parent => exact .step parent (ih h)

/-- The chain of a node up to the root has `n` nodes. -/
inductive Depth (next : ι → Option (Option ι)) : Nat → ι → Prop where
  | root {id : ι} : next id = some none → Depth next 1 id
  | step {n : Nat} {id p : ι} : next id = some (some p) → Depth next n p → Depth next (n + 1) id

/-- A node has one depth. -/
theorem Depth.unique {m n : Nat} {id : ι} (h : Depth next m id) (h' : Depth next n id) : m = n := by
  induction h generalizing n with
  | root known =>
    cases h' with
    | root => rfl
    | step parent => cases known.symm.trans parent
  | step parent _ ih =>
    cases h' with
    | root known => cases known.symm.trans parent
    | step parent' rest =>
      cases parent.symm.trans parent'
      rw [ih rest]

/-- A root is within `n` steps exactly if the depth is at most `n`. -/
theorem rootWithin_iff {n : Nat} {id : ι} : RootWithin next n id ↔ ∃ d, d ≤ n ∧ Depth next d id := by
  constructor
  · intro near
    induction near with
    | root known => exact ⟨1, by omega, .root known⟩
    | step parent _ ih =>
      obtain ⟨d, le, depth⟩ := ih
      exact ⟨d + 1, by omega, .step parent depth⟩
  · rintro ⟨d, le, depth⟩
    induction depth generalizing n with
    | root known =>
      cases n with
      | zero => omega
      | succ n => exact .root known
    | step parent _ ih =>
      cases n with
      | zero => omega
      | succ n => exact .step parent (ih (Nat.le_of_succ_le_succ le))

/-- A chain that ends at a root has a length. -/
theorem Ends.depth {id : ι} (h : EndsAtRoot next id) :
    ∃ d r, Depth next d id ∧ Relation.ReflTransGen (Up next) id r ∧ next r = some none := by
  induction h with
  | here known => exact ⟨1, _, .root known, .refl, known⟩
  | step parent _ ih =>
    obtain ⟨d, r, depth, path, root⟩ := ih
    exact ⟨d + 1, r, .step parent depth, .head parent path, root⟩

/-- A set that is closed under parents is closed under ancestors. -/
theorem closed_of_path {S : Set ι} (closed : ∀ id ∈ S, ∀ p, next id = some (some p) → p ∈ S) {a b : ι}
    (path : Relation.ReflTransGen (Up next) a b) (ha : a ∈ S) : b ∈ S := by
  induction path with
  | refl => exact ha
  | tail _ up ih => exact closed _ ih _ up

/-- The parent of each listed node is listed before it, or seen already. -/
def ParentsFirst (next : ι → Option (Option ι)) : (seen : Set ι) → List ι → Prop
  | _, [] => True
  | seen, id :: rest => (∀ p, next id = some (some p) → p ∈ seen) ∧ ParentsFirst next (insert id seen) rest

/-- More nodes seen before do no harm. -/
theorem ParentsFirst.mono {seen seen' : Set ι} {l : List ι} (h : ParentsFirst next seen l)
    (le : seen ⊆ seen') :
    ParentsFirst next seen' l := by
  induction l generalizing seen seen' with
  | nil => trivial
  | cons id rest ih => exact ⟨fun p hp => le (h.1 p hp), ih h.2 (Set.insert_subset_insert le)⟩

/-- Two lists in order are in order together, if the second may count on the first. -/
theorem ParentsFirst.append {seen : Set ι} {l l' : List ι} (h : ParentsFirst next seen l)
    (h' : ParentsFirst next (seen ∪ {x | x ∈ l}) l') : ParentsFirst next seen (l ++ l') := by
  induction l generalizing seen with
  | nil => exact h'.mono (by simp)
  | cons id rest ih =>
    refine ⟨h.1, ih h.2 (h'.mono ?_)⟩
    rintro x (hx | hx)
    · exact .inl (.inr hx)
    · rcases List.mem_cons.1 hx with rfl | hx
      · exact .inl (.inl rfl)
      · exact .inr hx

/-- Every beginning of an ordered list is ordered. -/
theorem ParentsFirst.take {seen : Set ι} {l : List ι} (h : ParentsFirst next seen l) (n : Nat) :
    ParentsFirst next seen (l.take n) := by
  induction l generalizing seen n with
  | nil => simpa using h
  | cons id rest ih =>
    cases n with
    | zero => trivial
    | succ n => exact ⟨h.1, ih h.2 n⟩

/-- What lists parents first is closed under parents. -/
theorem ParentsFirst.closed {seen : Set ι} {l : List ι} (h : ParentsFirst next seen l) {id p : ι}
    (hid : id ∈ l) (parent : next id = some (some p)) : p ∈ seen ∨ p ∈ l := by
  induction l generalizing seen with
  | nil => cases hid
  | cons x rest ih =>
    rcases List.mem_cons.1 hid with rfl | hid
    · exact .inl (h.1 p parent)
    · rcases ih h.2 hid with (rfl | hp) | hp
      · exact .inr List.mem_cons_self
      · exact .inl hp
      · exact .inr (List.mem_cons_of_mem _ hp)

theorem parentsFirst_flatMap {children : Option ι → List ι} {fuel : Nat} {p : Option ι} {seen : Set ι}
    (parent : ∀ q, p = some q → q ∈ seen)
    (ih : ∀ c seen, (∀ q, next c = some (some q) → q ∈ seen) →
      ParentsFirst next seen (visit children fuel c)) {cs : List ι} (hcs : ∀ c ∈ cs, next c = some p) :
    ParentsFirst next seen (cs.flatMap (visit children fuel)) := by
  induction cs generalizing seen with
  | nil => trivial
  | cons c cs ihcs =>
    rw [List.flatMap_cons]
    refine .append (ih c seen fun q hq => parent q ?_) (ihcs (fun q hq => .inl (parent q hq)) fun c' hc' =>
      hcs c' (List.mem_cons_of_mem _ hc'))
    exact Option.some.inj ((hcs c List.mem_cons_self).symm.trans hq)

/-- A sibling that is an ancestor is the node itself, where nothing comes round. -/
theorem eq_of_sibling_above (acyclic : ∀ a, ¬ Relation.TransGen (Up next) a a) {p : Option ι} {c c' : ι}
    (hc : next c = some p) (hc' : next c' = some p) (path : Relation.ReflTransGen (Up next) c c') :
    c = c' := by
  rcases Relation.ReflTransGen.cases_head_iff.1 path with same | ⟨b, up, rest⟩
  · exact same
  · have hb : p = some b := Option.some.inj (hc.symm.trans up)
    exact absurd (Relation.TransGen.tail' rest (hc'.trans (by rw [hb]))) (acyclic b)

/-- Siblings with a common descendant are one node. -/
theorem eq_of_siblings (acyclic : ∀ a, ¬ Relation.TransGen (Up next) a a) {p : Option ι} {c c' x : ι}
    (hc : next c = some p) (hc' : next c' = some p) (path : Relation.ReflTransGen (Up next) x c)
    (path' : Relation.ReflTransGen (Up next) x c') : c = c' := by
  have unique : Relator.RightUnique (Up next) :=
    fun _ _ _ hb hb' => Option.some.inj (Option.some.inj (hb.symm.trans hb'))
  rcases Relation.ReflTransGen.total_of_right_unique unique path path' with above | above
  · exact eq_of_sibling_above acyclic hc hc' above
  · exact (eq_of_sibling_above acyclic hc' hc above).symm

/-- Fuel to spare changes nothing in a visit that fits. -/
theorem visit_of_within {children : Option ι → List ι} {frames fuel : Nat} (le : frames ≤ fuel) {id : ι}
    {l : List ι} (h : visitWithin children frames id = some l) : visit children fuel id = l := by
  induction frames generalizing fuel id l with
  | zero => cases h
  | succ frames ih =>
    obtain ⟨fuel, rfl⟩ : ∃ k, fuel = k + 1 := ⟨fuel - 1, by omega⟩
    rw [visitWithin] at h
    cases hbelow : (children (some id)).mapM (visitWithin children frames) with
    | none => rw [hbelow] at h; cases h
    | some below =>
      rw [hbelow] at h
      cases h
      have below : ∀ c ∈ children (some id), ∀ l, visitWithin children frames c = some l →
          visit children fuel c = l :=
        fun c _ l hc => ih (by omega) hc
      rw [visit, List.flatMap_def, eq_map_of_mapM below hbelow]

/-- The order does not depend on how many frames there are, once they suffice. -/
theorem preorder_of_within {children : Option ι → List ι} {frames fuel : Nat} (le : frames ≤ fuel)
    {l : List ι} (h : preorderWithin children frames = some l) : preorder children fuel = l := by
  rw [preorderWithin] at h
  cases htrees : (children none).mapM (visitWithin children frames) with
  | none => rw [htrees] at h; cases h
  | some trees =>
    rw [htrees] at h
    cases h
    rw [preorder, List.flatMap_def, eq_map_of_mapM (fun r _ l hr => visit_of_within le hr) htrees]

section Listing

variable {S : Set ι} {children : Option ι → List ι} (lists : Lists next S children)

include lists

/-- What a visit lists hangs on the visited node, inside the set. -/
theorem mem_visit {fuel : Nat} {id x : ι} (hid : id ∈ S) (h : x ∈ visit children fuel id) :
    x ∈ S ∧ Relation.ReflTransGen (Up next) x id := by
  induction fuel generalizing id with
  | zero => cases h
  | succ fuel ih =>
    rcases List.mem_cons.1 h with rfl | h
    · exact ⟨hid, .refl⟩
    · obtain ⟨c, hc, hx⟩ := List.mem_flatMap.1 h
      obtain ⟨hcS, up⟩ := (lists.mem _ _).1 hc
      obtain ⟨hxS, path⟩ := ih hcS hx
      exact ⟨hxS, path.tail up⟩

/-- Two children of one parent have no descendant in common, where nothing comes round. -/
theorem siblings_disjoint (acyclic : ∀ a, ¬ Relation.TransGen (Up next) a a) {fuel : Nat} {p : Option ι} :
    (children p).Pairwise fun c c' => List.Disjoint (visit children fuel c) (visit children fuel c') := by
  refine (lists.nodup p).imp_of_mem fun {c c'} hc hc' ne => ?_
  obtain ⟨hcS, hcp⟩ := (lists.mem _ _).1 hc
  obtain ⟨hcS', hcp'⟩ := (lists.mem _ _).1 hc'
  exact fun x hx hx' =>
    ne (eq_of_siblings acyclic hcp hcp' (mem_visit lists hcS hx).2 (mem_visit lists hcS' hx').2)

/-- Without a cycle no node is visited twice. -/
theorem nodup_visit (acyclic : ∀ a, ¬ Relation.TransGen (Up next) a a) {fuel : Nat} {id : ι} (hid : id ∈ S) :
    (visit children fuel id).Nodup := by
  induction fuel generalizing id with
  | zero => exact List.nodup_nil
  | succ fuel ih =>
    refine List.nodup_cons.2 ⟨fun again => ?_, ?_⟩
    · obtain ⟨c, hc, hx⟩ := List.mem_flatMap.1 again
      obtain ⟨hcS, up⟩ := (lists.mem _ _).1 hc
      exact acyclic id (Relation.TransGen.tail' (mem_visit lists hcS hx).2 up)
    · exact List.nodup_flatMap.2 ⟨fun c hc => ih ((lists.mem _ _).1 hc).1, siblings_disjoint lists acyclic⟩

/-- No node is listed twice. -/
theorem nodup_preorder (acyclic : ∀ a, ¬ Relation.TransGen (Up next) a a) (fuel : Nat) :
    (preorder children fuel).Nodup :=
  List.nodup_flatMap.2 ⟨fun _ hc => nodup_visit lists acyclic ((lists.mem _ _).1 hc).1,
    siblings_disjoint lists acyclic⟩

/-- A node whose root is near is visited, with fuel to spare for the steps below it. -/
theorem visited {fuel : Nat} (closed : ∀ id ∈ S, ∀ p, next id = some (some p) → p ∈ S) {n : Nat} {id : ι}
    (near : RootWithin next n id) (le : n ≤ fuel) (hid : id ∈ S) :
    ∃ f, fuel < f + n ∧ visit children f id ⊆ preorder children fuel := by
  induction near with
  | root known =>
    exact ⟨fuel, by omega, fun x hx => List.mem_flatMap.2 ⟨_, (lists.mem _ _).2 ⟨hid, known⟩, hx⟩⟩
  | step parent _ ih =>
    obtain ⟨f, hf, sub⟩ := ih (by omega) (closed _ hid _ parent)
    cases f with
    | zero => omega
    | succ f =>
      refine ⟨f, by omega, fun x hx => sub ?_⟩
      exact List.mem_cons_of_mem _ (List.mem_flatMap.2 ⟨_, (lists.mem _ _).2 ⟨hid, parent⟩, hx⟩)

/-- The nodes of the set are listed, and no others. -/
theorem mem_preorder {fuel : Nat} (closed : ∀ id ∈ S, ∀ p, next id = some (some p) → p ∈ S)
    (near : ∀ id ∈ S, RootWithin next fuel id) {x : ι} : x ∈ preorder children fuel ↔ x ∈ S := by
  constructor
  · intro hx
    obtain ⟨r, hr, hx⟩ := List.mem_flatMap.1 hx
    exact (mem_visit lists ((lists.mem _ _).1 hr).1 hx).1
  · intro hx
    obtain ⟨f, hf, sub⟩ := visited lists closed (near x hx) (Nat.le_refl _) hx
    cases f with
    | zero => omega
    | succ f => exact sub List.mem_cons_self

/-- A visit lists parents before their children. -/
theorem parentsFirst_visit (fuel : Nat) (id : ι) (seen : Set ι)
    (parent : ∀ q, next id = some (some q) → q ∈ seen) :
    ParentsFirst next seen (visit children fuel id) := by
  induction fuel generalizing id seen with
  | zero => trivial
  | succ fuel ih =>
    refine ⟨parent, parentsFirst_flatMap (p := some id) ?_ (fun c seen => ih c seen) fun _ hc =>
      ((lists.mem _ _).1 hc).2⟩
    rintro q ⟨rfl⟩
    exact Set.mem_insert _ _

/-- Parents come before their children. -/
theorem parentsFirst_preorder (fuel : Nat) : ParentsFirst next ∅ (preorder children fuel) :=
  parentsFirst_flatMap (p := none) nofun (parentsFirst_visit lists fuel) fun _ hc => ((lists.mem _ _).1 hc).2

/-- Between two subtrees only their roots can be siblings. -/
theorem siblings_flatMap (acyclic : ∀ a, ¬ Relation.TransGen (Up next) a a) {R : ι → ι → Prop} {p : Option ι}
    (order : (children p).Pairwise R) {fuel : Nat} :
    (children p).Pairwise fun c c' => ∀ x ∈ visit children fuel c, ∀ y ∈ visit children fuel c',
      next x = next y → R x y := by
  refine (order.and (lists.nodup p)).imp_of_mem fun {c c'} hc hc' ⟨ordered, ne⟩ x hx y hy same => ?_
  obtain ⟨hcS, hcp⟩ := (lists.mem _ _).1 hc
  obtain ⟨hcS', hcp'⟩ := (lists.mem _ _).1 hc'
  have pathX := (mem_visit lists hcS hx).2
  have pathY := (mem_visit lists hcS' hy).2
  rcases Relation.ReflTransGen.cases_head_iff.1 pathX with rfl | ⟨b, upX, restX⟩
  · rw [eq_of_sibling_above acyclic (same.symm.trans hcp) hcp' pathY]
    exact ordered
  · rcases Relation.ReflTransGen.cases_head_iff.1 pathY with rfl | ⟨b', upY, restY⟩
    · rw [eq_of_sibling_above acyclic (same.trans hcp') hcp pathX]
      exact ordered
    · have : b = b' := Option.some.inj (Option.some.inj (upX.symm.trans (same.trans upY)))
      subst this
      exact absurd (eq_of_siblings acyclic hcp hcp' restX restY) ne

/-- A visit lists siblings in the order of the children. -/
theorem siblings_visit (acyclic : ∀ a, ¬ Relation.TransGen (Up next) a a) {R : ι → ι → Prop}
    (order : ∀ p, (children p).Pairwise R) {fuel : Nat} {id : ι} (hid : id ∈ S) :
    (visit children fuel id).Pairwise fun a b => next a = next b → R a b := by
  induction fuel generalizing id with
  | zero => exact .nil
  | succ fuel ih =>
    refine List.pairwise_cons.2 ⟨fun x hx same => ?_, List.pairwise_flatMap.2
      ⟨fun c hc => ih ((lists.mem _ _).1 hc).1, siblings_flatMap lists acyclic (order _)⟩⟩
    -- a sibling of the node is not below it
    obtain ⟨c, hc, hx⟩ := List.mem_flatMap.1 hx
    obtain ⟨hcS, up⟩ := (lists.mem _ _).1 hc
    obtain ⟨b, upX, rest⟩ :=
      Relation.TransGen.head'_iff.1 (Relation.TransGen.tail' (mem_visit lists hcS hx).2 up)
    have := Relation.TransGen.tail' rest (same.trans upX)
    exact absurd this (acyclic b)

/-- Siblings are listed in the order given. -/
theorem siblings_preorder (acyclic : ∀ a, ¬ Relation.TransGen (Up next) a a) {R : ι → ι → Prop}
    (order : ∀ p, (children p).Pairwise R) (fuel : Nat) :
    (preorder children fuel).Pairwise fun a b => next a = next b → R a b :=
  List.pairwise_flatMap.2 ⟨fun _ hc => siblings_visit lists acyclic order ((lists.mem _ _).1 hc).1,
    siblings_flatMap lists acyclic (order none)⟩

/-! ## Nested calls -/

/-- The visits that nest are those of a node's ancestors: all of them fit, or none is answered. -/
theorem visitWithin_eq (closed : ∀ id ∈ S, ∀ p, next id = some (some p) → p ∈ S) {frames k : Nat} {id : ι}
    (hid : id ∈ S) (depth : Depth next k id) :
    ((∀ x ∈ S, Relation.ReflTransGen (Up next) x id → ∀ d, Depth next d x → d < k + frames) ∧
        visitWithin children frames id = some (visit children frames id)) ∨
      (∃ x ∈ S, ∃ d, Depth next d x ∧ k + frames ≤ d) ∧ visitWithin children frames id = none := by
  induction frames generalizing k id with
  | zero => exact .inr ⟨⟨id, hid, k, depth, Nat.le_refl _⟩, rfl⟩
  | succ frames ih =>
    have below : ∀ c ∈ children (some id), _ := fun c hc =>
      ih ((lists.mem _ _).1 hc).1 (.step ((lists.mem _ _).1 hc).2 depth)
    by_cases fits : ∀ c ∈ children (some id), visitWithin children frames c = some (visit children frames c)
    · refine .inl ⟨fun x hx path d hd => ?_, ?_⟩
      · rcases Relation.ReflTransGen.cases_tail_iff _ _ _ |>.1 path with rfl | ⟨c, path, up⟩
        · rw [hd.unique depth]
          omega
        · have hc : c ∈ children (some id) := (lists.mem _ _).2 ⟨closed_of_path closed path hx, up⟩
          rcases below c hc with ⟨shallow, -⟩ | ⟨-, fails⟩
          · have := shallow x hx path d hd
            omega
          · cases (fits c hc).symm.trans fails
      · simp only [visitWithin, mapM_eq_map fits, visit, List.flatMap_def]
        rfl
    · simp only [not_forall] at fits
      obtain ⟨c, hc, fails⟩ := fits
      rcases below c hc with ⟨-, found⟩ | ⟨⟨x, hx, d, hd, deep⟩, found⟩
      · exact absurd found fails
      · refine .inr ⟨⟨x, hx, d, hd, by omega⟩, ?_⟩
        simp only [visitWithin, mapM_eq_none hc found]
        rfl

/-- The listing of a set succeeds where every chain of it fits. -/
theorem preorderWithin_eq_some (closed : ∀ id ∈ S, ∀ p, next id = some (some p) → p ∈ S)
    (rooted : ∀ id ∈ S, EndsAtRoot next id) {frames : Nat} {l : List ι} :
    preorderWithin children frames = some l ↔ (∀ id ∈ S, RootWithin next frames id) ∧
      l = preorder children frames := by
  have roots : ∀ r ∈ children none,
      ((∀ x ∈ S, Relation.ReflTransGen (Up next) x r → ∀ d, Depth next d x → d < 1 + frames) ∧
        visitWithin children frames r = some (visit children frames r)) ∨
      (∃ x ∈ S, ∃ d, Depth next d x ∧ 1 + frames ≤ d) ∧ visitWithin children frames r = none := fun r hr =>
    visitWithin_eq lists closed ((lists.mem _ _).1 hr).1 (.root ((lists.mem _ _).1 hr).2)
  constructor
  · intro listed
    have each : ∀ r ∈ children none, visitWithin children frames r = some (visit children frames r) := by
      intro r hr
      rcases roots r hr with ⟨-, found⟩ | ⟨-, fails⟩
      · exact found
      · simp only [preorderWithin, mapM_eq_none hr fails] at listed
        cases listed
    refine ⟨fun x hx => ?_, ?_⟩
    · obtain ⟨d, r, hd, path, root⟩ := (rooted x hx).depth
      have hr : r ∈ children none := (lists.mem _ _).2 ⟨closed_of_path closed path hx, root⟩
      rcases roots r hr with ⟨shallow, -⟩ | ⟨-, fails⟩
      · have := shallow x hx path d hd
        exact rootWithin_iff.2 ⟨d, by omega, hd⟩
      · cases (each r hr).symm.trans fails
    · simp only [preorderWithin, mapM_eq_map each] at listed
      rw [preorder, List.flatMap_def]
      exact (Option.some.inj listed).symm
  · rintro ⟨near, rfl⟩
    have each : ∀ r ∈ children none, visitWithin children frames r = some (visit children frames r) := by
      intro r hr
      rcases roots r hr with ⟨-, found⟩ | ⟨⟨x, hx, d, hd, deep⟩, -⟩
      · exact found
      · obtain ⟨d', le, hd'⟩ := rootWithin_iff.1 (near x hx)
        have := hd.unique hd'
        omega
    rw [preorderWithin, mapM_eq_map each, preorder, List.flatMap_def]
    rfl

end Listing

end SreAgent.Base.ParentChain
