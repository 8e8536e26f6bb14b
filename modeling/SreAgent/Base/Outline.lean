import SreAgent.Base.Preorder

/-!
# Reading a tree off its levels

In a preorder, between a node and its parent stand only descendants of the parent. So the parent of a node is
the last one before it that is on a smaller level, and the levels of a listing tell the tree.
-/

namespace SreAgent.Base.ParentChain

variable {ι : Type*} {next : ι → Option (Option ι)} {S : Set ι} {children : Option ι → List ι}

/-- The node before which the list `before` stands has its parent there, with only descendants of the
parent after it. -/
def Attached (next : ι → Option (Option ι)) (before : List ι) (x : ι) : Prop :=
  ∃ p a b, next x = some (some p) ∧ before = a ++ p :: b ∧ ∀ y ∈ b, Relation.TransGen (Up next) y p

theorem Attached.append {before : List ι} {x : ι} (h : Attached next before x) (first : List ι) :
    Attached next (first ++ before) x := by
  obtain ⟨p, a, b, parent, rfl, below⟩ := h
  exact ⟨p, first ++ a, b, parent, (List.append_assoc _ _ _).symm, below⟩

/-- Nodes under the parent `q`, or attached within the list. -/
def Hangs (next : ι → Option (Option ι)) (q : Option ι) (l : List ι) : Prop :=
  (∀ y ∈ l, ∀ p, q = some p → Relation.TransGen (Up next) y p) ∧
    ∀ before x after, l = before ++ x :: after → next x = some q ∨ Attached next before x

theorem hangs_nil (q : Option ι) : Hangs next q [] := by
  refine ⟨fun y mem => ?_, fun before x after split => ?_⟩
  · cases mem
  · simp at split

/-- Two lists that hang from a node hang from it together. -/
theorem hangs_append {q : Option ι} {l l' : List ι} (h : Hangs next q l) (h' : Hangs next q l') :
    Hangs next q (l ++ l') := by
  refine ⟨fun y mem => ?_, fun before x after split => ?_⟩
  · rcases List.mem_append.1 mem with first | last
    · exact h.1 y first
    · exact h'.1 y last
  · rcases List.append_eq_append_iff.1 split with ⟨more, rfl, rest⟩ | ⟨more, rfl, rest⟩
    · rcases h'.2 more x after rest with root | attached
      · exact .inl root
      · exact .inr (attached.append l)
    · cases more with
      | nil =>
        rw [List.nil_append] at rest
        rcases h'.2 [] x after rest.symm with root | attached
        · exact .inl root
        · obtain ⟨p, a, b, -, none_, -⟩ := attached
          simp at none_
      | cons y more =>
        obtain ⟨rfl, rfl⟩ := List.cons.inj rest
        exact h.2 before x more rfl

section Listing

variable (lists : Lists next S children)

include lists

/-- The subtree of a node hangs under the node's parent. -/
theorem hangs_visit (fuel : Nat) {id : ι} {q : Option ι} (parent : next id = some q) :
    Hangs next q (visit children fuel id) := by
  induction fuel generalizing id q with
  | zero => exact hangs_nil q
  | succ fuel ih =>
    have subtrees : ∀ cs : List ι, (∀ c ∈ cs, next c = some (some id)) →
        Hangs next (some id) (cs.flatMap (visit children fuel)) := by
      intro cs
      induction cs with
      | nil => exact fun _ => hangs_nil (some id)
      | cons c cs more =>
        intro all
        rw [List.flatMap_cons]
        exact hangs_append (ih (all c List.mem_cons_self))
          (more fun d mem => all d (List.mem_cons_of_mem c mem))
    have below := subtrees (children (some id)) fun c mem => ((lists.mem _ _).1 mem).2
    have up : ∀ p, q = some p → Relation.TransGen (Up next) id p := by
      rintro p rfl
      exact .single parent
    refine ⟨fun y mem p hp => ?_, fun before x after split => ?_⟩
    · rcases List.mem_cons.1 mem with rfl | mem
      · exact up p hp
      · exact (below.1 y mem id rfl).trans (up p hp)
    · cases before with
      | nil =>
        cases split
        exact .inl parent
      | cons first before =>
        obtain ⟨rfl, rest⟩ := List.cons.inj split
        refine .inr ?_
        rcases below.2 before x after rest with child | attached
        · refine ⟨id, [], before, child, rfl, fun y mem => below.1 y ?_ id rfl⟩
          rw [rest]
          exact List.mem_append_left _ mem
        · exact attached.append [id]

/-- In a preorder every node is a root or attached to its parent. -/
theorem hangs_preorder (fuel : Nat) : Hangs next none (preorder children fuel) := by
  have trees : ∀ rs : List ι, (∀ r ∈ rs, next r = some none) →
      Hangs next none (rs.flatMap (visit children fuel)) := by
    intro rs
    induction rs with
    | nil => exact fun _ => hangs_nil none
    | cons r rs more =>
      intro all
      rw [List.flatMap_cons]
      exact hangs_append (hangs_visit lists fuel (all r List.mem_cons_self))
        (more fun s mem => all s (List.mem_cons_of_mem r mem))
  exact trees (children none) fun r mem => ((lists.mem _ _).1 mem).2

end Listing

/-- A descendant is deeper. -/
theorem depth_lt {x p : ι} (path : Relation.TransGen (Up next) x p) {m n : Nat} (hx : Depth next n x)
    (hp : Depth next m p) : m < n := by
  induction path using Relation.TransGen.head_induction_on generalizing n with
  | single up =>
    cases hx with
    | root known => cases known.symm.trans up
    | step parent above =>
      cases parent.symm.trans up
      rw [hp.unique above]
      exact Nat.lt_succ_self _
  | head up _ ih =>
    cases hx with
    | root known => cases known.symm.trans up
    | step parent above =>
      cases parent.symm.trans up
      exact Nat.lt_succ_of_lt (ih above)

theorem Attached.ne_nil {before : List ι} {x : ι} (h : Attached next before x) : before ≠ [] := by
  obtain ⟨p, a, b, -, rfl, -⟩ := h
  exact List.append_ne_nil_of_right_ne_nil _ (List.cons_ne_nil _ _)

/-- A tree has one root. -/
theorem IsTree.root_unique [DecidableEq ι] {links : List (ι × Option ι)} (tree : IsTree links) {a b : ι}
    (ha : entry links a = some none) (hb : entry links b = some none) : a = b := by
  obtain ⟨root, only⟩ := List.length_eq_one_iff.1 tree.oneRoot
  have listed : ∀ {x}, entry links x = some none → (x, none) = root := by
    intro x hx
    have mem : (x, none) ∈ links.filter fun link => link.2 = none :=
      List.mem_filter.2 ⟨mem_of_entry hx, decide_eq_true rfl⟩
    rw [only] at mem
    exact List.mem_singleton.1 mem
  exact congrArg Prod.fst ((listed ha).trans (listed hb).symm)

end SreAgent.Base.ParentChain
