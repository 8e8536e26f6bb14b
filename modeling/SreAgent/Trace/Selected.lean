import Mathlib
import SreAgent.Trace.Candidates

/-!
# What the worker selects

Every set of spans the truncation works with is closed under parents, so the selected spans are a
tree with the candidate's root, listed once each (`selected_truncate`), and at most as many as
allowed.
-/

namespace SreAgent.Trace
open Base ParentChain

namespace CandidateTrace

/-- Spans of the candidate, with the parents of each. -/
structure Upward (c : CandidateTrace) (S : Finset String) : Prop where
  within : ∀ id ∈ S, id ∈ c.spans.map WorkerSpan.spanId
  closed : ∀ id ∈ S, ∀ p, c.parentOf id = some (some p) → p ∈ S

/-- A selection of spans: each once, with its parents, and the root. -/
structure Selects (c : CandidateTrace) (maxSpans : Nat) (ids : List String) : Prop where
  distinct : ids.Nodup
  within : ∀ id ∈ ids, id ∈ c.spans.map WorkerSpan.spanId
  closed : ∀ id ∈ ids, ∀ p, c.parentOf id = some (some p) → p ∈ ids
  root : c.rootSpanId ∈ ids
  bound : ids.length ≤ maxSpans

section

variable {c : CandidateTrace} {rt : Runtime} {S T : Finset String} {id : String}

theorem Upward.union (hS : c.Upward S) (hT : c.Upward T) : c.Upward (S ∪ T) := by
  refine ⟨fun id hid => ?_, fun id hid p hp => ?_⟩ <;> rw [Finset.mem_union] at *
  · exact hid.elim (hS.within id) (hT.within id)
  · exact hid.imp (fun h => hS.closed id h p hp) fun h => hT.closed id h p hp

theorem parentOf_known (c : CandidateTrace) (id : String) (h : c.parentOf id ≠ none) :
    id ∈ c.spans.map WorkerSpan.spanId := map_fst_workerLinks c.spans ▸ entry_known _ id h

theorem SpanTree.distinct (h : c.SpanTree) : (c.spans.map WorkerSpan.spanId).Nodup :=
  map_fst_workerLinks c.spans ▸ h.tree.distinct

/-- Every span has its own parent. -/
theorem SpanTree.parentOf_span (h : c.SpanTree) {span : WorkerSpan} (hspan : span ∈ c.spans) :
    c.parentOf span.spanId = some span.parentSpanId :=
  have listed : (span.spanId, span.parentSpanId) ∈ workerLinks c.spans := List.mem_map.2 ⟨span, hspan, rfl⟩
  entry_of_mem h.tree.distinct listed

/-- Every span leads to the root. -/
theorem SpanTree.endsAtRoot (h : c.SpanTree) (hid : id ∈ c.spans.map WorkerSpan.spanId) :
    EndsAtRoot c.parentOf id := by
  obtain ⟨span, hspan, rfl⟩ := List.mem_map.1 hid
  exact (isTree_iff h.tree.distinct h.tree.oneRoot).1 h.tree (span.spanId, span.parentSpanId)
    (List.mem_map.2 ⟨span, hspan, rfl⟩)

/-- Every span reaches the root, within the fuel of the walks. -/
theorem SpanTree.rootWithin (h : c.SpanTree) (hid : id ∈ c.spans.map WorkerSpan.spanId) :
    RootWithin c.parentOf (c.spans.length + 1) id := by
  have walks := (walk_eq_root (parentOf_known c)).2 (h.endsAtRoot hid)
  rw [List.length_map] at walks
  exact rootWithin_of_walk walks

/-- The root is a span without a parent. -/
theorem SpanTree.root_mem (h : c.SpanTree) :
    c.rootSpanId ∈ c.spans.map WorkerSpan.spanId ∧ c.parentOf c.rootSpanId = some none := by
  obtain ⟨root, hroot, hid, hparent⟩ := h.root
  have := h.parentOf_span hroot
  rw [hid, hparent] at this
  exact ⟨hid ▸ List.mem_map_of_mem hroot, this⟩

/-- The candidate has one root. -/
theorem SpanTree.root_unique (h : c.SpanTree) (root : c.parentOf id = some none) : id = c.rootSpanId := by
  obtain ⟨link, hlink⟩ := List.length_eq_one_iff.1 h.tree.oneRoot
  have only : ∀ {x : String}, c.parentOf x = some none → (x, none) = link := fun hx =>
    List.mem_singleton.1 (hlink ▸ List.mem_filter.2 ⟨mem_of_entry hx, by simp⟩)
  exact congrArg Prod.fst ((only root).trans (only h.root_mem.2).symm)

/-- Whatever is closed under parents holds the root, if anything. -/
theorem SpanTree.root_of_closed (h : c.SpanTree) {P : String → Prop}
    (closed : ∀ id, P id → ∀ p, c.parentOf id = some (some p) → P p) {n : Nat}
    (near : RootWithin c.parentOf n id) (hid : P id) : P c.rootSpanId := by
  induction near with
  | root known => exact h.root_unique known ▸ hid
  | step parent _ ih => exact ih (closed _ hid _ parent)

/-- A closed set that is not empty has the root. -/
theorem Upward.root_mem (hS : c.Upward S) (h : c.SpanTree) (hid : id ∈ S) : c.rootSpanId ∈ S :=
  h.root_of_closed (P := (· ∈ S)) hS.closed (h.rootWithin (hS.within id hid)) hid

/-! ## Chains -/

/-- A chain with enough fuel lists a span and its ancestors. -/
theorem mem_chain {fuel : Nat} (near : RootWithin c.parentOf fuel id) {x : String} :
    x ∈ c.chain fuel id ↔ Relation.ReflTransGen (Up c.parentOf) id x := by
  induction near with
  | @root n id known =>
    have alone : c.chain (n + 1) id = [id] := by rw [chain, known]
    rw [alone, List.mem_singleton]
    constructor
    · rintro rfl
      exact .refl
    · intro path
      rcases Relation.ReflTransGen.cases_head_iff.1 path with same | ⟨p, up, -⟩
      · exact same.symm
      · cases known.symm.trans up
  | @step n id q parent _ ih =>
    have step : c.chain (n + 1) id = id :: c.chain n q := by rw [chain, parent]
    rw [step, List.mem_cons, ih]
    constructor
    · rintro (rfl | path)
      · exact .refl
      · exact .head parent path
    · intro path
      rcases Relation.ReflTransGen.cases_head_iff.1 path with same | ⟨p, up, rest⟩
      · exact .inl same.symm
      · cases parent.symm.trans up
        exact .inr rest

/-- The closure has the spans that are reached upwards. -/
theorem mem_ancestorClosure (h : c.SpanTree) {ids : List String}
    (within : ∀ id ∈ ids, id ∈ c.spans.map WorkerSpan.spanId) {x : String} : x ∈ c.ancestorClosure ids ↔
      ∃ id ∈ ids, Relation.ReflTransGen (Up c.parentOf) id x := by
  simp only [ancestorClosure, List.mem_toFinset, List.mem_flatMap]
  exact exists_congr fun id => and_congr_right fun hid => mem_chain (h.rootWithin (within id hid))

theorem SpanTree.parents_within (h : c.SpanTree) : ∀ id ∈ {id | id ∈ c.spans.map WorkerSpan.spanId}, ∀ p,
    c.parentOf id = some (some p) → p ∈ {id | id ∈ c.spans.map WorkerSpan.spanId} := by
  intro id _ p hp
  have := h.tree.parents _ (mem_of_entry hp) p rfl
  rwa [map_fst_workerLinks] at this

/-- The closure is closed. -/
theorem upward_ancestorClosure (h : c.SpanTree) {ids : List String}
    (within : ∀ id ∈ ids, id ∈ c.spans.map WorkerSpan.spanId) : c.Upward (c.ancestorClosure ids) := by
  refine ⟨fun x hx => ?_, fun x hx p hp => ?_⟩
  · obtain ⟨id, hid, path⟩ := (mem_ancestorClosure h within).1 hx
    exact closed_of_path h.parents_within path (within id hid)
  · obtain ⟨id, hid, path⟩ := (mem_ancestorClosure h within).1 hx
    exact (mem_ancestorClosure h within).2 ⟨id, hid, path.tail hp⟩

theorem Upward.insert_root (hS : c.Upward S) (h : c.SpanTree) : c.Upward (insert c.rootSpanId S) := by
  refine ⟨fun id hid => ?_, fun id hid p hp => ?_⟩
  · rcases Finset.mem_insert.1 hid with rfl | hid
    · exact h.root_mem.1
    · exact hS.within id hid
  · rcases Finset.mem_insert.1 hid with rfl | hid
    · cases h.root_mem.2.symm.trans hp
    · exact Finset.mem_insert_of_mem (hS.closed id hid p hp)

/-! ## Order -/

/-- The children that are listed are those of the set. -/
theorem lists_childrenOf (h : c.SpanTree) (S : Finset String) :
    Lists c.parentOf {id | id ∈ S ∧ id ∈ c.spans.map WorkerSpan.spanId} (c.childrenOf S) where
  mem := by
    intro p id
    simp only [childrenOf, List.mem_map, List.mem_insertionSort, List.mem_filter, decide_eq_true_eq,
      Set.mem_ofPred_eq]
    constructor
    · rintro ⟨span, ⟨hspan, hS, rfl⟩, rfl⟩
      exact ⟨⟨hS, span, hspan, rfl⟩, h.parentOf_span hspan⟩
    · rintro ⟨⟨hS, span, hspan, rfl⟩, hp⟩
      exact ⟨span, ⟨hspan, hS, Option.some.inj ((h.parentOf_span hspan).symm.trans hp)⟩, rfl⟩
  nodup := by
    intro p
    refine ((List.perm_insertionSort _ _).map _).nodup_iff.2 ?_
    exact (List.filter_sublist.map _).nodup h.distinct

theorem upward_set (hS : c.Upward S) :
    {id | id ∈ S ∧ id ∈ c.spans.map WorkerSpan.spanId} = {id | id ∈ S} := by
  ext id
  exact ⟨And.left, fun hid => ⟨hid, hS.within id hid⟩⟩

/-- Siblings stand by start and id. -/
def Siblings (c : CandidateTrace) (a b : String) : Prop :=
  c.parentOf a = c.parentOf b →
    ∀ x ∈ c.spans, ∀ y ∈ c.spans, x.spanId = a → y.spanId = b → x.Earlier y

/-- A set of spans in order: each once, parents before children, siblings by start and id. -/
structure Ordered (c : CandidateTrace) (S : Finset String) (ids : List String) : Prop where
  distinct : ids.Nodup
  members : ∀ id, id ∈ ids ↔ id ∈ S
  parentsFirst : ParentsFirst c.parentOf ∅ ids
  siblings : ids.Pairwise c.Siblings

instance : Std.Total WorkerSpan.Earlier where
  total a b := by
    unfold WorkerSpan.Earlier
    rcases lt_trichotomy a.startOffsetMs b.startOffsetMs with lt | same | gt
    · exact .inl (.inl lt)
    · rcases le_total a.spanId b.spanId with le | ge
      · exact .inl (.inr ⟨same, le⟩)
      · exact .inr (.inr ⟨same.symm, ge⟩)
    · exact .inr (.inl gt)

instance : IsTrans WorkerSpan WorkerSpan.Earlier where
  trans a b d hab hbd := by
    rcases hab with hab | ⟨same, hab⟩ <;> rcases hbd with hbd | ⟨same', hbd⟩
    · exact .inl (hab.trans hbd)
    · exact .inl (same' ▸ hab)
    · exact .inl (same ▸ hbd)
    · exact .inr ⟨same.trans same', hab.trans hbd⟩

/-- Children are listed from the earliest on. -/
theorem pairwise_childrenOf (h : c.SpanTree) (S : Finset String) (p : Option String) :
    (c.childrenOf S p).Pairwise fun a b =>
      ∀ x ∈ c.spans, ∀ y ∈ c.spans, x.spanId = a → y.spanId = b → x.Earlier y := by
  refine List.pairwise_map.2 ((List.pairwise_insertionSort WorkerSpan.Earlier _).imp_of_mem ?_)
  intro a b ha hb earlier x hx y hy hxa hyb
  have inside : ∀ {a}, a ∈ (c.spans.filter fun span => span.spanId ∈ S ∧ span.parentSpanId = p).insertionSort
      WorkerSpan.Earlier → a ∈ c.spans := fun ha => (List.mem_filter.1 ((List.mem_insertionSort _).1 ha)).1
  rw [List.inj_on_of_nodup_map h.distinct hx (inside ha) hxa,
    List.inj_on_of_nodup_map h.distinct hy (inside hb) hyb]
  exact earlier

/-- The order is found where every chain of the set fits on the stack, and is the preorder. -/
theorem topologicalOrder_eq_ok (h : c.SpanTree) (hS : c.Upward S) {ids : List String} :
    c.topologicalOrder rt S = .ok ids ↔
      (∀ id ∈ S, RootWithin c.parentOf rt.frames id) ∧ ids = preorder (c.childrenOf S) rt.frames := by
  have lists := lists_childrenOf h S
  rw [upward_set hS] at lists
  have listing : preorderWithin (c.childrenOf S) rt.frames = some ids ↔ _ :=
    preorderWithin_eq_some lists hS.closed fun id hid => h.endsAtRoot (hS.within id hid)
  simp only [Set.mem_ofPred_eq] at listing
  rw [← listing]
  unfold topologicalOrder
  cases preorderWithin (c.childrenOf S) rt.frames <;> simp

/-- The order lists the selected spans once each, parents first. -/
theorem ordered_topologicalOrder (h : c.SpanTree) (hS : c.Upward S) {ids : List String}
    (found : c.topologicalOrder rt S = .ok ids) : c.Ordered S ids := by
  obtain ⟨near, rfl⟩ := (topologicalOrder_eq_ok h hS).1 found
  have lists := lists_childrenOf h S
  rw [upward_set hS] at lists
  exact ⟨nodup_preorder lists h.tree.acyclic _, fun id => mem_preorder lists hS.closed near,
    parentsFirst_preorder lists _, siblings_preorder lists h.tree.acyclic (pairwise_childrenOf h S) _⟩

/-- A beginning of the order is closed under parents. -/
theorem upward_take (hS : c.Upward S) {ids : List String} (ordered : c.Ordered S ids) (n : Nat) :
    c.Upward (ids.take n).toFinset := by
  refine ⟨fun id hid => ?_, fun id hid p hp => ?_⟩ <;> rw [List.mem_toFinset] at *
  · exact hS.within id ((ordered.members id).1 (List.mem_of_mem_take hid))
  · rcases (ordered.parentsFirst.take n).closed hid hp with hp | hp
    · cases hp
    · exact hp

/-! ## Truncation -/

/-- A set of spans the truncation may return. -/
def Fits (c : CandidateTrace) (maxSpans : Nat) (S : Finset String) : Prop :=
  c.Upward S ∧ c.rootSpanId ∈ S ∧ S.card ≤ maxSpans

/-- Spans are added with their ancestors, while they fit. -/
theorem foldl_addWithAncestors (h : c.SpanTree) {maxSpans : Nat} (fits : c.Fits maxSpans S)
    {ids : List String} (within : ∀ id ∈ ids, id ∈ c.spans.map WorkerSpan.spanId) :
    c.Fits maxSpans (ids.foldl (c.addWithAncestors maxSpans) S) := by
  induction ids generalizing S with
  | nil => exact fits
  | cons id rest ih =>
    refine ih ?_ fun x hx => within x (List.mem_cons_of_mem _ hx)
    unfold addWithAncestors
    dsimp only
    split
    · next small =>
      refine ⟨fits.1.union (upward_ancestorClosure h fun x hx => ?_), Finset.mem_union_left _ fits.2.1, small⟩
      rw [List.mem_singleton.1 hx]
      exact within id List.mem_cons_self
    · exact fits

theorem upward_criticalClosure (h : c.SpanTree) : c.Upward c.criticalClosure :=
  (upward_ancestorClosure h fun _ hid => (List.filter_sublist.map _).subset hid).insert_root h

theorem upward_requiredIds (h : c.SpanTree) : c.Upward c.requiredIds := by
  refine (upward_ancestorClosure h fun id hid => ?_).insert_root h
  exact (List.mem_append.1 hid).elim (fun h => (List.filter_sublist.map _).subset h)
    fun h => (List.filter_sublist.map _).subset h

theorem mem_stableSpanIds : id ∈ c.stableSpanIds ↔ id ∈ c.spans.map WorkerSpan.spanId :=
  ((List.perm_insertionSort _ _).map _).mem_iff

/-- What the truncation selects is closed under parents, holds the root, and is within the bound. -/
theorem selectIds_spec (h : c.SpanTree) {maxSpans : Nat} (pos : 1 ≤ maxSpans)
    (found : c.selectIds rt maxSpans = .ok S) :
    c.Fits maxSpans S := by
  unfold selectIds at found
  split at found
  · cases hordered : c.topologicalOrder rt c.criticalClosure with
    | error e => rw [hordered] at found; cases found
    | ok ids =>
      rw [hordered] at found
      cases found
      have ordered := ordered_topologicalOrder h (upward_criticalClosure h) hordered
      have upward := upward_take (upward_criticalClosure h) ordered maxSpans
      refine ⟨upward, ?_, (List.toFinset_card_le _).trans (List.length_take_le _ _)⟩
      obtain ⟨x, hx⟩ : ∃ x, x ∈ ids.take maxSpans := by
        have root := (ordered.members _).2 (Finset.mem_insert_self _ _)
        refine List.exists_mem_of_length_pos ?_
        rw [List.length_take]
        exact lt_min pos (List.length_pos_of_mem root)
      exact upward.root_mem h (List.mem_toFinset.2 hx)
  · next few =>
    cases found
    exact foldl_addWithAncestors h ⟨upward_requiredIds h, Finset.mem_insert_self _ _, not_lt.1 few⟩
      fun _ => mem_stableSpanIds.1

/-- How a truncation that returns came about. -/
theorem truncate_eq_ok {maxSpans : Nat} {t : SelectedTrace} (found : c.truncate rt maxSpans = .ok t) :
    ∃ S, c.selectIds rt maxSpans = .ok S ∧ c.topologicalOrder rt S = .ok t.selectedSpanIds ∧
      t = ⟨c, t.selectedSpanIds, c.representativeScore rt, t.selectedSpanIds.length < c.spans.length⟩ := by
  unfold truncate at found
  cases hS : c.selectIds rt maxSpans with
  | error e => rw [hS] at found; cases found
  | ok S =>
    rw [hS] at found
    cases hids : c.topologicalOrder rt S with
    | error e => simp only [bind, Except.bind, hids] at found; cases found
    | ok ids =>
      simp only [bind, Except.bind, hids] at found
      cases found
      exact ⟨S, rfl, hids, rfl⟩

/-- A set is as large as the list of it. -/
theorem Ordered.length_eq {ids : List String} (ordered : c.Ordered S ids) : ids.length = S.card := by
  have same : ids.toFinset = S := by
    ext id
    rw [List.mem_toFinset, ordered.members]
  rw [← same, List.toFinset_card_of_nodup ordered.distinct]

/-- The spans of a truncated candidate are a selection. -/
theorem selected_truncate (h : c.SpanTree) {maxSpans : Nat} (pos : 1 ≤ maxSpans) {t : SelectedTrace}
    (found : c.truncate rt maxSpans = .ok t) : c.Selects maxSpans t.selectedSpanIds := by
  obtain ⟨S, hS, hids, -⟩ := truncate_eq_ok found
  obtain ⟨upward, root, bound⟩ := selectIds_spec h pos hS
  have ordered := ordered_topologicalOrder h upward hids
  refine ⟨ordered.distinct, fun id hid => upward.within id ((ordered.members id).1 hid),
    fun id hid p hp => ?_, (ordered.members _).2 root, ordered.length_eq ▸ bound⟩
  exact (ordered.members p).2 (upward.closed id ((ordered.members id).1 hid) p hp)

end

end CandidateTrace

end SreAgent.Trace
