import Mathlib
import SreAgent.Trace.Agreement

/-!
# What the truncation keeps

Three cases: the critical and failed spans with their ancestors fit the limit, and the other spans
fill it in the order they start; or only the critical spans with their ancestors fit, and are kept
alone; or not even these, and a beginning of their preorder is kept. `truncate_selects_iff` says
that this is what `_truncate` returns, as long as the calls of `visit` fit on the stack.
-/

namespace SreAgent.Trace
open Base ParentChain

namespace CandidateTrace

/-! ## Closures -/

/-- The spans with a property, their ancestors, and the root. -/
def closure (c : CandidateTrace) (P : WorkerSpan → Prop) : Set String :=
  {x | x = c.rootSpanId ∨ ∃ span ∈ c.spans, P span ∧ Relation.ReflTransGen (Up c.parentOf) span.spanId x}

/-- The critical spans, their ancestors, and the root. -/
def critical (c : CandidateTrace) : Set String := c.closure fun span => span.criticalPath = true

/-- The critical and the failed spans, their ancestors, and the root. -/
def required (c : CandidateTrace) : Set String :=
  c.closure fun span => span.criticalPath = true ∨ span.status = "ERROR"

section

variable {c : CandidateTrace} {rt : Runtime} {S T : Finset String} {id : String} {maxSpans : Nat}

theorem coe_criticalClosure (h : c.SpanTree) : (c.criticalClosure : Set String) = c.critical := by
  ext x
  have within : ∀ id ∈ (c.spans.filter WorkerSpan.criticalPath).map WorkerSpan.spanId,
      id ∈ c.spans.map WorkerSpan.spanId :=
    fun id hid => (List.filter_sublist.map _).subset hid
  simp only [criticalClosure, Finset.coe_insert, Set.mem_insert_iff, Finset.mem_coe,
    mem_ancestorClosure h within, critical, closure, Set.mem_ofPred_eq, List.mem_map, List.mem_filter]
  refine or_congr_right ⟨?_, ?_⟩
  · rintro ⟨_, ⟨span, ⟨hspan, critical⟩, rfl⟩, path⟩
    exact ⟨span, hspan, critical, path⟩
  · rintro ⟨span, hspan, critical, path⟩
    exact ⟨_, ⟨span, ⟨hspan, critical⟩, rfl⟩, path⟩

theorem coe_requiredIds (h : c.SpanTree) : (c.requiredIds : Set String) = c.required := by
  ext x
  have within : ∀ id ∈ (c.spans.filter WorkerSpan.criticalPath).map WorkerSpan.spanId ++
      (c.spans.filter fun span => span.status = "ERROR").map WorkerSpan.spanId,
        id ∈ c.spans.map WorkerSpan.spanId := by
    intro id hid
    exact (List.mem_append.1 hid).elim (fun h => (List.filter_sublist.map _).subset h)
      fun h => (List.filter_sublist.map _).subset h
  simp only [requiredIds, Finset.coe_insert, Set.mem_insert_iff, Finset.mem_coe,
    mem_ancestorClosure h within, required,
    closure, Set.mem_ofPred_eq, List.mem_append, List.mem_map, List.mem_filter, decide_eq_true_eq]
  refine or_congr_right ⟨?_, ?_⟩
  · rintro ⟨_, ⟨span, ⟨hspan, critical⟩, rfl⟩ | ⟨span, ⟨hspan, error⟩, rfl⟩, path⟩
    · exact ⟨span, hspan, .inl critical, path⟩
    · exact ⟨span, hspan, .inr error, path⟩
  · rintro ⟨span, hspan, critical | error, path⟩
    · exact ⟨_, .inl ⟨span, ⟨hspan, critical⟩, rfl⟩, path⟩
    · exact ⟨_, .inr ⟨span, ⟨hspan, error⟩, rfl⟩, path⟩

/-! ## Filling up -/

/-- The required spans, filled up in the order the spans start. -/
def filledIds (c : CandidateTrace) (maxSpans : Nat) : Finset String :=
  c.stableSpanIds.foldl (c.addWithAncestors maxSpans) c.requiredIds

/-- A span is added with its ancestors, unless they are too many. -/
theorem foldl_addWithAncestors_tried {ids : List String} (S : Finset String) :
    S ⊆ ids.foldl (c.addWithAncestors maxSpans) S ∧
      ∀ id ∈ ids, c.ancestorClosure [id] ⊆ ids.foldl (c.addWithAncestors maxSpans) S ∨
        maxSpans < (ids.foldl (c.addWithAncestors maxSpans) S ∪ c.ancestorClosure [id]).card := by
  induction ids generalizing S with
  | nil => exact ⟨subset_rfl, by simp⟩
  | cons id rest ih =>
    obtain ⟨kept, tried⟩ := ih (c.addWithAncestors maxSpans S id)
    have grown : S ⊆ c.addWithAncestors maxSpans S id := by
      unfold addWithAncestors
      dsimp only
      split
      · exact Finset.subset_union_left
      · exact subset_rfl
    refine ⟨grown.trans kept, List.forall_mem_cons.2 ⟨?_, tried⟩⟩
    by_cases small : (S ∪ c.ancestorClosure [id]).card ≤ maxSpans
    · have added : c.addWithAncestors maxSpans S id = S ∪ c.ancestorClosure [id] := if_pos small
      rw [added] at kept
      rw [List.foldl_cons, added]
      exact .inl (Finset.subset_union_right.trans kept)
    · have many :=
        Finset.card_le_card (Finset.union_subset_union_left (t := c.ancestorClosure [id]) (grown.trans kept))
      exact .inr ((not_le.1 small).trans_le many)

/-- A span outside of a set with the root has an ancestor that is the first one outside. -/
theorem exists_boundary (h : c.SpanTree) (root : c.rootSpanId ∈ S) (hid : id ∈ c.spans.map WorkerSpan.spanId)
    (outside : id ∉ S) : ∃ x ∈ c.spans.map WorkerSpan.spanId, x ∉ S ∧
      ∃ p ∈ S, c.parentOf x = some (some p) := by
  have near := h.rootWithin hid
  generalize c.spans.length + 1 = n at near
  induction near with
  | root known => exact absurd (h.root_unique known ▸ root) outside
  | @step n x p parent _ ih =>
    by_cases hp : p ∈ S
    · exact ⟨x, hid, outside, p, hp, parent⟩
    · exact ih (h.parents_within _ hid _ parent) hp

/-- What is filled up fits the budget. -/
theorem fits_filledIds (h : c.SpanTree) (few : c.requiredIds.card ≤ maxSpans) :
    c.Fits maxSpans (c.filledIds maxSpans) :=
  foldl_addWithAncestors h ⟨upward_requiredIds h, Finset.mem_insert_self _ _, few⟩ fun _ =>
    mem_stableSpanIds.1

/-- Filling up wastes no place. -/
theorem card_filledIds (h : c.SpanTree) (few : c.requiredIds.card ≤ maxSpans) :
    (c.filledIds maxSpans).card = min c.spans.length maxSpans := by
  obtain ⟨upward, root, bound⟩ := fits_filledIds h few
  have within : c.filledIds maxSpans ⊆ (c.spans.map WorkerSpan.spanId).toFinset := fun id hid =>
    List.mem_toFinset.2 (upward.within id hid)
  have total : (c.spans.map WorkerSpan.spanId).toFinset.card = c.spans.length := by
    rw [List.toFinset_card_of_nodup h.distinct, List.length_map]
  have most := Finset.card_le_card within
  by_cases full : (c.filledIds maxSpans).card = maxSpans
  · omega
  · have all : (c.spans.map WorkerSpan.spanId).toFinset ⊆ c.filledIds maxSpans := by
      intro id hid
      by_contra outside
      obtain ⟨x, hx, missing, p, hp, parent⟩ := exists_boundary h root (List.mem_toFinset.1 hid) outside
      -- all ancestors of the boundary are selected, so it needs one place
      have one : c.filledIds maxSpans ∪ c.ancestorClosure [x] ⊆ insert x (c.filledIds maxSpans) := by
        refine Finset.union_subset (Finset.subset_insert _ _) fun y hy => ?_
        obtain ⟨_, hx', path⟩ := (mem_ancestorClosure h (by simpa using hx)).1 hy
        rw [List.mem_singleton.1 hx'] at path
        rcases Relation.ReflTransGen.cases_head_iff.1 path with rfl | ⟨q, up, rest⟩
        · exact Finset.mem_insert_self _ _
        · cases parent.symm.trans up
          exact Finset.mem_insert_of_mem
            (closed_of_path (S := {id | id ∈ c.filledIds maxSpans}) upward.closed rest hp)
      rcases (foldl_addWithAncestors_tried c.requiredIds).2 x (mem_stableSpanIds.2 hx) with added | many
      · exact missing (added ((mem_ancestorClosure h (by simpa using hx)).2 ⟨x, by simp, .refl⟩))
      · have := (Finset.card_le_card one).trans (Finset.card_insert_le _ _)
        exact absurd many (by unfold filledIds at *; omega)
    have := Finset.card_le_card all
    omega

/-! ## The result -/

/-- What `_truncate` is meant to return. -/
structure Truncated (c : CandidateTrace) (maxSpans : Nat) (t : SelectedTrace) : Prop extends
    c.Selects maxSpans t.selectedSpanIds where
  parentsFirst : ParentsFirst c.parentOf ∅ t.selectedSpanIds
  siblings : t.selectedSpanIds.Pairwise c.Siblings
  truncated : t.truncated = true ↔ t.selectedSpanIds.length < c.spans.length
  filled : c.required.ncard ≤ maxSpans →
    (∀ id ∈ c.required, id ∈ t.selectedSpanIds) ∧ t.selectedSpanIds.length = min c.spans.length maxSpans
  critical : maxSpans < c.required.ncard → c.critical.ncard ≤ maxSpans → ∀ id, id ∈ t.selectedSpanIds ↔
    id ∈ c.critical
  beginning : maxSpans < c.required.ncard → maxSpans < c.critical.ncard → ∀ id, id ∈ t.selectedSpanIds ↔
    id ∈ (preorder (c.childrenOf c.criticalClosure) (c.spans.length + 1)).take maxSpans

/-- The spans `visit` walks: the critical ones with their ancestors, or those that fill the limit. -/
def visitedIds (c : CandidateTrace) (maxSpans : Nat) : Finset String :=
  if maxSpans < c.requiredIds.card then c.criticalClosure else c.filledIds maxSpans

/-- The chains of all spans that are walked fit on the stack. -/
def FitsStack (rt : Runtime) (c : CandidateTrace) (maxSpans : Nat) : Prop :=
  ∀ id ∈ c.visitedIds maxSpans, RootWithin c.parentOf rt.frames id

/-- Few required spans are filled up. -/
theorem selectIds_of_few (few : c.requiredIds.card ≤ maxSpans) :
    c.selectIds rt maxSpans = .ok (c.filledIds maxSpans) :=
  if_neg (not_lt.2 few)

/-- Of many required spans the first ones in order are selected. -/
theorem selectIds_of_many (many : maxSpans < c.requiredIds.card) {ids : List String}
    (found : c.topologicalOrder rt c.criticalClosure = .ok ids) :
    c.selectIds rt maxSpans = .ok (ids.take maxSpans).toFinset := by
  rw [selectIds, if_pos many, found]
  rfl

/-- The order of spans that fit on the stack is found. -/
theorem exists_topologicalOrder (h : c.SpanTree) (hS : c.Upward S)
    (near : ∀ id ∈ S, RootWithin c.parentOf rt.frames id) :
    ∃ ids, c.topologicalOrder rt S = .ok ids :=
  ⟨_, (topologicalOrder_eq_ok h hS).2 ⟨near, rfl⟩⟩

/-- The order does not depend on the room on the stack. -/
theorem topologicalOrder_eq_preorder (h : c.SpanTree) (hS : c.Upward S) {ids : List String}
    (found : c.topologicalOrder rt S = .ok ids) : ids = preorder (c.childrenOf S) (c.spans.length + 1) := by
  obtain ⟨near, rfl⟩ := (topologicalOrder_eq_ok h hS).1 found
  have lists := lists_childrenOf h S
  rw [upward_set hS] at lists
  have rooted : ∀ id ∈ {id | id ∈ S}, EndsAtRoot c.parentOf id :=
    fun id hid => h.endsAtRoot (hS.within id hid)
  have within : ∀ {n : Nat}, (∀ id ∈ S, RootWithin c.parentOf n id) →
      preorderWithin (c.childrenOf S) n = some (preorder (c.childrenOf S) n) := fun near =>
    (preorderWithin_eq_some lists hS.closed rooted).2 ⟨near, rfl⟩
  rcases Nat.le_total rt.frames (c.spans.length + 1) with le | le
  · exact (preorder_of_within le (within near)).symm
  · exact preorder_of_within le (within fun id hid => h.rootWithin (hS.within id hid))

/-- The truncation returns exactly where the spans it walks fit on the stack. -/
theorem truncate_returns_iff (h : c.SpanTree) : (∃ t, c.truncate rt maxSpans = .ok t) ↔
      FitsStack rt c maxSpans := by
  unfold FitsStack visitedIds
  constructor
  · rintro ⟨t, found⟩
    obtain ⟨S, hS, hids, -⟩ := truncate_eq_ok found
    split
    · next many =>
      cases hordered : c.topologicalOrder rt c.criticalClosure with
      | error e => rw [selectIds, if_pos many, hordered] at hS; cases hS
      | ok ids => exact ((topologicalOrder_eq_ok h (upward_criticalClosure h)).1 hordered).1
    · next few =>
      cases (selectIds_of_few (not_lt.1 few)).symm.trans hS
      exact ((topologicalOrder_eq_ok h (fits_filledIds h (not_lt.1 few)).1).1 hids).1
  · intro near
    obtain ⟨S, hS, upward, near⟩ : ∃ S, c.selectIds rt maxSpans = .ok S ∧ c.Upward S ∧
        ∀ id ∈ S, RootWithin c.parentOf rt.frames id := by
      split at near
      · next many =>
        obtain ⟨ids, hordered⟩ := exists_topologicalOrder h (upward_criticalClosure h) near
        have ordered := ordered_topologicalOrder h (upward_criticalClosure h) hordered
        refine ⟨_, selectIds_of_many many hordered,
          upward_take (upward_criticalClosure h) ordered maxSpans, ?_⟩
        intro id hid
        exact near id ((ordered.members id).1 (List.mem_of_mem_take (List.mem_toFinset.1 hid)))
      · next few => exact ⟨_, selectIds_of_few (not_lt.1 few), (fits_filledIds h (not_lt.1 few)).1, near⟩
    obtain ⟨ids, hids⟩ := exists_topologicalOrder h upward near
    refine ⟨⟨c, ids, c.representativeScore rt, ids.length < c.spans.length⟩, ?_⟩
    simp only [truncate, hS, hids, bind, Except.bind]
    rfl

/-- A trace of fewer spans than calls may nest is always walked. -/
theorem fitsStack_of_small (h : c.SpanTree) (small : c.spans.length < rt.frames) :
    FitsStack rt c maxSpans := by
  have upward : c.Upward (c.visitedIds maxSpans) := by
    unfold visitedIds
    split
    · exact upward_criticalClosure h
    · next few => exact (fits_filledIds h (not_lt.1 few)).1
  intro id hid
  obtain ⟨d, le, depth⟩ := rootWithin_iff.1 (h.rootWithin (upward.within id hid))
  exact rootWithin_iff.2 ⟨d, by omega, depth⟩

/-- The order fails by nesting only. -/
theorem topologicalOrder_error {e : PyError} (h : c.topologicalOrder rt S = .error e) :
    e = .recursionError := by
  unfold topologicalOrder at h
  split at h
  · cases h
  · cases h
    rfl

/-- A truncation that does not return ran out of stack. -/
theorem truncate_error {e : PyError} (h : c.truncate rt maxSpans = .error e) : e = .recursionError := by
  unfold truncate at h
  cases hS : c.selectIds rt maxSpans with
  | error e' =>
    rw [hS] at h
    cases h
    unfold selectIds at hS
    split at hS
    · cases hordered : c.topologicalOrder rt c.criticalClosure with
      | error e'' =>
        rw [hordered] at hS
        cases hS
        exact topologicalOrder_error hordered
      | ok ids => rw [hordered] at hS; cases hS
    · cases hS
  | ok S =>
    rw [hS] at h
    cases hids : c.topologicalOrder rt S with
    | error e' =>
      simp only [bind, Except.bind, hids] at h
      cases h
      exact topologicalOrder_error hids
    | ok ids =>
      simp only [bind, Except.bind, hids] at h
      cases h

/-- What is returned is what is meant. -/
theorem truncated_of_found (h : c.SpanTree) (pos : 1 ≤ maxSpans) {t : SelectedTrace}
    (found : c.truncate rt maxSpans = .ok t) : c.Truncated maxSpans t := by
  obtain ⟨S, hS, hids, ht⟩ := truncate_eq_ok found
  obtain ⟨upward, -, -⟩ := selectIds_spec h pos hS
  have ordered := ordered_topologicalOrder h upward hids
  have sizes : c.required.ncard = c.requiredIds.card ∧ c.critical.ncard = c.criticalClosure.card := by
    rw [← coe_requiredIds h, ← coe_criticalClosure h, Set.ncard_coe_finset, Set.ncard_coe_finset]
    exact ⟨rfl, rfl⟩
  have critical : maxSpans < c.requiredIds.card → ∃ ids, c.topologicalOrder rt c.criticalClosure = .ok ids ∧
      S = (ids.take maxSpans).toFinset := by
    intro many
    cases hordered : c.topologicalOrder rt c.criticalClosure with
    | error e => rw [selectIds, if_pos many, hordered] at hS; cases hS
    | ok ids => exact ⟨ids, rfl, Except.ok.inj (hS.symm.trans (selectIds_of_many many hordered))⟩
  rw [sizes.1.symm] at critical
  refine ⟨selected_truncate h pos found, ordered.parentsFirst, ordered.siblings, ?_, fun few => ?_,
    fun many fits id => ?_, fun many beyond id => ?_⟩
  · rw [ht]
    exact decide_eq_true_iff
  · rw [sizes.1] at few
    cases (selectIds_of_few few).symm.trans hS
    refine ⟨fun id hid => (ordered.members id).2 ?_, ordered.length_eq.trans (card_filledIds h few)⟩
    rw [← coe_requiredIds h] at hid
    exact (foldl_addWithAncestors_tried c.requiredIds).1 hid
  · obtain ⟨ids, hordered, rfl⟩ := critical many
    have order := ordered_topologicalOrder h (upward_criticalClosure h) hordered
    rw [sizes.2, ← order.length_eq] at fits
    rw [ordered.members, List.mem_toFinset, List.take_of_length_le fits, order.members,
      ← coe_criticalClosure h, Finset.mem_coe]
  · obtain ⟨ids, hordered, rfl⟩ := critical many
    rw [ordered.members, List.mem_toFinset,
      topologicalOrder_eq_preorder h (upward_criticalClosure h) hordered]

/-- The truncation keeps what it is meant to, exactly where the spans it walks fit on the stack. -/
theorem truncate_selects_iff (h : c.SpanTree) (pos : 1 ≤ maxSpans) :
    (∃ t, c.truncate rt maxSpans = .ok t ∧ c.Truncated maxSpans t) ↔ FitsStack rt c maxSpans := by
  rw [← truncate_returns_iff h]
  constructor
  · rintro ⟨t, found, -⟩
    exact ⟨t, found⟩
  · rintro ⟨t, found⟩
    exact ⟨t, found, truncated_of_found h pos found⟩

end

end CandidateTrace

/-! ## A chain that is too deep -/

/-- Ids of growing length. -/
def deepId (n : Nat) : String := String.ofList (List.replicate (n + 1) 's')

/-- Critical spans, each the child of the one before. -/
def deepSpan : Nat → WorkerSpan
  | 0 => ⟨deepId 0, none, "api", "GET /a", 0, 1, "OK", "SERVER", true, []⟩
  | n + 1 => ⟨deepId (n + 1), some (deepId n), "api", "call", 0, 1, "OK", "INTERNAL", true, []⟩

/-- A trace of `n` nested critical spans. -/
def deepTrace (n : Nat) : InputTrace := ⟨"4bf92f35", (0, 0), 0, some 1, (List.range n).map deepSpan⟩

section Deep

theorem deepId_injective : Function.Injective deepId := by
  intro m n h
  have := congrArg (fun s => s.toList.length) h
  simpa [deepId] using this

@[simp] theorem spanId_deepSpan (n : Nat) : (deepSpan n).spanId = deepId n := by cases n <;> rfl

@[simp] theorem times_deepSpan (n : Nat) : (deepSpan n).startOffsetMs = 0 ∧ (deepSpan n).durationMs = 1 := by
  cases n <;> exact ⟨rfl, rfl⟩

theorem parent_deepSpan {n : Nat} {p : String} (h : (deepSpan n).parentSpanId = some p) :
    ∃ m, m + 1 = n ∧ p = deepId m := by
  cases n with
  | zero => cases h
  | succ m =>
    cases h
    exact ⟨m, rfl, rfl⟩

theorem nodup_deepIds (n : Nat) : ((deepTrace n).spans.map WorkerSpan.spanId).Nodup := by
  simp only [deepTrace, List.map_map, Function.comp_def, spanId_deepSpan]
  exact List.nodup_range.map deepId_injective

theorem entry_deep {n m : Nat} (h : m < n) :
    entry (workerLinks (deepTrace n).spans) (deepId m) = some (deepSpan m).parentSpanId := by
  have distinct : ((workerLinks (deepTrace n).spans).map Prod.fst).Nodup := by
    rw [map_fst_workerLinks]
    exact nodup_deepIds n
  have listed : (deepId m, (deepSpan m).parentSpanId) ∈ workerLinks (deepTrace n).spans :=
    List.mem_map.2 ⟨deepSpan m, List.mem_map_of_mem (List.mem_range.2 h), by simp⟩
  exact entry_of_mem distinct listed

theorem endsAtRoot_deep {n m : Nat} (h : m < n) :
    EndsAtRoot (entry (workerLinks (deepTrace n).spans)) (deepId m) := by
  induction m with
  | zero => exact .here (entry_deep h)
  | succ m ih => exact .step (entry_deep h) (ih (by omega))

/-- The worker takes the trace. -/
theorem validatedCandidate_deep {n : Nat} (pos : 0 < n) : validatedCandidate isoRuntime (deepTrace n) =
    .ok (some ((deepTrace n).candidate isoRuntime (deepSpan 0) (deepTrace n).spans)) := by
  have spans : ∀ span ∈ (deepTrace n).spans, ∃ m < n, span = deepSpan m := by
    intro span hspan
    obtain ⟨m, hm, rfl⟩ := List.mem_map.1 hspan
    exact ⟨m, List.mem_range.1 hm, rfl⟩
  have unchanged : ∀ spans : List Nat, normalizeSpans isoRuntime.toInterpreter (spans.map deepSpan) =
      .ok (spans.map deepSpan) := by
    intro spans
    induction spans with
    | nil => rfl
    | cons m rest ih =>
      rw [List.map_cons, normalizeSpans, ih]
      cases m <;> rfl
  have wellFormed : (deepTrace n).WellFormed isoRuntime (deepSpan 0) := by
    refine ⟨nodup_deepIds n, ?_, fun span hspan p hp => ?_, ?_, fun span hspan => ?_⟩
    · have only : ∀ m, decide ((deepSpan m).parentSpanId = none) = decide (m = 0) := fun m => by
        cases m <;> rfl
      obtain ⟨k, rfl⟩ : ∃ k, n = k + 1 := ⟨n - 1, by omega⟩
      simp only [deepTrace, List.filter_map, Function.comp_def, only]
      rw [List.range_succ_eq_map, List.filter_cons_of_pos (by simp), List.filter_eq_nil_iff.2]
      · rfl
      · intro a ha
        obtain ⟨b, -, rfl⟩ := List.mem_map.1 ha
        simp
    · obtain ⟨m, hm, rfl⟩ := spans span hspan
      obtain ⟨k, rfl, rfl⟩ := parent_deepSpan hp
      refine List.mem_map.2 ⟨deepSpan k, List.mem_map_of_mem (List.mem_range.2 (by omega)), by simp⟩
    · refine Bool.eq_false_iff.2 fun cycle => ?_
      obtain ⟨span, hspan, walks⟩ := List.any_eq_true.1 cycle
      obtain ⟨m, hm, rfl⟩ := spans span hspan
      have root := (walk_eq_root (entry_known (workerLinks (deepTrace n).spans))).2 (endsAtRoot_deep hm)
      rw [map_fst_workerLinks, List.length_map] at root
      rw [spanId_deepSpan, root] at walks
      cases walks
    · obtain ⟨m, -, rfl⟩ := spans span hspan
      simp only [WorkerSpan.endMs, times_deepSpan, InputTrace.duration, deepTrace]
      decide +kernel
  rcases validatedCandidate_eq isoRuntime (deepTrace n) with ⟨root, wellFormed', validated⟩ | ⟨malformed, -⟩
  · have same : [root] = [deepSpan 0] := wellFormed'.oneRoot.symm.trans wellFormed.oneRoot
    cases List.cons.inj same |>.1
    have : normalizeSpans isoRuntime.toInterpreter (deepTrace n).spans = .ok (deepTrace n).spans :=
      unchanged _
    rw [validated, this]
    rfl
  · exact absurd wellFormed (malformed _)

/-- The candidate of `n` nested critical spans. -/
def deepCandidate (n : Nat) : CandidateTrace :=
  (deepTrace n).candidate isoRuntime (deepSpan 0) (deepTrace n).spans

theorem spanTree_deep {n : Nat} (pos : 0 < n) : (deepCandidate n).SpanTree :=
  spanTree_of_validated (validatedCandidate_deep pos)

/-- The walk down to a span nests as many calls as the span has ancestors, and one more. -/
theorem not_rootWithin_deep {n m : Nat} (h : m < n) :
    ¬ RootWithin (deepCandidate n).parentOf m (deepId m) := by
  induction m with
  | zero => nofun
  | succ m ih =>
    intro near
    have parent : (deepCandidate n).parentOf (deepId (m + 1)) = some (some (deepId m)) := entry_deep h
    cases near with
    | root known => cases parent.symm.trans known
    | step parent' rest =>
      cases parent.symm.trans parent'
      exact ih (by omega) rest

theorem critical_deep {n m : Nat} (h : m < n) : deepId m ∈ (deepCandidate n).critical := by
  refine .inr ⟨deepSpan m, List.mem_map_of_mem (List.mem_range.2 h), ?_, ?_⟩
  · cases m <;> rfl
  · rw [spanId_deepSpan]

/-- A small trace is truncated as it is meant. -/
theorem nested_truncated : 1 ≤ 2 ∧ (deepCandidate 3).SpanTree ∧
    ∃ t, (deepCandidate 3).truncate isoRuntime 2 = .ok t ∧ (deepCandidate 3).Truncated 2 t := by
  have tree := spanTree_deep (n := 3) (by decide)
  have small : (deepCandidate 3).spans.length < isoRuntime.frames := by decide
  exact ⟨by decide, tree, (CandidateTrace.truncate_selects_iff tree (by decide)).2
    (CandidateTrace.fitsStack_of_small tree small)⟩

/-- A chain of more critical spans than calls may nest raises instead of being cut to 100 spans. -/
theorem deep_chain_raises : validatedCandidate isoRuntime (deepTrace 1001) = .ok (some (deepCandidate 1001)) ∧
    (deepCandidate 1001).truncate isoRuntime 100 = .error .recursionError ∧
    ¬ ∃ t, (deepCandidate 1001).truncate isoRuntime 100 = .ok t ∧ (deepCandidate 1001).Truncated 100 t := by
  have tree := spanTree_deep (n := 1001) (by omega)
  have many : 100 < (deepCandidate 1001).requiredIds.card := by
    have sub : (Finset.range 1001).image deepId ⊆ (deepCandidate 1001).requiredIds := by
      intro id hid
      obtain ⟨m, hm, rfl⟩ := Finset.mem_image.1 hid
      rw [← Finset.mem_coe, CandidateTrace.coe_requiredIds tree]
      rcases critical_deep (Finset.mem_range.1 hm) with root | ⟨span, hspan, hcritical, path⟩
      · exact .inl root
      · exact .inr ⟨span, hspan, .inl hcritical, path⟩
    have := Finset.card_le_card sub
    rw [Finset.card_image_of_injective _ deepId_injective, Finset.card_range] at this
    omega
  have deep : ¬ CandidateTrace.FitsStack isoRuntime (deepCandidate 1001) 100 := by
    intro fits
    refine not_rootWithin_deep (n := 1001) (m := 1000) (by omega) (fits (deepId 1000) ?_)
    rw [CandidateTrace.visitedIds, if_pos many, ← Finset.mem_coe, CandidateTrace.coe_criticalClosure tree]
    exact critical_deep (by omega)
  have stuck := mt (CandidateTrace.truncate_returns_iff tree).1 deep
  refine ⟨validatedCandidate_deep (by omega), ?_, fun ⟨t, found, _⟩ => stuck ⟨t, found⟩⟩
  cases h : (deepCandidate 1001).truncate isoRuntime 100 with
  | ok t => exact absurd ⟨t, h⟩ stuck
  | error e => rw [CandidateTrace.truncate_error h]

end Deep

end SreAgent.Trace
