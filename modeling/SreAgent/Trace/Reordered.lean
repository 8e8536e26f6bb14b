import Mathlib
import SreAgent.Trace.Ranking
import SreAgent.Trace.Truncation

/-!
# Spans in another order

A candidate whose spans are listed in another order has the same keys, is cut to the same spans in
the same order, and is written as the same dictionary: whatever looks at the spans looks them up by
id, collects them in a set, or sorts them (`stored_eq`).
-/

namespace SreAgent.Trace
open Base JsonParse ParentChain

/-- The same trace, its spans listed in another order. -/
structure CandidateTrace.Reordered (c c' : CandidateTrace) : Prop where
  traceId : c'.traceId = c.traceId
  startedAt : c'.startedAt = c.startedAt
  score : c'.latencyAnomalyScore = c.latencyAnomalyScore
  duration : c'.durationMs = c.durationMs
  rootSpanId : c'.rootSpanId = c.rootSpanId
  spans : c.spans.Perm c'.spans

/-! ## Lookups -/

/-- A lookup by a key does not depend on the order, where no key stands twice. -/
theorem find?_perm {α β : Type*} [DecidableEq β] {f : α → β} {l l' : List α} (perm : l.Perm l')
    (distinct : (l.map f).Nodup) (b : β) : l'.find? (fun a => f a = b) = l.find? fun a => f a = b := by
  have unique : ∀ {l : List α}, (l.map f).Nodup → ∀ a ∈ l, f a = b → l.find? (fun a => f a = b) = some a := by
    intro l distinct a ha hab
    cases found : l.find? fun a => f a = b with
    | none => exact absurd (decide_eq_true hab) (List.find?_eq_none.1 found a ha)
    | some a' =>
      have same : f a' = b := of_decide_eq_true (List.find?_some (p := fun a => decide (f a = b)) found)
      rw [List.inj_on_of_nodup_map distinct (List.mem_of_find?_eq_some found) ha (same.trans hab.symm)]
  cases found : l.find? fun a => f a = b with
  | none =>
    refine List.find?_eq_none.2 fun a ha => ?_
    exact List.find?_eq_none.1 found a (perm.mem_iff.2 ha)
  | some a =>
    have same : f a = b := of_decide_eq_true (List.find?_some (p := fun a => decide (f a = b)) found)
    exact unique ((perm.map f).nodup_iff.1 distinct) a (perm.mem_iff.1 (List.mem_of_find?_eq_some found)) same

theorem entry_perm {ι : Type*} [DecidableEq ι] {links links' : List (ι × Option ι)} (perm : links.Perm links')
    (distinct : (links.map Prod.fst).Nodup) : entry links' = entry links := by
  funext id
  rw [entry, entry, find?_perm perm distinct]

/-- A list sorted by an order that tells its items apart does not depend on how it was listed. -/
theorem insertionSort_perm {α : Type*} {r : α → α → Prop} [DecidableRel r] [Std.Total r] [IsTrans α r]
    {l l' : List α} (perm : l.Perm l') (antisymm : ∀ a ∈ l, ∀ b ∈ l, r a b → r b a → a = b) :
    l'.insertionSort r = l.insertionSort r := by
  have sorted := List.pairwise_insertionSort r l'
  have sorted' := List.pairwise_insertionSort r l
  refine List.Perm.eq_of_pairwise (fun a b ha hb => antisymm a ?_ b ?_) sorted sorted' ?_
  · exact perm.mem_iff.2 ((List.mem_insertionSort r).1 ha)
  · exact (List.mem_insertionSort r).1 hb
  · exact ((List.perm_insertionSort r l').trans perm.symm).trans (List.perm_insertionSort r l).symm

/-! ## Texts -/

/-- A word without the separator lies on one side of it. -/
theorem infix_append_cons_iff {α : Type*} {word a b : List α} {sep : α} (clean : sep ∉ word) :
    word <:+: a ++ sep :: b ↔ word <:+: a ∨ word <:+: b := by
  constructor
  · rintro ⟨before, after, h⟩
    rw [List.append_assoc, List.append_eq_append_iff] at h
    rcases h with ⟨mid, rfl, h⟩ | ⟨mid, rfl, h⟩
    · rcases List.append_eq_append_iff.1 h with ⟨rest, rfl, -⟩ | ⟨rest, rfl, across⟩
      · exact .inl ⟨before, rest, by simp⟩
      · cases rest with
        | nil => exact .inl ⟨before, [], by simp⟩
        | cons x rest =>
          have : x = sep := (List.cons.inj across).1.symm
          exact absurd (by simp [this]) clean
    · cases mid with
      | nil =>
        cases word with
        | nil => exact .inl List.nil_infix
        | cons x word => exact absurd (by simp [(List.cons.inj h).1]) clean
      | cons x mid =>
        exact .inr ⟨mid, after, by rw [List.append_assoc]; exact (List.cons.inj h).2.symm⟩
  · rintro (inside | inside)
    · exact inside.trans (List.prefix_append a _).isInfix
    · exact inside.trans ((List.suffix_cons sep b).trans (List.suffix_append a _)).isInfix

/-- A word without the separator lies in one of the joined texts. -/
theorem infix_intercalate_iff {α : Type*} {word : List α} {sep : α} (clean : sep ∉ word)
    (nonempty : word ≠ []) (texts : List (List α)) : word <:+: [sep].intercalate texts ↔
      ∃ text ∈ texts, word <:+: text := by
  induction texts with
  | nil => simp [nonempty]
  | cons text rest ih =>
    cases rest with
    | nil => simp
    | cons next rest =>
      rw [List.intercalate_cons_cons, List.append_assoc, List.singleton_append,
        infix_append_cons_iff clean, ih]
      simp

/-- Tokens are not empty and have no blank. -/
theorem mem_tokens {cs token : List Char} (h : token ∈ tokens cs) : token ≠ [] ∧ ' ' ∉ token := by
  obtain ⟨hmem, nonempty⟩ := List.mem_filter.1 h
  obtain ⟨part, hpart, rfl⟩ := List.mem_map.1 hmem
  refine ⟨by simpa using nonempty, fun blank => ?_⟩
  have inside := (List.dropWhile_suffix _).subset blank
  exact absurd (Text.clean_of_mem_splitOnP _ hpart ' ' inside) (by decide)

/-! ## A candidate -/

/-- Spans are told apart by their ids. -/
theorem CandidateTrace.SpanTree.earlier_antisymm {c : CandidateTrace} (tree : c.SpanTree) :
    ∀ a ∈ c.spans, ∀ b ∈ c.spans, a.Earlier b → b.Earlier a → a = b := by
  intro a ha b hb hab hba
  refine List.inj_on_of_nodup_map tree.distinct ha hb ?_
  rcases hab with hab | ⟨same, hab⟩
  · rcases hba with hba | ⟨same, -⟩
    · exact absurd hab hba.not_gt
    · exact absurd hab (by rw [same]; exact lt_irrefl _)
  · rcases hba with hba | ⟨-, hba⟩
    · exact absurd hba (by rw [same]; exact lt_irrefl _)
    · exact le_antisymm hab hba

namespace CandidateTrace.Reordered

variable {c c' : CandidateTrace} {rt : Runtime} (h : c.Reordered c')

include h

theorem links : (workerLinks c.spans).Perm (workerLinks c'.spans) := h.spans.map _

theorem length : c'.spans.length = c.spans.length := h.spans.length_eq.symm

theorem parentOf (tree : c.SpanTree) : c'.parentOf = c.parentOf := entry_perm h.links tree.tree.distinct

theorem spanById (tree : c.SpanTree) : c'.spanById = c.spanById :=
  funext fun id => find?_perm h.spans tree.distinct id

/-- A tree stays one. -/
theorem spanTree (tree : c.SpanTree) : c'.SpanTree := by
  have parents : entry (workerLinks c'.spans) = entry (workerLinks c.spans) := h.parentOf tree
  refine ⟨⟨(h.links.map _).nodup_iff.1 tree.tree.distinct, ?_, fun link hlink p hp => ?_, ?_⟩, ?_⟩
  · rw [← (h.links.filter _).length_eq]
    exact tree.tree.oneRoot
  · exact (h.links.map _).mem_iff.1 (tree.tree.parents link (h.links.mem_iff.2 hlink) p hp)
  · rw [parents]
    exact tree.tree.acyclic
  · obtain ⟨root, hroot, hid, hparent⟩ := tree.root
    exact ⟨root, h.spans.mem_iff.1 hroot, hid.trans h.rootSpanId.symm, hparent⟩

theorem hasError (tree : c.SpanTree) : c'.hasError = c.hasError := by
  unfold CandidateTrace.hasError
  rw [h.spanById tree, h.rootSpanId, h.spans.any_eq]

/-- The tokens found in the texts of the spans do not depend on the order of these. -/
theorem issueMatchScore (alertIssue : String) :
    issueMatchScore c' alertIssue = issueMatchScore c alertIssue := by
  unfold Trace.issueMatchScore
  refine congrArg List.length (List.filter_congr fun token htoken => decide_eq_decide.2 ?_)
  have inside : token ∈ tokens (lower alertIssue.toList) := (List.mem_filter.1 (List.mem_dedup.1 htoken)).1
  obtain ⟨nonempty, clean⟩ := mem_tokens inside
  rw [infix_intercalate_iff clean nonempty, infix_intercalate_iff clean nonempty]
  simp only [(h.spans.map _).mem_iff]

theorem rankKey (tree : c.SpanTree) (alertIssue : String) : rankKey alertIssue c' = rankKey alertIssue c := by
  simp only [Trace.rankKey, h.hasError tree, h.score, h.issueMatchScore alertIssue, h.duration, h.traceId]

theorem representativeScore (tree : c.SpanTree) : c'.representativeScore rt = c.representativeScore rt := by
  simp only [CandidateTrace.representativeScore, h.hasError tree, h.score, h.duration]

theorem chain (tree : c.SpanTree) (fuel : Nat) (id : String) : c'.chain fuel id = c.chain fuel id := by
  induction fuel generalizing id with
  | zero => rfl
  | succ fuel ih =>
    rw [CandidateTrace.chain, CandidateTrace.chain, h.parentOf tree]
    simp only [ih]

theorem ancestorClosure (tree : c.SpanTree) {ids ids' : List String} (perm : ids.Perm ids') :
    c'.ancestorClosure ids' = c.ancestorClosure ids := by
  ext x
  simp only [CandidateTrace.ancestorClosure, List.mem_toFinset, List.mem_flatMap, h.chain tree, h.length,
    perm.mem_iff]

theorem criticalClosure (tree : c.SpanTree) : c'.criticalClosure = c.criticalClosure := by
  rw [CandidateTrace.criticalClosure, h.rootSpanId, h.ancestorClosure tree ((h.spans.filter _).map _)]
  rfl

theorem requiredIds (tree : c.SpanTree) : c'.requiredIds = c.requiredIds := by
  have perm := ((h.spans.filter WorkerSpan.criticalPath).map WorkerSpan.spanId).append
    ((h.spans.filter fun span => decide (span.status = "ERROR")).map WorkerSpan.spanId)
  unfold CandidateTrace.requiredIds
  dsimp only
  rw [h.rootSpanId, h.ancestorClosure tree perm]

theorem childrenOf (tree : c.SpanTree) : c'.childrenOf = c.childrenOf := by
  funext selected parent
  unfold CandidateTrace.childrenOf
  rw [insertionSort_perm (h.spans.filter _) fun a ha b hb =>
    tree.earlier_antisymm a (List.mem_filter.1 ha).1 b (List.mem_filter.1 hb).1]

theorem stableSpanIds (tree : c.SpanTree) : c'.stableSpanIds = c.stableSpanIds := by
  rw [CandidateTrace.stableSpanIds, insertionSort_perm h.spans tree.earlier_antisymm]
  rfl

theorem topologicalOrder (tree : c.SpanTree) : c'.topologicalOrder rt = c.topologicalOrder rt := by
  funext selected
  rw [CandidateTrace.topologicalOrder, h.childrenOf tree]
  rfl

/-- The same spans are selected. -/
theorem selectIds (tree : c.SpanTree) (maxSpans : Nat) :
    c'.selectIds rt maxSpans = c.selectIds rt maxSpans := by
  have added : c'.addWithAncestors maxSpans = c.addWithAncestors maxSpans := by
    funext selected id
    simp only [CandidateTrace.addWithAncestors, h.ancestorClosure tree (.refl [id])]
  simp only [CandidateTrace.selectIds, h.requiredIds tree, h.criticalClosure tree, h.topologicalOrder tree,
    h.stableSpanIds tree, added]

/-- The dictionary that is stored does not depend on the order of the spans. -/
theorem stored_eq (tree : c.SpanTree) (maxSpans : Nat) :
    (c'.truncate rt maxSpans >>= SelectedTrace.toStorageDict) = c.truncate rt maxSpans >>=
      SelectedTrace.toStorageDict := by
  simp only [CandidateTrace.truncate, h.selectIds tree, h.topologicalOrder tree, h.representativeScore tree,
    h.length]
  cases c.selectIds rt maxSpans with
  | error e => rfl
  | ok selected =>
    cases hids : c.topologicalOrder rt selected with
    | error e => simp only [bind, Except.bind, hids]
    | ok ids =>
      simp only [bind, Except.bind, pure, Except.pure, hids, SelectedTrace.toStorageDict, h.spanById tree,
        h.rootSpanId, h.startedAt, h.traceId, h.duration, h.length]

end CandidateTrace.Reordered

end SreAgent.Trace
