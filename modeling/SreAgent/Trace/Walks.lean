import SreAgent.Base.Climb
import SreAgent.Trace.Parsed
import SreAgent.Trace.Truncation

/-!
# The validation and the walks that rely on it

A trace passes `_validated_candidate` if its spans are one tree and end in time. The loop of
`_ancestor_closure` and the calls of `visit` keep no set of the nodes they saw: they end on what
passed, and the loop of `_has_cycle` on all spans whose parents are listed. Two things come between:
the test of a server address may raise, and `visit` calls itself once for every level of the tree
(`real_trees_pass_iff`).
-/

namespace SreAgent.Trace
open Base JsonParse ParentChain

/-- The spans of a trace are one tree, and end no later than the trace. -/
structure InputTrace.RealTree (rt : Runtime) (trace : InputTrace) : Prop where
  distinct : (trace.spans.map WorkerSpan.spanId).Nodup
  parents : ∀ span ∈ trace.spans, ∀ p, span.parentSpanId = some p → p ∈ trace.spans.map WorkerSpan.spanId
  rooted : ∃ root, (trace.spans.filter fun span => span.parentSpanId = none) = [root] ∧
    ∀ span ∈ trace.spans, Relation.ReflTransGen (Up (entry (workerLinks trace.spans))) span.spanId root.spanId
  inTime : ∀ span ∈ trace.spans, span.endMs rt ≤ rt.sum (trace.duration rt) 1

/-- The JWT test of a server address raises. -/
def AddressRaises (i : Interpreter) (attributes : Attributes) : Prop :=
  ∃ s, ("server.address", Scalar.str s) ∈ attributes ∧ '%' ∉ s.toList ∧ ∃ e, isCompactJwt i s = .error e

/-- Only real trees pass, and the walks over what passed end. -/
structure InputTrace.WalksEnd (rt : Runtime) (trace : InputTrace) : Prop where
  passes : (∃ c, validatedCandidate rt trace = .ok (some c)) ↔ trace.RealTree rt
  hasCycle : ∀ spans : List WorkerSpan,
    (∀ span ∈ spans, ∀ p, span.parentSpanId = some p → p ∈ spans.map WorkerSpan.spanId) →
      ∀ fuel, spans.length < fuel →
        search (entry (workerLinks spans)) fuel (spans.map WorkerSpan.spanId) = .done (hasCycle spans)
  ancestorClosure : ∀ c, validatedCandidate rt trace = .ok (some c) →
    ∀ ids : List String, (∀ id ∈ ids, id ∈ c.spans.map WorkerSpan.spanId) →
      ∀ fuel, c.spans.length < fuel → climbs c.parentOf fuel ∅ ids = .done (c.ancestorClosure ids)
  topologicalOrder : ∀ c, validatedCandidate rt trace = .ok (some c) → ∀ S, c.Upward S → c.rootSpanId ∈ S →
    ∃ ids, c.topologicalOrder rt S = .ok ids ∧ ids.Nodup ∧ ids.toFinset = S

/-! ## The loops -/

section Loops

variable {c : CandidateTrace} {rt : Runtime} {S : Finset String} {ids : List String}

/-- The cycle check ends where every parent is listed. -/
theorem search_hasCycle {spans : List WorkerSpan}
    (parents : ∀ span ∈ spans, ∀ p, span.parentSpanId = some p → p ∈ spans.map WorkerSpan.spanId) {fuel : Nat}
    (enough : spans.length < fuel) :
    search (entry (workerLinks spans)) fuel (spans.map WorkerSpan.spanId) = .done (hasCycle spans) := by
  have listed : ∀ link ∈ workerLinks spans, ∀ p, link.2 = some p → p ∈ (workerLinks spans).map Prod.fst := by
    intro link hlink p hp
    obtain ⟨span, hspan, rfl⟩ := List.mem_map.1 hlink
    rw [map_fst_workerLinks]
    exact parents span hspan p hp
  have total : ∀ id ∈ spans.map WorkerSpan.spanId, ¬ Dangles (entry (workerLinks spans)) id := by
    intro id hid dangles
    apply unlisted_of_dangles listed dangles
    rwa [map_fst_workerLinks]
  have known := entry_known (workerLinks spans)
  rw [map_fst_workerLinks] at known
  have ends := search_ends known total (by rwa [List.length_map])
  rw [ends, List.length_map, List.any_map]
  rfl

/-- The loop of `_ancestor_closure` ends on the spans of a tree. -/
theorem climbs_ancestorClosure (h : c.SpanTree) (within : ∀ id ∈ ids, id ∈ c.spans.map WorkerSpan.spanId)
    {fuel : Nat} (enough : c.spans.length < fuel) :
    climbs c.parentOf fuel ∅ ids = .done (c.ancestorClosure ids) := by
  obtain ⟨T, ends, members⟩ := climbs_end (fun id hid => h.rootWithin (within id hid)) ∅
  have same : T = c.ancestorClosure ids := by
    ext x
    rw [members, CandidateTrace.mem_ancestorClosure h within]
    simp
  rw [ends fuel enough, same]

/-- The order of a set that fits on the stack is a permutation of it. -/
theorem topologicalOrder_perm (h : c.SpanTree) (hS : c.Upward S)
    (near : ∀ id ∈ S, RootWithin c.parentOf rt.frames id) :
    ∃ ids, c.topologicalOrder rt S = .ok ids ∧ ids.Nodup ∧ ids.toFinset = S := by
  obtain ⟨ids, found⟩ := CandidateTrace.exists_topologicalOrder h hS near
  have ordered := CandidateTrace.ordered_topologicalOrder h hS found
  refine ⟨ids, found, ordered.distinct, ?_⟩
  ext id
  rw [List.mem_toFinset, ordered.members]

/-- All spans of a tree are a set of spans with their parents. -/
theorem upward_all (h : c.SpanTree) : c.Upward (c.spans.map WorkerSpan.spanId).toFinset := by
  constructor
  · intro id hid
    exact List.mem_toFinset.1 hid
  · intro id hid p hp
    exact List.mem_toFinset.2 (h.parents_within id (List.mem_toFinset.1 hid) p hp)

end Loops

/-! ## Trees -/

section Trees

variable {rt : Runtime} {trace : InputTrace}

/-- A trace is a real tree where it passes the checks. -/
theorem realTree_iff : trace.RealTree rt ↔ ∃ root, trace.WellFormed rt root := by
  constructor
  · rintro ⟨distinct, parents, ⟨root, oneRoot, reaches⟩, inTime⟩
    have here : root ∈ trace.spans.filter fun span => span.parentSpanId = none := by
      rw [oneRoot]
      exact List.mem_singleton_self root
    rw [List.mem_filter, decide_eq_true_eq] at here
    have listed : (root.spanId, root.parentSpanId) ∈ workerLinks trace.spans := List.mem_map_of_mem here.1
    have known : entry (workerLinks trace.spans) root.spanId = some none := by
      rw [← map_fst_workerLinks] at distinct
      rw [entry_of_mem distinct listed, here.2]
    refine ⟨root, distinct, oneRoot, parents, Bool.eq_false_iff.2 fun cycle => ?_, inTime⟩
    obtain ⟨span, hspan, walks⟩ := List.any_eq_true.1 cycle
    have ends : EndsAtRoot (entry (workerLinks trace.spans)) span.spanId :=
      Ends.descendant (.here known) (reaches span hspan)
    have root := (walk_eq_root (entry_known (workerLinks trace.spans))).2 ends
    rw [map_fst_workerLinks, List.length_map] at root
    rw [root] at walks
    cases walks
  · rintro ⟨root, distinct, oneRoot, parents, noCycle, inTime⟩
    refine ⟨distinct, parents, ⟨root, oneRoot, fun span hspan => ?_⟩, inTime⟩
    have tree := isTree_of_checks distinct oneRoot parents noCycle
    have listed : (span.spanId, span.parentSpanId) ∈ workerLinks trace.spans := List.mem_map_of_mem hspan
    obtain ⟨_, r, -, path, top⟩ := ((isTree_iff tree.distinct tree.oneRoot).1 tree _ listed).depth
    obtain ⟨top', htop', same⟩ := List.mem_map.1 (mem_of_entry top)
    have first : top' ∈ [root] := by
      rw [← oneRoot, List.mem_filter, decide_eq_true_eq]
      exact ⟨htop', congrArg Prod.snd same⟩
    rw [List.mem_singleton] at first
    subst first
    rwa [show top'.spanId = r from congrArg Prod.fst same]

end Trees

/-! ## Filters -/

section Filters

variable {rt : Runtime} {trace : InputTrace}

/-- An address fails where the check for a token does. -/
theorem isSafeServerAddress_fails {i : Interpreter} {value : Scalar} :
    (∃ e, isSafeServerAddress i value = .error e) ↔
    ∃ s, value = .str s ∧ '%' ∉ s.toList ∧ ∃ e, isCompactJwt i s = .error e := by
  cases value with
  | str s =>
    simp only [isSafeServerAddress, Scalar.str.injEq, exists_eq_left']
    split
    · next percent => simp [percent]
    · next plain =>
      cases isCompactJwt i s with
      | ok jwt => cases jwt <;> simp [bind, Except.bind, pure, Except.pure]
      | error e => simp [bind, Except.bind, plain]
  | int | float | bool => simp [isSafeServerAddress]

/-- Only an address fails. -/
theorem keepsAttribute_fails {serviceName operationName key : String} {value : Scalar} :
    (∃ e, keepsAttribute rt.toInterpreter serviceName operationName key value = .error e) ↔
      key = "server.address" ∧ ∃ e, isSafeServerAddress rt.toInterpreter value = .error e := by
  by_cases address : key = "server.address"
  · subst address
    simp [keepsAttribute]
  · obtain ⟨keep, hkeep⟩ := keepsAttribute_total rt serviceName operationName address value
    simp [hkeep, address]

/-- The filter of a span raises where the test of an address does. -/
theorem filter_fails {span : WorkerSpan} :
    (∃ e, span.filter rt.toInterpreter = .error e) ↔ AddressRaises rt.toInterpreter span.attributes := by
  unfold WorkerSpan.filter AddressRaises
  generalize span.attributes = attributes
  induction attributes with
  | nil => exact iff_of_false nofun nofun
  | cons item rest ih =>
    obtain ⟨key, value⟩ := item
    have here : (∃ s, ("server.address", Scalar.str s) = (key, value) ∧ '%' ∉ s.toList ∧
        ∃ e, isCompactJwt rt.toInterpreter s = .error e) ↔
          ∃ e, keepsAttribute rt.toInterpreter span.serviceName span.operationName key value = .error e := by
      rw [keepsAttribute_fails, isSafeServerAddress_fails]
      constructor
      · rintro ⟨s, same, plain, fails⟩
        cases same
        exact ⟨rfl, s, rfl, plain, fails⟩
      · rintro ⟨rfl, s, rfl, plain, fails⟩
        exact ⟨s, rfl, plain, fails⟩
    simp only [List.mem_cons, or_and_right, exists_or, here, ← ih]
    rw [safeAttributes]
    cases keepsAttribute rt.toInterpreter span.serviceName span.operationName key value with
    | error e => simp [bind, Except.bind]
    | ok keep =>
      cases safeAttributes rt.toInterpreter span.serviceName span.operationName rest with
      | error e => simp [bind, Except.bind]
      | ok safe => simp [bind, Except.bind, pure, Except.pure]

/-- A real tree is taken if no test of an address raises. -/
theorem passes_iff (tree : trace.RealTree rt) : (∃ c, validatedCandidate rt trace = .ok (some c)) ↔
    ∀ span ∈ trace.spans, ¬ AddressRaises rt.toInterpreter span.attributes := by
  obtain ⟨root, wellFormed⟩ := realTree_iff.1 tree
  rcases validatedCandidate_eq rt trace with ⟨_, -, validated⟩ | ⟨malformed, -⟩
  · rw [validated]
    cases hspans : normalizeSpans rt.toInterpreter trace.spans with
    | error e =>
      obtain ⟨before, span, after, split, -, stops⟩ := normalizeSpans_eq_error.1 hspans
      refine iff_of_false (by simp [Except.map]) fun quiet => ?_
      apply quiet span (by simp [split])
      exact filter_fails.1 ⟨e, stops⟩
    | ok spans =>
      refine iff_of_true ⟨_, rfl⟩ fun span hspan raises => ?_
      obtain ⟨e, fails⟩ := filter_fails.2 raises
      obtain ⟨_, -, attributes, -, safe⟩ := exists_of_forall₂ (normalizeSpans_each hspans).flip hspan
      cases fails.symm.trans safe
  · exact absurd wellFormed (malformed root)

end Filters

/-- Only real trees pass, and the walks over what passed end, exactly where no test of an address of a
real tree raises and the chains of the tree fit on the stack. -/
theorem real_trees_pass_iff (rt : Runtime) (trace : InputTrace) : trace.WalksEnd rt ↔
    (trace.RealTree rt → (∀ span ∈ trace.spans, ¬ AddressRaises rt.toInterpreter span.attributes) ∧
      ∀ span ∈ trace.spans, RootWithin (entry (workerLinks trace.spans)) rt.frames span.spanId) := by
  have parentOf : ∀ c, validatedCandidate rt trace = .ok (some c) →
      c.parentOf = entry (workerLinks trace.spans) ∧ c.spans.map WorkerSpan.spanId =
        trace.spans.map WorkerSpan.spanId := by
    intro c passed
    obtain ⟨root, spans, -, hspans, rfl⟩ := validatedCandidate_eq_some passed
    have links := workerLinks_normalized hspans
    refine ⟨congrArg entry links, ?_⟩
    rw [← map_fst_workerLinks, ← map_fst_workerLinks, ← links]
    rfl
  constructor
  · intro walks tree
    have quiet := (passes_iff tree).1 (walks.passes.2 tree)
    obtain ⟨c, passed⟩ := walks.passes.2 tree
    have spanTree := spanTree_of_validated passed
    obtain ⟨ids, found, -⟩ := walks.topologicalOrder c passed _ (upward_all spanTree)
      (List.mem_toFinset.2 spanTree.root_mem.1)
    have near := ((CandidateTrace.topologicalOrder_eq_ok spanTree (upward_all spanTree)).1 found).1
    obtain ⟨chains, listed⟩ := parentOf c passed
    refine ⟨quiet, fun span hspan => ?_⟩
    rw [← chains]
    apply near
    rw [List.mem_toFinset, listed]
    exact List.mem_map_of_mem hspan
  · intro fits
    have passes : (∃ c, validatedCandidate rt trace = .ok (some c)) ↔ trace.RealTree rt := by
      constructor
      · rintro ⟨c, passed⟩
        obtain ⟨root, spans, wellFormed, -⟩ := validatedCandidate_eq_some passed
        exact realTree_iff.2 ⟨root, wellFormed⟩
      · exact fun tree => (passes_iff tree).2 (fits tree).1
    refine ⟨passes, fun spans parents fuel enough => search_hasCycle parents enough, ?_, ?_⟩
    · intro c passed ids within fuel enough
      exact climbs_ancestorClosure (spanTree_of_validated passed) within enough
    · intro c passed S upward _
      obtain ⟨chains, listed⟩ := parentOf c passed
      apply topologicalOrder_perm (spanTree_of_validated passed) upward
      intro id hid
      have inside := upward.within id hid
      rw [listed] at inside
      obtain ⟨span, hspan, rfl⟩ := List.mem_map.1 inside
      rw [chains]
      exact (fits (passes.1 ⟨c, passed⟩)).2 span hspan

/-! ## A chain that is too deep -/

/-- The JSON of `deepSpan`. -/
def deepItem (n : Nat) : Json :=
  .obj [("span_id", .str (deepId n)), ("parent_span_id", textOrNull (deepSpan n).parentSpanId),
    ("service_name", .str "api"), ("operation_name", .str (deepSpan n).operationName),
    ("start_offset_ms", .int 0),
    ("duration_ms", .int 1), ("status", .str "OK"), ("kind", .str (deepSpan n).kind),
    ("critical_path", .bool true), ("attributes", .obj [])]

/-- The JSON of `deepTrace`. -/
def deepRaw (n : Nat) : JsonObject :=
  [("trace_id", .str "4bf92f35"), ("started_at", .str "0001-01-01T00:00:00Z"), ("duration_ms", .int 1),
    ("spans", .arr ((List.range n).map deepItem))]

theorem deepId_ne_empty (n : Nat) : deepId n ≠ "" := by
  intro h
  have := congrArg (fun s => s.toList.length) h
  simp [deepId] at this

theorem validateSpan_deep (n : Nat) : validateSpan isoRuntime (deepItem n) = .valid (deepSpan n) := by
  have spanId : nonEmpty (some (.str (deepId n))) = .valid (deepId n) :=
    nonEmpty_eq_valid.2 ⟨rfl, deepId_ne_empty n⟩
  have service : (nonEmpty (some (.str "api"))).andThen (safeServiceName isoRuntime.toInterpreter) =
      .valid "api" := by
    decide +kernel
  have root : (nonEmpty (some (.str "GET /a"))).andThen (safeOperationName isoRuntime.toInterpreter) =
      .valid "GET /a" := by
    decide +kernel
  have call : (nonEmpty (some (.str "call"))).andThen (safeOperationName isoRuntime.toInterpreter) =
      .valid "call" := by
    decide +kernel
  have start : spanTime isoRuntime (some (.int 0)) = .valid 0 := by decide +kernel
  have duration : spanTime isoRuntime (some (.int 1)) = .valid 1 := by decide +kernel
  rw [deepItem, validateSpan, Outcome.map_eq_valid]
  simp only [Outcome.both_eq_valid]
  cases n with
  | zero =>
    exact ⟨(deepId 0, none, "api", "GET /a", 0, 1, "OK", "SERVER", true, [], ()),
      ⟨spanId, rfl, service, root, start, duration, rfl, rfl, rfl, rfl, rfl⟩, rfl⟩
  | succ n =>
    exact ⟨(deepId (n + 1), some (deepId n), "api", "call", 0, 1, "OK", "INTERNAL", true, [], ()),
      ⟨spanId, rfl, service, call, start, duration, rfl, rfl, rfl, rfl, rfl⟩, rfl⟩

/-- The trace is one that is parsed. -/
theorem parsed_deep {n : Nat} (pos : 0 < n) :
    validateTrace isoRuntime (deepRaw n) = .valid (deepTrace n) := by
  have spans : inputSpans isoRuntime (some (.arr ((List.range n).map deepItem))) =
      .valid (deepTrace n).spans := by
    have each : ∀ ms : List Nat, Outcome.all ((ms.map deepItem).map (validateSpan isoRuntime)) =
        .valid (ms.map deepSpan) := by
      intro ms
      rw [Outcome.all_eq_valid, List.map_map, List.forall₂_map_left_iff, List.forall₂_map_right_iff,
        List.forall₂_same]
      exact fun m _ => validateSpan_deep m
    rw [inputSpans, each, Outcome.andThen, if_neg]
    · rfl
    · simp [Nat.ne_of_gt pos]
  have started : startedAt isoRuntime (some (.str "0001-01-01T00:00:00Z")) = .valid (0, 0) := by
    decide +kernel
  have duration : traceDuration isoRuntime (some (.int 1)) = .valid (some 1) := by decide +kernel
  simp only [validateTrace, Outcome.map_eq_valid, Outcome.both_eq_valid]
  exact ⟨("4bf92f35", (0, 0), 0, some 1, (deepTrace n).spans, ()),
    ⟨rfl, started, rfl, duration, spans, rfl⟩, rfl⟩

/-- All spans of a trace of nested spans. -/
abbrev deepIds (n : Nat) : Finset String := ((deepCandidate n).spans.map WorkerSpan.spanId).toFinset

theorem mem_deepIds {n m : Nat} (h : m < n) : deepId m ∈ deepIds n := by
  refine List.mem_toFinset.2 (List.mem_map.2 ⟨deepSpan m, ?_, spanId_deepSpan m⟩)
  exact List.mem_map_of_mem (List.mem_range.2 h)

/-- The order of more nested spans than calls may nest is not found. -/
theorem topologicalOrder_deep {n : Nat} (deep : isoRuntime.frames < n) :
    (deepCandidate n).topologicalOrder isoRuntime (deepIds n) = .error .recursionError := by
  have tree := spanTree_deep (n := n) (by omega)
  cases h : (deepCandidate n).topologicalOrder isoRuntime (deepIds n) with
  | ok ids =>
    have near := ((CandidateTrace.topologicalOrder_eq_ok tree (upward_all tree)).1 h).1
    exact absurd (near _ (mem_deepIds deep)) (not_rootWithin_deep deep)
  | error e => rw [CandidateTrace.topologicalOrder_error h]

/-- A parsed trace of 1001 nested spans passes, and the order of its spans is not found. -/
theorem deep_tree_not_ordered : validateTrace isoRuntime (deepRaw 1001) = .valid (deepTrace 1001) ∧
    validatedCandidate isoRuntime (deepTrace 1001) = .ok (some (deepCandidate 1001)) ∧
    (deepCandidate 1001).topologicalOrder isoRuntime (deepIds 1001) = .error .recursionError ∧
    ¬ (deepTrace 1001).WalksEnd isoRuntime := by
  have deep : isoRuntime.frames < 1001 := by decide
  have passed := validatedCandidate_deep (n := 1001) (by omega)
  have tree := spanTree_of_validated passed
  refine ⟨parsed_deep (by omega), passed, topologicalOrder_deep deep, fun walks => ?_⟩
  obtain ⟨ids, found, -⟩ :=
    walks.topologicalOrder _ passed _ (upward_all tree) (List.mem_toFinset.2 tree.root_mem.1)
  cases (topologicalOrder_deep deep).symm.trans found

end SreAgent.Trace
