import SreAgent.Base.Outline
import SreAgent.Trace.Agreement
import SreAgent.Trace.Response

/-!
# The rows of a trace

The component that draws a trace indents every span by the number of its ancestors (`buildRows`), in the order
in which the API returns the spans. The worker writes the spans of a trace in preorder, so the indents tell
the tree: the parent of a span is the last row above it that is indented less.
-/

namespace SreAgent.Trace
open Base ParentChain

/-- `TraceWaterfallRow`. -/
structure TraceWaterfallRow where
  span : TraceWaterfallSpan
  depth : Nat
  deriving DecidableEq

/-- `spansById.get(id)`: of two spans of one id the map holds the later one. -/
def spansById (spans : List TraceWaterfallSpan) (id : String) : Option TraceWaterfallSpan :=
  spans.reverse.find? fun span => span.spanId = id

/-- The recursion of `depthFor`, if no more than `frames` calls nest. -/
def depthFor (spans : List TraceWaterfallSpan) : Nat → List String → TraceWaterfallSpan → Option Nat
  | 0, _, _ => none
  | frames + 1, visiting, span =>
    match span.parentSpanId with
    | none => some 0
    | some parentSpanId =>
      if parentSpanId = "" ∨ span.spanId ∈ visiting then some 0
      else
        match spansById spans parentSpanId with
        | none => some 0
        | some parent => (depthFor spans frames (span.spanId :: visiting) parent).map (· + 1)

/-- `buildRows` of a trace, if no more than `frames` calls nest. -/
def buildRows (frames : Nat) : Option TraceWaterfall → Option (List TraceWaterfallRow)
  | none => some []
  | some trace =>
    trace.spans.mapM fun span => (depthFor trace.spans frames [] span).map fun depth => ⟨span, depth⟩

/-! ## The recursion ends -/

section Ends

variable {spans : List TraceWaterfallSpan} {span : TraceWaterfallSpan} {visiting : List String}

/-- What is found is a span of the identifier. -/
theorem mem_of_spansById {id : String} (h : spansById spans id = some span) :
    span ∈ spans ∧ span.spanId = id := by
  unfold spansById at h
  have found := List.find?_some (p := fun span : TraceWaterfallSpan => decide (span.spanId = id)) h
  exact ⟨List.mem_reverse.1 (List.mem_of_find?_eq_some h), of_decide_eq_true found⟩

/-- Every span is found by its identifier. -/
theorem spansById_span (distinct : (spans.map TraceWaterfallSpan.spanId).Nodup) (mem : span ∈ spans) :
    spansById spans span.spanId = some span := by
  cases found : spansById spans span.spanId with
  | none =>
    unfold spansById at found
    have other := List.find?_eq_none.1 found span (List.mem_reverse.2 mem)
    simp at other
  | some other =>
    obtain ⟨hother, same⟩ := mem_of_spansById found
    rw [List.inj_on_of_nodup_map distinct hother mem same]

/-- The walk visits no more spans than there are. -/
theorem length_visiting (distinct : visiting.Nodup)
    (within : ∀ id ∈ visiting, id ∈ spans.map TraceWaterfallSpan.spanId) :
    visiting.length ≤ spans.length := by
  have bound := (distinct.subperm within).length_le
  rw [List.length_map] at bound
  exact bound

/-- However the parents are linked, no chain is longer than the trace. -/
theorem depthFor_ends {frames : Nat} (mem : span ∈ spans) (distinct : visiting.Nodup)
    (within : ∀ id ∈ visiting, id ∈ spans.map TraceWaterfallSpan.spanId)
    (enough : spans.length < frames + visiting.length) :
    ∃ depth, depthFor spans frames visiting span = some depth ∧ depth + visiting.length ≤ spans.length := by
  have bound := length_visiting distinct within
  induction frames generalizing span visiting with
  | zero => omega
  | succ frames ih =>
    unfold depthFor
    split
    · exact ⟨0, rfl, by omega⟩
    · split
      · exact ⟨0, rfl, by omega⟩
      · next fresh =>
        split
        · exact ⟨0, rfl, by omega⟩
        · next parent found =>
          have distinct' : (span.spanId :: visiting).Nodup :=
            List.nodup_cons.2 ⟨fun seen => fresh (.inr seen), distinct⟩
          have within' : ∀ id ∈ span.spanId :: visiting, id ∈ spans.map TraceWaterfallSpan.spanId :=
            List.forall_mem_cons.2 ⟨List.mem_map_of_mem mem, within⟩
          have shorter := length_visiting distinct' within'
          obtain ⟨depth, ends, le⟩ :=
            ih (mem_of_spansById found).1 distinct' within' (by rw [List.length_cons]; omega) shorter
          refine ⟨depth + 1, by rw [ends]; rfl, ?_⟩
          rw [List.length_cons] at le
          omega

end Ends

/-! ## Depths -/

/-- The spans with their parents. -/
def parentLinks (spans : List TraceWaterfallSpan) : List (String × Option String) :=
  spans.map fun span => (span.spanId, span.parentSpanId)

section Depths

variable {spans : List TraceWaterfallSpan} {span : TraceWaterfallSpan}

theorem map_fst_parentLinks (spans : List TraceWaterfallSpan) :
    (parentLinks spans).map Prod.fst = spans.map TraceWaterfallSpan.spanId := by
  simp [parentLinks]

theorem entry_parentLinks (distinct : (spans.map TraceWaterfallSpan.spanId).Nodup) (mem : span ∈ spans) :
    entry (parentLinks spans) span.spanId = some span.parentSpanId := by
  have listed : (span.spanId, span.parentSpanId) ∈ parentLinks spans := List.mem_map.2 ⟨span, mem, rfl⟩
  exact entry_of_mem (by rw [map_fst_parentLinks]; exact distinct) listed

/-- In a tree the recursion counts the ancestors. -/
theorem depthFor_of_depth (tree : IsTree (parentLinks spans))
    (named : ∀ span ∈ spans, span.parentSpanId ≠ some "") {n frames : Nat} (mem : span ∈ spans)
    (depth : Depth (entry (parentLinks spans)) (n + 1) span.spanId) (room : n < frames)
    {visiting : List String}
    (deeper : ∀ id ∈ visiting, ∃ m, n + 1 < m ∧ Depth (entry (parentLinks spans)) m id) :
    depthFor spans frames visiting span = some n := by
  have distinct : (spans.map TraceWaterfallSpan.spanId).Nodup := map_fst_parentLinks spans ▸ tree.distinct
  have here := entry_parentLinks distinct mem
  obtain ⟨frames, rfl⟩ : ∃ k, frames = k + 1 := ⟨frames - 1, by omega⟩
  induction n generalizing span visiting frames with
  | zero =>
    cases depth with
    | root known =>
      have root : span.parentSpanId = none := Option.some.inj (here.symm.trans known)
      unfold depthFor
      rw [root]
    | step _ above => cases above
  | succ n ih =>
    cases depth with
    | @step _ _ p known above =>
      have parent : span.parentSpanId = some p := Option.some.inj (here.symm.trans known)
      have nonempty : p ≠ "" := fun empty => named span mem (by rw [parent, empty])
      have fresh : span.spanId ∉ visiting := by
        intro seen
        obtain ⟨m, lt, depth'⟩ := deeper _ seen
        have same := depth'.unique (.step known above)
        omega
      obtain ⟨next, hnext, rfl⟩ : ∃ next ∈ spans, next.spanId = p := by
        have listed :=
          tree.parents (span.spanId, span.parentSpanId) (List.mem_map.2 ⟨span, mem, rfl⟩) p parent
        rw [map_fst_parentLinks] at listed
        exact List.mem_map.1 listed
      obtain ⟨frames, rfl⟩ : ∃ k, frames = k + 1 := ⟨frames - 1, by omega⟩
      have deeper' : ∀ id ∈ span.spanId :: visiting, ∃ m, n + 1 < m ∧
          Depth (entry (parentLinks spans)) m id := by
        refine List.forall_mem_cons.2 ⟨⟨n + 2, by omega, .step known above⟩, fun id seen => ?_⟩
        obtain ⟨m, lt, depth'⟩ := deeper id seen
        exact ⟨m, by omega, depth'⟩
      have above' := ih hnext above deeper' (entry_parentLinks distinct hnext) frames (by omega)
      unfold depthFor
      rw [parent]
      dsimp only
      rw [if_neg (not_or.2 ⟨nonempty, fresh⟩), spansById_span distinct hnext]
      dsimp only
      rw [above']
      rfl

end Depths

/-! ## The response -/

section Response

variable {rt : Runtime} {v : Json} {w : StoredTraceWaterfall} {trace : TraceWaterfall}

/-- A returned span has the identifiers of the stored one. -/
theorem span_links {stored : StoredTraceSpan} {span : TraceWaterfallSpan}
    (h : TraceWaterfallSpan.validate rt stored = some span) :
    span.spanId = stored.spanId ∧ span.parentSpanId = stored.parentSpanId := by
  simp only [TraceWaterfallSpan.validate, Option.bind_eq_bind, Option.bind_eq_some_iff] at h
  obtain ⟨spanId, hid, parentSpanId, hparent, _, -, _, -, _, -, _, -, _, -, _, -, rest⟩ := h
  cases rest
  refine ⟨(labelField_eq_some.1 hid).1, ?_⟩
  cases hstored : stored.parentSpanId with
  | none =>
    rw [hstored] at hparent
    exact (Option.some.inj hparent).symm
  | some parent =>
    rw [hstored] at hparent
    obtain ⟨s, hs, rfl⟩ := Option.map_eq_some_iff.1 hparent
    rw [(labelField_eq_some.1 hs).1]

/-- The response links the spans as the stored trace does. -/
theorem links_response (h : TraceWaterfall.validate rt w = some trace) :
    parentLinks trace.spans = w.links := by
  simp only [TraceWaterfall.validate, Option.bind_eq_bind, Option.bind_eq_some_iff] at h
  obtain ⟨_, -, _, -, _, -, _, -, _, -, _, -, spans, hspans, rest⟩ := h
  cases rest
  unfold responseSpansField at hspans
  split at hspans
  · have each := mapM_eq_some.1 hspans
    clear hspans
    unfold parentLinks StoredTraceWaterfall.links
    dsimp only
    generalize w.spans = stored at each
    induction each with
    | nil => rfl
    | cons head _ ih =>
      obtain ⟨hid, hparent⟩ := span_links head
      rw [List.map_cons, List.map_cons, ih, hid, hparent]
  · cases hspans

/-- An accepted trace was read from its dictionary, and its spans passed the tree check. -/
theorem read_of_parse (h : parseTraceWaterfall rt v = .ok (some w)) :
    ∃ d, v = .obj d ∧ w.ReadFrom rt d ∧ w.hasValidTree rt = .ok true := by
  unfold parseTraceWaterfall at h
  split at h
  · next d =>
    split at h
    · cases h
    · cases h
    · next w' valid =>
      cases passed : w'.hasValidTree rt with
      | error e => rw [passed] at h; cases h
      | ok b =>
        rw [passed] at h
        cases b <;> cases h
        exact ⟨d, rfl, StoredTraceWaterfall.validate_eq_valid.1 valid, passed⟩
  · cases h

/-- A trace that is returned is a tree. -/
theorem tree_of_parse (h : parseTraceWaterfall rt v = .ok (some w)) : IsTree w.links := by
  obtain ⟨d, -, -, passed⟩ := read_of_parse h
  exact isTree_of_valid passed

/-- A stored parent is not the empty text. -/
theorem parent_named (h : parseTraceWaterfall rt v = .ok (some w)) {span : StoredTraceSpan}
    (mem : span ∈ w.spans) :
    span.parentSpanId ≠ some "" := by
  intro empty
  obtain ⟨d, -, read, -⟩ := read_of_parse h
  obtain ⟨items, -, -, each⟩ := StoredTraceWaterfall.spansField_eq_valid.1 read.spans
  obtain ⟨item, -, valid⟩ := exists_of_forall₂ each mem
  obtain ⟨d, -, readSpan⟩ := StoredTraceSpan.validate_eq_valid.1 valid
  rcases parentField_eq_valid.1 readSpan.parentSpanId with ⟨-, root⟩ | ⟨s, -, parent, pattern, -⟩
  · cases root.symm.trans empty
  · cases parent.symm.trans empty
    cases pattern

/-- The rows of a trace the API returns: one a span, in their order, with the depth of the span in the
tree. -/
theorem rows_of_accepted (h : parseTraceWaterfall rt v = .ok (some w))
    (returned : TraceWaterfall.validate rt w = some trace) {frames : Nat}
    (room : trace.spans.length < frames) : ∃ rows, buildRows frames (some trace) = some rows ∧
      rows.map TraceWaterfallRow.span = trace.spans ∧
        ∀ row ∈ rows, Depth (entry (parentLinks trace.spans)) (row.depth + 1) row.span.spanId := by
  have tree : IsTree (parentLinks trace.spans) := links_response returned ▸ tree_of_parse h
  have named : ∀ span ∈ trace.spans, span.parentSpanId ≠ some "" := by
    intro span mem
    have listed : (span.spanId, span.parentSpanId) ∈ w.links :=
      links_response returned ▸ List.mem_map.2 ⟨span, mem, rfl⟩
    obtain ⟨stored, hstored, same⟩ := List.mem_map.1 listed
    have parent : stored.parentSpanId = span.parentSpanId := congrArg Prod.snd same
    rw [← parent]
    exact parent_named h hstored
  have each : ∀ span ∈ trace.spans, ∃ depth, depthFor trace.spans frames [] span = some depth ∧
      Depth (entry (parentLinks trace.spans)) (depth + 1) span.spanId := by
    intro span mem
    have listed : (span.spanId, span.parentSpanId) ∈ parentLinks trace.spans :=
      List.mem_map.2 ⟨span, mem, rfl⟩
    obtain ⟨n, -, depth, -⟩ := ((isTree_iff tree.distinct tree.oneRoot).1 tree _ listed).depth
    obtain ⟨k, rfl⟩ : ∃ k, n = k + 1 := by
      cases depth with
      | root => exact ⟨0, rfl⟩
      | step => exact ⟨_, rfl⟩
    -- given room for all of them, the recursion counts the ancestors, and it ends within the trace
    have counted : depthFor trace.spans (max (k + 1) frames) [] span = some k :=
      depthFor_of_depth tree named mem depth (by omega) nofun
    obtain ⟨d, ends, le⟩ : ∃ d, depthFor trace.spans (max (k + 1) frames) [] span = some d ∧
        d + 0 ≤ trace.spans.length :=
      depthFor_ends mem .nil nofun (Nat.lt_of_lt_of_le room (Nat.le_max_right _ _))
    have same : k = d := Option.some.inj (counted.symm.trans ends)
    exact ⟨k, depthFor_of_depth tree named mem depth (by omega) nofun, depth⟩
  have built : buildRows frames (some trace) =
      some (trace.spans.map fun span => ⟨span, (depthFor trace.spans frames [] span).getD 0⟩) := by
    refine mapM_eq_map fun span mem => ?_
    obtain ⟨depth, ends, -⟩ := each span mem
    rw [ends]
    rfl
  refine ⟨_, built, ?_, fun row hrow => ?_⟩
  · rw [List.map_map]
    exact List.map_id' trace.spans
  obtain ⟨span, mem, rfl⟩ := List.mem_map.1 hrow
  obtain ⟨depth, ends, counted⟩ := each span mem
  dsimp only
  rw [ends]
  exact counted

/-- The parent of every row but the first is the last row above it that is indented less. -/
def TellsParents (rows : List TraceWaterfallRow) : Prop :=
  ∀ before row after, rows = before ++ row :: after →
    row.span.parentSpanId = none ∧ before = [] ∧ row.depth = 0 ∨
    ∃ first parent between, before = first ++ parent :: between ∧
      row.span.parentSpanId = some parent.span.spanId ∧
      row.depth = parent.depth + 1 ∧ ∀ other ∈ between, row.depth ≤ other.depth

/-- Where the spans stand in preorder, the depths tell the parents. -/
theorem tells_of_hangs {spans : List TraceWaterfallSpan} {rows : List TraceWaterfallRow}
    (tree : IsTree (parentLinks spans))
    (hangs : Hangs (entry (parentLinks spans)) none (spans.map TraceWaterfallSpan.spanId))
    (inOrder : rows.map TraceWaterfallRow.span = spans)
    (depths : ∀ row ∈ rows, Depth (entry (parentLinks spans)) (row.depth + 1) row.span.spanId) :
    TellsParents rows := by
  have distinct : (spans.map TraceWaterfallSpan.spanId).Nodup := map_fst_parentLinks spans ▸ tree.distinct
  have ids : spans.map TraceWaterfallSpan.spanId = rows.map fun row => row.span.spanId := by
    rw [← inOrder, List.map_map]
    rfl
  have links : ∀ row ∈ rows, entry (parentLinks spans) row.span.spanId = some row.span.parentSpanId :=
    fun row hrow =>
    entry_parentLinks distinct (inOrder ▸ List.mem_map_of_mem hrow)
  intro before row after split
  have hrow : row ∈ rows := by
    rw [split]
    exact List.mem_append_right _ List.mem_cons_self
  have splitIds : spans.map TraceWaterfallSpan.spanId =
      before.map (fun row => row.span.spanId) ++ row.span.spanId :: after.map fun row => row.span.spanId := by
    rw [ids, split, List.map_append, List.map_cons]
  rcases hangs.2 _ _ _ splitIds with root | ⟨p, first, between, parent, splitBefore, below⟩
  · refine .inl ⟨Option.some.inj ((links row hrow).symm.trans root), ?_, ?_⟩
    · -- the first row is a root, and there is one root
      cases before with
      | nil => rfl
      | cons top before =>
        have first := hangs.2 [] top.span.spanId _ splitIds
        have same : top.span.spanId = row.span.spanId :=
          tree.root_unique (first.resolve_right fun attached => attached.ne_nil rfl) root
        rw [splitIds, List.map_cons, same] at distinct
        simp at distinct
    · have depth := depths row hrow
      have same := depth.unique (.root root)
      omega
  · obtain ⟨first, rest, rfl, rfl, hrest⟩ := List.map_eq_append_iff.1 splitBefore
    obtain ⟨parentRow, between, rfl, rfl, rfl⟩ := List.map_eq_cons_iff.1 hrest
    have hparent : parentRow ∈ rows := by
      rw [split]
      simp
    have depth : row.depth = parentRow.depth + 1 := by
      have same := (depths row hrow).unique (.step parent (depths parentRow hparent))
      omega
    refine .inr ⟨first, parentRow, between, rfl, Option.some.inj ((links row hrow).symm.trans parent),
      depth, fun other hother => ?_⟩
    have hother' : other ∈ rows := by
      rw [split]
      simp [hother]
    have deeper :=
      depth_lt (below _ (List.mem_map_of_mem hother)) (depths other hother') (depths parentRow hparent)
    omega

end Response

/-! ## The worker's order -/

section Worker

variable {rt : Runtime} {payload : Json} {alertIssue : String} {maxSpans : Int} {d : JsonObject}
  {w : StoredTraceWaterfall}
  {trace : TraceWaterfall}

/-- The worker writes the spans in preorder. -/
theorem hangs_of_worker (h : normalizeTraceEvidence rt payload alertIssue maxSpans = .ok (some d))
    (read : parseTraceWaterfall rt (.obj d) = .ok (some w)) :
    Hangs w.parentOf none (w.spans.map StoredTraceSpan.spanId) := by
  obtain ⟨c, t, -, checked, pos, found, written⟩ := normalize_eq_some h
  obtain ⟨root, instant, -, -, rfl⟩ := toStorageDict_eq_ok written
  have sound := sound_truncate checked pos found
  obtain ⟨S, hS, hids, ht⟩ := CandidateTrace.truncate_eq_ok found
  have candidate : t.candidate = c := congrArg SelectedTrace.candidate ht
  have atLeast : 1 ≤ min maxSpans.toNat maxResponseSpans := le_min (by omega) (by decide)
  have upward := (CandidateTrace.selectIds_spec checked.toSpanTree atLeast hS).1
  obtain ⟨near, order⟩ := (CandidateTrace.topologicalOrder_eq_ok checked.toSpanTree upward).1 hids
  have ordered := CandidateTrace.ordered_topologicalOrder checked.toSpanTree upward hids
  -- what was read are the spans written
  obtain ⟨_, same, readFrom, -⟩ := read_of_parse read
  cases same
  have field : JsonObject.get? (t.dictionary root (IsoTime.text instant)) "spans" =
      some (.arr (t.spans.map fun span => .obj span.toStorageDict)) := by
    simp [SelectedTrace.dictionary, JsonObject.get?_cons]
  obtain ⟨spans, -⟩ := (spans_stored sound).1 (field ▸ readFrom.spans)
  have links : w.links = (t.stored root instant).links := by
    unfold StoredTraceWaterfall.links
    rw [spans]
    rfl
  have parents : ∀ id ∈ S, w.parentOf id = c.parentOf id := by
    intro id hid
    have agree := parentOf_stored sound root instant ((ordered.members id).2 hid)
    rw [candidate] at agree
    rw [← agree]
    unfold StoredTraceWaterfall.parentOf
    rw [links]
  have ids : w.spans.map StoredTraceSpan.spanId = t.selectedSpanIds := by
    rw [spans, ← ids_stored sound root instant]
    rfl
  -- the children are the same under the stored parents
  have lists := CandidateTrace.lists_childrenOf checked.toSpanTree S
  rw [CandidateTrace.upward_set upward] at lists
  have lists' : Lists w.parentOf {id | id ∈ S} (c.childrenOf S) := by
    refine ⟨fun p id => ?_, lists.nodup⟩
    rw [lists.mem p id]
    exact and_congr_right fun hid => by rw [parents id hid]
  rw [ids, order]
  exact hangs_preorder lists' _

/-- The rows of a trace the worker wrote show its tree: the parent of a span is the last row above it
that is indented less. -/
theorem rows_tell_parents (h : normalizeTraceEvidence rt payload alertIssue maxSpans = .ok (some d))
    (read : parseTraceWaterfall rt (.obj d) = .ok (some w))
    (returned : TraceWaterfall.validate rt w = some trace) {frames : Nat}
    (room : trace.spans.length < frames) : ∃ rows, buildRows frames (some trace) = some rows ∧
      rows.map TraceWaterfallRow.span = trace.spans ∧ TellsParents rows := by
  obtain ⟨rows, built, inOrder, depths⟩ := rows_of_accepted read returned room
  have links := links_response returned
  have tree : IsTree (parentLinks trace.spans) := links ▸ tree_of_parse read
  have hangs : Hangs (entry (parentLinks trace.spans)) none (trace.spans.map TraceWaterfallSpan.spanId) := by
    have ids : trace.spans.map TraceWaterfallSpan.spanId = w.spans.map StoredTraceSpan.spanId := by
      rw [← map_fst_parentLinks, links, map_fst_links]
    rw [ids, links]
    exact hangs_of_worker h read
  exact ⟨rows, built, inOrder, tells_of_hangs tree hangs inOrder depths⟩

/-- A span of a tool's answer. -/
def answeredSpan (id : String) (parent : Json) (start : Nat) : Json :=
  .obj [("spanId", .str id), ("parentSpanId", parent), ("serviceName", .str "api"),
    ("operationName", .str "query"),
    ("startOffsetMs", .int start), ("durationMs", .int 1), ("status", .str "OK"), ("kind", .str "SERVER"),
    ("criticalPath", .bool false), ("attributes", .obj [])]

/-- A tool's answer with a trace of four spans, a grandchild after the second child. -/
def nestedAnswer : Json :=
  .obj
    [("traces",
        .arr [.obj [("traceId", .str "4bf92f35"), ("startedAt", .str "2026-08-23T01:02:03Z"), ("spans", .arr [
    answeredSpan "4" (.str "2") 3, answeredSpan "3" (.str "1") 2, answeredSpan "2" (.str "1") 1,
    answeredSpan "1" .null 0])]])]

/-- The rows of the nested trace stand under their parents. -/
theorem nested_rows : ∃ d w trace rows, normalizeTraceEvidence isoRuntime nestedAnswer "latency" 100 =
      .ok (some d) ∧
    parseTraceWaterfall isoRuntime (.obj d) = .ok (some w) ∧ TraceWaterfall.validate isoRuntime w =
      some trace ∧
    buildRows 5 (some trace) = some rows ∧
    rows.map (fun row => (row.span.spanId, row.depth)) = [("1", 0), ("2", 1), ("4", 2), ("3", 1)] ∧
      TellsParents rows := by
  have run : (returned (normalizeTraceEvidence isoRuntime nestedAnswer "latency" 100)).any (fun d =>
      (parseTraceWaterfall isoRuntime (.obj d)).toOption.join.any fun w =>
        (TraceWaterfall.validate isoRuntime w).any fun trace =>
        trace.spans.length < 5 ∧ (buildRows 5 (some trace)).map
          (List.map fun row => (row.span.spanId, row.depth)) =
          some [("1", 0), ("2", 1), ("4", 2), ("3", 1)]) = true := by decide +kernel
  obtain ⟨d, hd, run⟩ := (Option.any_eq_true _ _).1 run
  obtain ⟨w, hw, run⟩ := (Option.any_eq_true _ _).1 run
  obtain ⟨trace, htrace, run⟩ := (Option.any_eq_true _ _).1 run
  obtain ⟨few, shown⟩ := of_decide_eq_true run
  have read : parseTraceWaterfall isoRuntime (.obj d) = .ok (some w) := by
    cases parsed : parseTraceWaterfall isoRuntime (.obj d) with
    | error e => rw [parsed] at hw; cases hw
    | ok result =>
      rw [parsed] at hw
      cases result <;> cases hw
      rfl
  obtain ⟨rows, built, -, tells⟩ := rows_tell_parents (returned_eq_some hd) read htrace few
  rw [built] at shown
  exact ⟨d, w, trace, rows, returned_eq_some hd, read, htrace, built, Option.some.inj shown, tells⟩

end Worker

end SreAgent.Trace
