import SreAgent.Trace.Selected
import SreAgent.Trace.Total

/-!
# The backend reads what the worker writes

The dictionary of a selected trace passes every check of the backend but one: the worker takes any
non-empty text for a trace or span id, the backend only a conventional identifier that is no JWT.
-/

namespace SreAgent.Trace
open Base JsonParse ParentChain

/-! ## A span -/

/-- An identifier as the backend wants it. -/
def PlainIdentifier (i : Interpreter) (s : String) : Prop :=
  identifierPattern s.toList = true ∧ isCompactJwt i s = .ok false

instance (i : Interpreter) (s : String) : Decidable (PlainIdentifier i s) :=
  inferInstanceAs (Decidable (_ ∧ _))

theorem PlainIdentifier.nonEmpty {i : Interpreter} {s : String} (h : PlainIdentifier i s) : s ≠ "" := by
  rintro rfl
  cases h.1

/-- What the backend reads a worker's span as. -/
def WorkerSpan.stored (span : WorkerSpan) : StoredTraceSpan where
  spanId := span.spanId
  parentSpanId := span.parentSpanId
  serviceName := span.serviceName
  operationName := span.operationName
  startOffsetMs := .float span.startOffsetMs
  durationMs := .float span.durationMs
  status := span.status
  kind := span.kind
  criticalPath := span.criticalPath
  attributes := span.attributes

/-- The span a worker would have written. -/
def StoredTraceSpan.written (span : StoredTraceSpan) : WorkerSpan where
  spanId := span.spanId
  parentSpanId := span.parentSpanId
  serviceName := span.serviceName
  operationName := span.operationName
  startOffsetMs := span.startOffsetMs.value
  durationMs := span.durationMs.value
  status := span.status
  kind := span.kind
  criticalPath := span.criticalPath
  attributes := span.attributes

@[simp] theorem written_stored (span : WorkerSpan) : span.stored.written = span := rfl

section Exact

variable {rt : Runtime} (exact_ : ∀ q, rt.round q = .finite q)

include exact_

theorem sum_exact (a b : ℚ) : rt.sum a b = ((a + b : ℚ) : WithTop ℚ) := by
  change rt.magnitude (a + b) = _
  rw [Runtime.magnitude, exact_]

theorem quotient_exact (a n : ℚ) : rt.quotient a n = ((a / n : ℚ) : WithTop ℚ) := by
  change rt.magnitude (a / n) = _
  rw [Runtime.magnitude, exact_]

end Exact

section Span

variable {i : Interpreter} {span : WorkerSpan}

/-- A number that is written reads back. -/
theorem number_floatJson {q : ℚ} (h : 0 ≤ q) : number (some (floatJson q)) = .valid (.float q) :=
  if_neg (not_lt.2 h)

/-- A finite magnitude is written as its number. -/
theorem magnitudeJson_untopD {x : WithTop ℚ} (finite : x ≠ ⊤) : magnitudeJson x = floatJson (x.untopD 0) := by
  induction x using WithTop.recTopCoe with
  | top => exact absurd rfl finite
  | coe q => rfl

theorem untopD_nonneg {x : WithTop ℚ} (nonneg : 0 ≤ x) : 0 ≤ x.untopD 0 := by
  induction x using WithTop.recTopCoe with
  | top => exact le_refl _
  | coe q => exact WithTop.coe_nonneg.1 nonneg

/-- A finite magnitude reads back. -/
theorem number_magnitudeJson {x : WithTop ℚ} (finite : x ≠ ⊤) (nonneg : 0 ≤ x) :
    number (some (magnitudeJson x)) = .valid (.float (x.untopD 0)) := by
  rw [magnitudeJson_untopD finite, number_floatJson (untopD_nonneg nonneg)]

theorem literal_str {texts : List String} {s : String} (h : s ∈ texts) :
    literal texts (some (.str s)) = .valid s :=
  if_pos h

theorem scalar_toJson (v : Scalar) : scalar v.toJson = some v := by
  cases v <;> rfl

/-- Attributes read back. -/
theorem scalars_toJson (attributes : Attributes) :
    scalars (attributes.map fun (key, value) => (key, value.toJson)) = some attributes := by
  induction attributes with
  | nil => rfl
  | cons item rest ih =>
    have tail : List.mapM (fun (item : String × Json) => (scalar item.2).map fun v => (item.1, v))
        (rest.map fun (key, value) => (key, value.toJson)) = some rest := ih
    simp [scalars, List.mapM_cons, scalar_toJson, tail]

/-- A plain label passes its field. -/
theorem textField_plain {pattern : List Char → Bool} {s : String} (h : PlainLabel i pattern s) :
    (nonEmpty (some (.str s))).andThen (plainText i pattern) = .valid s :=
  textField_eq_valid.2 ⟨rfl, h⟩

/-- The attributes of a filtered span pass the backend's filter unchanged. -/
theorem attributesField_toStorageDict (checked : span.Checked i) (filtered : span.Filtered i) :
    StoredTraceSpan.attributesField i span.toStorageDict = .valid span.attributes := by
  have service : StoredTraceSpan.serviceField i span.toStorageDict = .valid span.serviceName :=
    textField_plain checked.serviceName
  have operation : StoredTraceSpan.operationField i span.toStorageDict = .valid span.operationName :=
    textField_plain checked.operationName
  have items : JsonObject.get? span.toStorageDict "attributes" =
      some (.obj (span.attributes.map fun (key, value) => (key, value.toJson))) := by
    simp [WorkerSpan.toStorageDict, JsonObject.get?_cons]
  have allowed : ¬ (span.attributes.any fun (key, _) => key ∉ allowedAttributes) = true := by
    simp only [List.any_eq_true, decide_eq_true_eq, not_exists, not_and, not_not]
    exact fun item hitem => allowed_of_kept (filtered item hitem)
  simp only [StoredTraceSpan.attributesField, items, scalars_toJson, service, operation,
    safeAttributes_of_kept filtered, collect, if_neg allowed]

/-- The backend accepts a worker's span as it is, if its ids are plain. -/
theorem validate_toStorageDict (checked : span.Checked i) (filtered : span.Filtered i) {s : StoredTraceSpan} :
    StoredTraceSpan.validate i (.obj span.toStorageDict) = .valid s ↔
      s = span.stored ∧ PlainIdentifier i span.spanId ∧ ∀ p, span.parentSpanId = some p →
        PlainIdentifier i p := by
  have attributes := attributesField_toStorageDict checked filtered
  have service : StoredTraceSpan.serviceField i span.toStorageDict = .valid span.serviceName :=
    textField_plain checked.serviceName
  have operation : StoredTraceSpan.operationField i span.toStorageDict = .valid span.operationName :=
    textField_plain checked.operationName
  have id : JsonObject.get? span.toStorageDict "spanId" = some (.str span.spanId) := rfl
  have parent : JsonObject.get? span.toStorageDict "parentSpanId" = some (textOrNull span.parentSpanId) := by
    simp [WorkerSpan.toStorageDict, JsonObject.get?_cons]
  have start : number (JsonObject.get? span.toStorageDict "startOffsetMs") =
      .valid (.float span.startOffsetMs) :=
    number_floatJson checked.start
  have duration : number (JsonObject.get? span.toStorageDict "durationMs") =
      .valid (.float span.durationMs) :=
    number_floatJson checked.duration
  have status : literal statuses (JsonObject.get? span.toStorageDict "status") = .valid span.status :=
    literal_str checked.status
  have kind : literal kinds (JsonObject.get? span.toStorageDict "kind") = .valid span.kind :=
    literal_str checked.kind
  have critical : strictBool (JsonObject.get? span.toStorageDict "criticalPath") =
      .valid span.criticalPath := rfl
  rw [StoredTraceSpan.validate_eq_valid]
  simp only [Json.obj.injEq, exists_eq_left']
  constructor
  · intro read
    obtain ⟨hid, idPlain⟩ := textField_eq_valid.1 read.spanId
    have hparent := parentField_eq_valid.1 read.parentSpanId
    rw [id, Option.some.injEq, Json.str.injEq] at hid
    rw [parent] at hparent
    have parentSame : s.parentSpanId = span.parentSpanId ∧ ∀ p, span.parentSpanId = some p →
        PlainIdentifier i p := by
      cases hp : span.parentSpanId with
      | none =>
        rw [hp] at hparent
        rcases hparent with ⟨-, h⟩ | ⟨p, ⟨⟩, -⟩
        exact ⟨h, by simp⟩
      | some p =>
        rw [hp] at hparent
        rcases hparent with ⟨⟨⟩, -⟩ | ⟨p', h, hs, plain⟩
        cases h
        exact ⟨hs, fun _ h => Option.some.inj h ▸ plain⟩
    refine ⟨?_, hid ▸ idPlain.2, parentSame.2⟩
    cases s
    simp only [WorkerSpan.stored, StoredTraceSpan.mk.injEq]
    exact ⟨hid.symm, parentSame.1, Outcome.valid.inj (read.serviceName.symm.trans service),
      Outcome.valid.inj (read.operationName.symm.trans operation),
      Outcome.valid.inj (read.startOffsetMs.symm.trans start),
      Outcome.valid.inj (read.durationMs.symm.trans duration),
      Outcome.valid.inj (read.status.symm.trans status),
      Outcome.valid.inj (read.kind.symm.trans kind),
      Outcome.valid.inj (read.criticalPath.symm.trans critical),
      Outcome.valid.inj (read.attributes.symm.trans attributes)⟩
  · rintro ⟨rfl, idPlain, parentPlain⟩
    refine ⟨textField_plain ⟨idPlain.nonEmpty, idPlain⟩, ?_, service, operation, start, duration, status,
      kind, critical, attributes, rfl⟩
    rw [parent, parentField_eq_valid]
    cases hp : span.parentSpanId with
    | none => exact .inl ⟨rfl, hp⟩
    | some p => exact .inr ⟨p, rfl, hp, parentPlain p hp⟩

end Span

/-! ## A waterfall -/

/-- The spans a selection lists. -/
def SelectedTrace.spans (t : SelectedTrace) : List WorkerSpan :=
  t.selectedSpanIds.filterMap t.candidate.spanById

/-- What the backend reads a selected trace as. -/
def SelectedTrace.stored (t : SelectedTrace) (root : WorkerSpan) (startedAt : Int) :
    StoredTraceWaterfall where
  traceId := t.candidate.traceId
  rootServiceName := root.serviceName
  rootOperationName := root.operationName
  startedAt := startedAt
  durationMs := .float (t.candidate.durationMs.untopD 0)
  spanCount := t.candidate.spans.length
  representativeScore := .float (t.representativeScore.untopD 0)
  truncated := t.truncated
  spans := t.spans.map WorkerSpan.stored

/-- A trace some of whose spans are selected, and what is written of it. -/
structure SelectedTrace.Sound (rt : Runtime) (t : SelectedTrace) : Prop where
  checked : t.candidate.Checked rt
  selects : t.candidate.Selects 100 t.selectedSpanIds
  score : 0 ≤ t.representativeScore
  truncated : t.truncated = decide (t.selectedSpanIds.length < t.candidate.spans.length)

/-- Duration and score are no overflow. -/
structure SelectedTrace.Finite (t : SelectedTrace) : Prop where
  duration : t.candidate.durationMs ≠ ⊤
  score : t.representativeScore ≠ ⊤

section Spans

variable {rt : Runtime} {c : CandidateTrace} {t : SelectedTrace} {span : WorkerSpan} {id : String}

/-- An identifier names the one span that has it. -/
theorem CandidateTrace.SpanTree.spanById_eq (h : c.SpanTree) : c.spanById id = some span ↔
      span ∈ c.spans ∧ span.spanId = id := by
  constructor
  · intro found
    exact ⟨List.mem_of_find?_eq_some found, by simpa using List.find?_some found⟩
  · rintro ⟨hspan, rfl⟩
    cases found : c.spanById span.spanId with
    | none => exact absurd (by simp) (List.find?_eq_none.1 found span hspan)
    | some other =>
      have same : other.spanId = span.spanId := by simpa using List.find?_some found
      rw [List.inj_on_of_nodup_map h.distinct (List.mem_of_find?_eq_some found) hspan same]

namespace SelectedTrace.Sound

variable (h : t.Sound rt)

include h

/-- What is selected are spans of the trace. -/
theorem spanById_selected (hid : id ∈ t.selectedSpanIds) :
    ∃ span ∈ t.candidate.spans, span.spanId = id ∧ t.candidate.spanById id = some span := by
  obtain ⟨span, hspan, rfl⟩ := List.mem_map.1 (h.selects.within id hid)
  exact ⟨span, hspan, rfl, h.checked.spanById_eq.2 ⟨hspan, rfl⟩⟩

/-- The spans that are stored are those of the selected identifiers. -/
theorem mem_spans : span ∈ t.spans ↔ span ∈ t.candidate.spans ∧ span.spanId ∈ t.selectedSpanIds := by
  simp only [SelectedTrace.spans, List.mem_filterMap, h.checked.spanById_eq]
  constructor
  · rintro ⟨id, hid, hspan, rfl⟩
    exact ⟨hspan, hid⟩
  · rintro ⟨hspan, hid⟩
    exact ⟨_, hid, hspan, rfl⟩

/-- The spans are stored in the order of the selection. -/
theorem ids_spans : t.spans.map WorkerSpan.spanId = t.selectedSpanIds := by
  have each : ∀ ids : List String, (∀ id ∈ ids, id ∈ t.selectedSpanIds) →
      (ids.filterMap t.candidate.spanById).map WorkerSpan.spanId = ids := by
    intro ids within
    induction ids with
    | nil => rfl
    | cons id rest ih =>
      obtain ⟨span, -, hid, found⟩ := h.spanById_selected (within id List.mem_cons_self)
      rw [List.filterMap_cons_some found, List.map_cons, hid,
        ih fun x hx => within x (List.mem_cons_of_mem _ hx)]
  exact each _ fun _ hid => hid

theorem length_spans : t.spans.length = t.selectedSpanIds.length := by rw [← h.ids_spans, List.length_map]

theorem nonempty : 1 ≤ t.selectedSpanIds.length := List.length_pos_of_mem h.selects.root

theorem fewer : t.selectedSpanIds.length ≤ t.candidate.spans.length := by
  have := (h.selects.distinct.subperm h.selects.within).length_le
  rwa [List.length_map] at this

end SelectedTrace.Sound

end Spans

/-- The dictionary of a selected trace. -/
def SelectedTrace.dictionary (t : SelectedTrace) (root : WorkerSpan) (startedAt : String) : JsonObject :=
  [("schemaVersion", .int 1), ("traceId", .str t.candidate.traceId),
    ("rootServiceName", .str root.serviceName),
    ("rootOperationName", .str root.operationName), ("startedAt", .str startedAt),
    ("durationMs", magnitudeJson t.candidate.durationMs), ("spanCount", .int t.candidate.spans.length),
    ("representativeScore", magnitudeJson t.representativeScore), ("truncated", .bool t.truncated),
    ("spans", .arr (t.spans.map fun span => .obj span.toStorageDict))]

/-- The ids the backend looks at are plain. -/
def SelectedTrace.PlainIdentifiers (i : Interpreter) (t : SelectedTrace) : Prop :=
  PlainIdentifier i t.candidate.traceId ∧ ∀ id ∈ t.selectedSpanIds, PlainIdentifier i id

instance (i : Interpreter) (t : SelectedTrace) : Decidable (t.PlainIdentifiers i) :=
  inferInstanceAs (Decidable (_ ∧ _))

section Waterfall

variable {rt : Runtime} {t : SelectedTrace} {root : WorkerSpan} {instant : Nat}

/-- The backend's spans are the worker's, and their ids are plain. -/
theorem spans_stored (h : t.Sound rt) {spans : List StoredTraceSpan} :
    StoredTraceWaterfall.spansField rt.toInterpreter (some (.arr
        (t.spans.map fun span => .obj span.toStorageDict))) =
        .valid spans ↔
      spans = t.spans.map WorkerSpan.stored ∧ ∀ id ∈ t.selectedSpanIds,
        PlainIdentifier rt.toInterpreter id := by
  have each : ∀ span ∈ t.spans, ∀ s, StoredTraceSpan.validate rt.toInterpreter (.obj span.toStorageDict) =
    .valid s ↔
      s = span.stored ∧ PlainIdentifier rt.toInterpreter span.spanId ∧
        ∀ p, span.parentSpanId = some p → PlainIdentifier rt.toInterpreter p := by
    intro span hspan s
    obtain ⟨checked, filtered, -⟩ := h.checked.spans span (h.mem_spans.1 hspan).1
    exact validate_toStorageDict checked filtered
  have bounds : 1 ≤ t.spans.length ∧ t.spans.length ≤ 100 := by
    rw [h.length_spans]
    exact ⟨h.nonempty, h.selects.bound⟩
  simp only [StoredTraceWaterfall.spansField_eq_valid, Option.some.injEq, Json.arr.injEq, exists_eq_left',
    List.length_map, bounds, and_self, true_and, List.forall₂_map_left_iff]
  constructor
  · intro accepted
    have stored : ∀ (l : List WorkerSpan) (spans : List StoredTraceSpan), (∀ span ∈ l, span ∈ t.spans) →
        List.Forall₂ (fun (span : WorkerSpan) s =>
          StoredTraceSpan.validate rt.toInterpreter (.obj span.toStorageDict) = .valid s) l spans →
        spans = l.map WorkerSpan.stored ∧ ∀ span ∈ l, PlainIdentifier rt.toInterpreter span.spanId := by
      intro l spans within all
      induction all with
      | nil => exact ⟨rfl, by simp⟩
      | @cons span s l spans head _ ih =>
        obtain ⟨rfl, plain, -⟩ := (each span (within span List.mem_cons_self) s).1 head
        obtain ⟨rfl, rest⟩ := ih fun span hspan => within span (List.mem_cons_of_mem _ hspan)
        exact ⟨rfl, List.forall_mem_cons.2 ⟨plain, rest⟩⟩
    obtain ⟨same, plain⟩ := stored _ _ (fun _ hspan => hspan) accepted
    refine ⟨same, fun id hid => ?_⟩
    obtain ⟨span, hspan, rfl, -⟩ := h.spanById_selected hid
    exact plain span (h.mem_spans.2 ⟨hspan, hid⟩)
  · rintro ⟨rfl, plain⟩
    refine List.forall₂_map_right_iff.2 (List.forall₂_same.2 fun span hspan => ?_)
    obtain ⟨inside, hid⟩ := h.mem_spans.1 hspan
    -- the parents of a selected span are selected
    refine (each span hspan _).2 ⟨rfl, plain _ hid, fun p hp => plain p (h.selects.closed _ hid p ?_)⟩
    rw [h.checked.parentOf_span inside, hp]

/-- The backend validates the dictionary of a selected trace as that trace, if the ids are plain. -/
theorem validate_dictionary (h : t.Sound rt) (finite : t.Finite) (hroot : root ∈ t.candidate.spans)
    (range : instant < 315537897600000000)
    (iso : ∃ dt, rt.readDatetime (.str (IsoTime.text instant)) = some dt ∧ dt.clock = instant ∧
      dt.offset = some 0) {w : StoredTraceWaterfall} :
    StoredTraceWaterfall.validate rt (t.dictionary root (IsoTime.text instant)) = .valid w ↔
      w = t.stored root instant ∧ t.PlainIdentifiers rt.toInterpreter := by
  set d := t.dictionary root (IsoTime.text instant) with hd
  obtain ⟨rootChecked, -, -⟩ := h.checked.spans root hroot
  have service : (nonEmpty (JsonObject.get? d "rootServiceName")).andThen (safeServiceName rt.toInterpreter) =
      .valid root.serviceName := textField_plain rootChecked.serviceName
  have operation : (nonEmpty (JsonObject.get? d "rootOperationName")).andThen
    (safeOperationName rt.toInterpreter) =
      .valid root.operationName := textField_plain rootChecked.operationName
  have started : StoredTraceWaterfall.startedAtField rt (JsonObject.get? d "startedAt") =
      .valid (instant : Int) := by
    obtain ⟨dt, hread, clock, offset⟩ := iso
    have get : JsonObject.get? d "startedAt" = some (.str (IsoTime.text instant)) := rfl
    rw [get]
    simp only [StoredTraceWaterfall.startedAtField, hread, offset, clock, Int.sub_zero]
    exact if_pos ⟨by omega, by omega⟩
  have duration : number (JsonObject.get? d "durationMs") =
      .valid (.float (t.candidate.durationMs.untopD 0)) :=
    number_magnitudeJson finite.duration h.checked.duration
  have count : positiveInt (JsonObject.get? d "spanCount") = .valid (t.candidate.spans.length : Int) := by
    have := h.nonempty.trans h.fewer
    exact if_pos (by exact_mod_cast this)
  have score : number (JsonObject.get? d "representativeScore") =
      .valid (.float (t.representativeScore.untopD 0)) :=
    number_magnitudeJson finite.score h.score
  have truncated : strictBool (JsonObject.get? d "truncated") = .valid t.truncated := rfl
  have traceId : JsonObject.get? d "traceId" = some (.str t.candidate.traceId) := rfl
  have spans : JsonObject.get? d "spans" = some (.arr (t.spans.map fun span => .obj span.toStorageDict)) := by
    simp [hd, SelectedTrace.dictionary, JsonObject.get?_cons]
  rw [StoredTraceWaterfall.validate_eq_valid]
  constructor
  · intro read
    obtain ⟨hid, -, plain⟩ := textField_eq_valid.1 read.traceId
    rw [traceId, Option.some.injEq, Json.str.injEq] at hid
    obtain ⟨hspans, plainSpans⟩ := (spans_stored h).1 (spans ▸ read.spans)
    refine ⟨?_, hid ▸ plain, plainSpans⟩
    cases w
    simp only [SelectedTrace.stored, StoredTraceWaterfall.mk.injEq]
    exact ⟨hid.symm, Outcome.valid.inj (read.rootServiceName.symm.trans service),
      Outcome.valid.inj (read.rootOperationName.symm.trans operation),
      Outcome.valid.inj (read.startedAt.symm.trans started),
      Outcome.valid.inj (read.durationMs.symm.trans duration),
      Outcome.valid.inj (read.spanCount.symm.trans count),
      Outcome.valid.inj (read.representativeScore.symm.trans score),
      Outcome.valid.inj (read.truncated.symm.trans truncated), hspans⟩
  · rintro ⟨rfl, plain, plainSpans⟩
    exact ⟨rfl, textField_plain ⟨plain.nonEmpty, plain⟩, service, operation, started, duration, count,
      score, truncated, spans ▸ (spans_stored h).2 ⟨rfl, plainSpans⟩, rfl⟩

/-! ## The tree -/

/-- The spans of the dictionary are those that are selected. -/
theorem ids_stored (h : t.Sound rt) (root : WorkerSpan) (started : Int) :
    (t.stored root started).spans.map StoredTraceSpan.spanId = t.selectedSpanIds := by
  rw [← h.ids_spans]
  simp [SelectedTrace.stored, WorkerSpan.stored]

/-- A selected span has the parent it had. -/
theorem parentOf_stored (h : t.Sound rt) (root : WorkerSpan) (started : Int) {id : String}
    (hid : id ∈ t.selectedSpanIds) : (t.stored root started).parentOf id = t.candidate.parentOf id := by
  obtain ⟨span, hspan, rfl, -⟩ := h.spanById_selected hid
  have distinct : ((t.stored root started).spans.map StoredTraceSpan.spanId).Nodup := by
    rw [ids_stored h]
    exact h.selects.distinct
  rw [h.checked.parentOf_span hspan]
  have listed : span.stored ∈ t.spans.map WorkerSpan.stored :=
    List.mem_map_of_mem (h.mem_spans.2 ⟨hspan, hid⟩)
  exact parentOf_span distinct listed

/-- The chains of the selected spans end at the root. -/
theorem ends_stored (h : t.Sound rt) (root : WorkerSpan) (started : Int) {id : String}
    (hid : id ∈ t.selectedSpanIds) : EndsAtRoot (t.stored root started).parentOf id := by
  have near := h.checked.rootWithin (h.selects.within id hid)
  generalize t.candidate.spans.length + 1 = n at near
  induction near with
  | root known => exact .here ((parentOf_stored h root started hid).trans known)
  | step parent _ ih =>
    exact .step ((parentOf_stored h root started hid).trans parent) (ih (h.selects.closed _ hid _ parent))

theorem eq_singleton {α : Type} {l : List α} {x : α} (distinct : l.Nodup) (mem : x ∈ l)
    (only : ∀ y ∈ l, y = x) : l = [x] := by
  cases l with
  | nil => cases mem
  | cons a rest =>
    cases rest with
    | nil => rw [only a List.mem_cons_self]
    | cons b rest =>
      have same : a = b := (only a (by simp)).trans (only b (by simp)).symm
      simp [same] at distinct

/-- The stored spans have one root, the candidate's. -/
theorem roots_stored (h : t.Sound rt) (hroot : t.candidate.spanById t.candidate.rootSpanId = some root)
    (started : Int) :
    ((t.stored root started).spans.filter fun span => span.parentSpanId = none) = [root.stored] := by
  have distinct : (t.stored root started).spans.Nodup := by
    refine List.Nodup.of_map StoredTraceSpan.spanId ?_
    rw [ids_stored h]
    exact h.selects.distinct
  obtain ⟨inside, hid⟩ := h.checked.spanById_eq.1 hroot
  refine eq_singleton (distinct.filter _) ?_ fun span hspan => ?_
  · have noParent : root.parentSpanId = none := by
      have := h.checked.parentOf_span inside
      rw [hid, h.checked.root_mem.2] at this
      exact (Option.some.inj this).symm
    refine List.mem_filter.2 ⟨List.mem_map_of_mem (h.mem_spans.2 ⟨inside, hid ▸ h.selects.root⟩), ?_⟩
    exact decide_eq_true noParent
  · obtain ⟨hmem, noParent⟩ := List.mem_filter.1 hspan
    obtain ⟨span, listed, rfl⟩ := List.mem_map.1 hmem
    have candidate := (h.mem_spans.1 listed).1
    have noParent : span.parentSpanId = none := of_decide_eq_true noParent
    have same := h.checked.root_unique ((h.checked.parentOf_span candidate).trans (by rw [noParent]))
    rw [Option.some.inj ((h.checked.spanById_eq.2 ⟨candidate, same⟩).symm.trans hroot)]

/-- With exact times no selected span outlasts the trace. -/
theorem inTime_stored (h : t.Sound rt) (finite : t.Finite) (exact_ : ∀ q, rt.round q = .finite q)
    (started : Int) :
    ((t.stored root started).spans.all fun span =>
      !StoredTraceWaterfall.greater (StoredTraceWaterfall.add rt span.startOffsetMs span.durationMs)
        (StoredTraceWaterfall.add rt (t.stored root started).durationMs (.int 1))) = true := by
  rw [List.all_eq_true]
  intro stored hstored
  obtain ⟨span, hspan, rfl⟩ := List.mem_map.1 hstored
  obtain ⟨-, -, inTime⟩ := h.checked.spans span (h.mem_spans.1 hspan).1
  have inTime : span.startOffsetMs + span.durationMs ≤ t.candidate.durationMs.untopD 0 + 1 := by
    obtain ⟨duration, hduration⟩ := WithTop.ne_top_iff_exists.1 finite.duration
    rw [← hduration] at inTime ⊢
    rw [WorkerSpan.endMs, sum_exact exact_, ← WithTop.coe_one, sum_exact exact_] at inTime
    exact WithTop.coe_le_coe.1 inTime
  simp only [SelectedTrace.stored, WorkerSpan.stored, StoredTraceWaterfall.add, StoredTraceWaterfall.addFloat,
    StoredTraceWaterfall.toFloat, exact_, StoredTraceWaterfall.greater, Int.cast_one, Bool.not_eq_true',
    decide_eq_false_iff_not, not_lt]
  exact inTime

/-- The stored trace passes the backend's tree check. -/
theorem hasValidTree_stored (h : t.Sound rt) (finite : t.Finite)
    (hroot : t.candidate.spanById t.candidate.rootSpanId = some root)
    (exact_ : ∀ q, rt.round q = .finite q) (started : Int) :
    (t.stored root started).hasValidTree rt = .ok true := by
  have distinct : ((t.stored root started).spans.map StoredTraceSpan.spanId).Nodup := by
    rw [ids_stored h]
    exact h.selects.distinct
  have gate : (t.stored root started).passesGate rt = true := by
    have names : root.stored.serviceName = (t.stored root started).rootServiceName ∧
        root.stored.operationName = (t.stored root started).rootOperationName := ⟨rfl, rfl⟩
    have listed : (t.stored root started).spans.length = t.selectedSpanIds.length := by
      rw [← ids_stored h root started, List.length_map]
    have counts : ((t.stored root started).spans.length : Int) ≤ (t.stored root started).spanCount ∧
        (t.stored root started).truncated =
          decide (((t.stored root started).spans.length : Int) < (t.stored root started).spanCount) := by
      rw [listed]
      refine ⟨Int.ofNat_le.2 h.fewer, h.truncated.trans ?_⟩
      exact decide_eq_decide.2 Int.ofNat_lt.symm
    rw [StoredTraceWaterfall.passesGate, roots_stored h hroot]
    simp only [inTime_stored h finite exact_, Bool.and_eq_true, decide_eq_true_eq, and_true]
    exact ⟨names, counts⟩
  have walks : (t.stored root started).walkSpans (t.stored root started).spans = .ok true := by
    rcases walkSpans_cases distinct (fun _ hspan => hspan) with ⟨walks, -⟩ |
      ⟨before, span, after, split, -, stuck, -⟩
    · exact walks
    · refine absurd (ends_stored h root started ?_) stuck
      rw [← ids_stored h root started]
      exact List.mem_map_of_mem (split ▸ by simp)
  rw [StoredTraceWaterfall.hasValidTree, if_neg (not_not.2 distinct), gate]
  exact walks

end Waterfall

/-! ## Agreement -/

/-- The candidate that ranks highest. -/
def representative (rt : Runtime) (payload : Json) (alertIssue : String) :
    Except PyError (Option CandidateTrace) :=
  (parseCandidates rt (candidateObjects payload)).map fun candidates => (ranked alertIssue candidates).head?

/-- The highest ranked candidate has a plain trace id, and the spans selected of it have plain ids. -/
def PlainSelection (rt : Runtime) (payload : Json) (alertIssue : String) (maxSpans : Int) : Prop :=
  ∀ c t, representative rt payload alertIssue = .ok (some c) →
    c.truncate rt (min maxSpans.toNat maxResponseSpans) = .ok t → t.PlainIdentifiers rt.toInterpreter

/-- What was read says what is written. -/
structure StoredTraceWaterfall.Says (w : StoredTraceWaterfall) (d : JsonObject) : Prop where
  traceId : JsonObject.get? d "traceId" = some (.str w.traceId)
  rootServiceName : JsonObject.get? d "rootServiceName" = some (.str w.rootServiceName)
  rootOperationName : JsonObject.get? d "rootOperationName" = some (.str w.rootOperationName)
  startedAt : 0 ≤ w.startedAt ∧ w.startedAt < 315537897600000000 ∧
    JsonObject.get? d "startedAt" = some (.str (IsoTime.text w.startedAt.toNat))
  durationMs : JsonObject.get? d "durationMs" = some (floatJson w.durationMs.value)
  spanCount : JsonObject.get? d "spanCount" = some (.int w.spanCount)
  representativeScore : JsonObject.get? d "representativeScore" = some (floatJson w.representativeScore.value)
  truncated : JsonObject.get? d "truncated" = some (.bool w.truncated)
  spans : JsonObject.get? d "spans" = some (.arr (w.spans.map fun span => .obj span.written.toStorageDict))

section Agreement

variable {rt : Runtime} {payload : Json} {alertIssue : String} {maxSpans : Int} {d : JsonObject}
  {c : CandidateTrace}

/-- A checked trace scores no negative number. -/
theorem score_nonneg (h : c.Checked rt) : 0 ≤ c.representativeScore rt := by
  have error : (0 : WithTop ℚ) ≤ if c.hasError then 1 else 0 := by split <;> decide
  exact sum_nonneg (sum_nonneg error (WithTop.coe_nonneg.2 h.score)) (quotient_nonneg h.duration (by decide))

/-- What a checked trace is cut to is sound. -/
theorem sound_truncate (h : c.Checked rt) (pos : 1 ≤ maxSpans) {t : SelectedTrace}
    (found : c.truncate rt (min maxSpans.toNat maxResponseSpans) = .ok t) : t.Sound rt := by
  have atLeast : 1 ≤ min maxSpans.toNat maxResponseSpans := le_min (by omega) (by decide)
  have selects := CandidateTrace.selected_truncate h.toSpanTree atLeast found
  obtain ⟨-, -, -, ht⟩ := CandidateTrace.truncate_eq_ok found
  rw [ht]
  exact ⟨h, { selects with bound := selects.bound.trans (min_le_right _ _) }, score_nonneg h, rfl⟩

/-- With exact floats nothing overflows. -/
theorem finite_truncate (h : c.Checked rt) (exact_ : ∀ q, rt.round q = .finite q) {n : Nat}
    {t : SelectedTrace} (found : c.truncate rt n = .ok t) : t.Finite := by
  obtain ⟨-, -, -, ht⟩ := CandidateTrace.truncate_eq_ok found
  have duration : c.durationMs ≠ ⊤ := h.finite fun span _ => by
    rw [WorkerSpan.endMs, sum_exact exact_]
    exact WithTop.coe_ne_top
  rw [ht]
  refine ⟨duration, ?_⟩
  obtain ⟨d, hd⟩ := WithTop.ne_top_iff_exists.1 duration
  have weight : (if c.hasError then (1 : WithTop ℚ) else 0) =
      ((if c.hasError then 1 else 0 : ℚ) : WithTop ℚ) := by
    split <;> rfl
  rw [CandidateTrace.representativeScore, ← hd, weight, sum_exact exact_, quotient_exact exact_,
    sum_exact exact_]
  exact WithTop.coe_ne_top

/-- A trace is written where it has a root and starts within the calendar. -/
theorem toStorageDict_eq_ok {t : SelectedTrace} (h : t.toStorageDict = .ok d) : ∃ root instant,
    t.candidate.spanById t.candidate.rootSpanId = some root ∧ instant < 315537897600000000 ∧
      d = t.dictionary root (IsoTime.text instant) := by
  unfold SelectedTrace.toStorageDict at h
  split at h
  · cases h
  · next root hroot =>
    cases hstarted : utcTimestamp t.candidate.startedAt with
    | error e => rw [hstarted] at h; cases h
    | ok started =>
      rw [hstarted] at h
      cases h
      unfold utcTimestamp asUtc at hstarted
      split at hstarted
      · next range =>
        rw [← Except.ok.inj hstarted]
        exact ⟨root, _, hroot, by omega, rfl⟩
      · cases hstarted

/-- What the worker writes is a sound selection of the highest ranked candidate. -/
theorem normalize_eq_some (h : normalizeTraceEvidence rt payload alertIssue maxSpans = .ok (some d)) :
    ∃ c t, representative rt payload alertIssue = .ok (some c) ∧ c.Checked rt ∧ 1 ≤ maxSpans ∧
      c.truncate rt (min maxSpans.toNat maxResponseSpans) = .ok t ∧ t.toStorageDict = .ok d := by
  unfold normalizeTraceEvidence at h
  split at h
  · cases h
  · next pos =>
    cases hcandidates : parseCandidates rt (candidateObjects payload) with
    | error e => rw [hcandidates] at h; cases h
    | ok candidates =>
      rw [hcandidates] at h
      simp only [bind, Except.bind] at h
      cases hranked : ranked alertIssue candidates with
      | nil => rw [hranked] at h; cases h
      | cons c rest =>
        rw [hranked] at h
        have checked : c.Checked rt := by
          have first : c ∈ ranked alertIssue candidates := hranked ▸ List.mem_cons_self
          exact parseCandidates_checked hcandidates c (List.mem_insertionSort _ |>.1 first)
        have chosen : representative rt payload alertIssue = .ok (some c) := by
          rw [representative, hcandidates, Except.map, hranked, List.head?_cons]
        dsimp only at h
        cases found : c.truncate rt (min maxSpans.toNat maxResponseSpans) with
        | error e => rw [found] at h; cases h
        | ok t =>
          rw [found] at h
          refine ⟨c, t, chosen, checked, by omega, found, ?_⟩
          dsimp only at h
          cases written : t.toStorageDict with
          | error e => rw [written] at h; cases h
          | ok dict =>
            rw [written] at h
            cases h
            rfl

/-- The backend reads the dictionary of a selected trace as that trace, exactly if the ids are plain. -/
theorem parse_dictionary_iff {t : SelectedTrace} {root : WorkerSpan} {instant : Nat} (sound : t.Sound rt)
    (finite : t.Finite) (hroot : t.candidate.spanById t.candidate.rootSpanId = some root)
    (range : instant < 315537897600000000) (exact_ : ∀ q, rt.round q = .finite q)
    (iso : ∃ dt, rt.readDatetime (.str (IsoTime.text instant)) = some dt ∧ dt.clock = instant ∧
      dt.offset = some 0) :
    (∃ w, parseTraceWaterfall rt (.obj (t.dictionary root (IsoTime.text instant))) = .ok (some w) ∧
      w.Says (t.dictionary root (IsoTime.text instant))) ↔ t.PlainIdentifiers rt.toInterpreter := by
  have validates : ∀ w, _ ↔ _ := fun w =>
    validate_dictionary (w := w) sound finite (sound.checked.spanById_eq.1 hroot).1 range iso
  constructor
  · rintro ⟨w, read, -⟩
    cases hv : StoredTraceWaterfall.validate rt (t.dictionary root (IsoTime.text instant)) with
    | raised e => simp only [parseTraceWaterfall, hv] at read; cases read
    | invalid => simp only [parseTraceWaterfall, hv] at read; cases read
    | valid w' => exact ((validates w').1 hv).2
  · intro plain
    have hv := (validates _).2 ⟨rfl, plain⟩
    refine ⟨t.stored root instant, ?_, rfl, rfl, rfl, ⟨?_, ?_, rfl⟩,
      congrArg some (magnitudeJson_untopD finite.duration), rfl,
      congrArg some (magnitudeJson_untopD finite.score), rfl, ?_⟩
    · simp only [parseTraceWaterfall, hv, hasValidTree_stored sound finite hroot exact_]
      rfl
    · exact Int.natCast_nonneg instant
    · exact Int.ofNat_lt.2 range
    · simp [SelectedTrace.dictionary, JsonObject.get?_cons, SelectedTrace.stored, Function.comp_def]

/-- The backend reads what the worker wrote as the trace it says, exactly if the chosen ids are plain. -/
theorem worker_output_accepted_iff (exact_ : ∀ q, rt.round q = .finite q)
    (iso : ∀ instant < 315537897600000000, ∃ dt, rt.readDatetime (.str (IsoTime.text instant)) = some dt ∧
      dt.clock = instant ∧ dt.offset = some 0)
    (h : normalizeTraceEvidence rt payload alertIssue maxSpans = .ok (some d)) :
    (∃ w, parseTraceWaterfall rt (.obj d) = .ok (some w) ∧ w.Says d) ↔
      PlainSelection rt payload alertIssue maxSpans := by
  obtain ⟨c, t, chosen, checked, pos, found, written⟩ := normalize_eq_some h
  obtain ⟨root, instant, hroot, range, rfl⟩ := toStorageDict_eq_ok written
  rw [parse_dictionary_iff (sound_truncate checked pos found) (finite_truncate checked exact_ found) hroot
    range exact_
    (iso instant range)]
  constructor
  · intro plain c' t' chosen' found'
    cases chosen.symm.trans chosen'
    cases found.symm.trans found'
    exact plain
  · exact fun plain => plain c t chosen found

/-! ## Ids that get lost -/

theorem isoDigits : 512 ≤ 4300 := by decide

theorem isoDepth : 512 ≤ 1000 := by decide

theorem isoRound (q : ℚ) (h : 0 ≤ q) : FloatVal.finite q = .infinite false ∨ ∃ r, 0 ≤ r ∧
      FloatVal.finite q = .finite r :=
  .inr ⟨q, h, rfl⟩

theorem isoClock {s : String} (h : IsoTime.read s < 315537897600000000) :
    0 ≤ (IsoTime.read s : Int) ∧ (IsoTime.read s : Int) < 315537897600000000 := by
  omega

/-- Exact times, and datetimes in the form the worker writes. -/
def isoRuntime : Runtime where
  maxDigits := 4300
  maxDepth := 1000
  readFloat _ := .nan
  digits_le := isoDigits
  depth_le := isoDepth
  round := .finite
  round_nonneg := isoRound
  frames := 1000
  readDatetime
    | .str s =>
      if h : IsoTime.read s < 315537897600000000 then
        if IsoTime.text (IsoTime.read s) = s then some ⟨IsoTime.read s, some 0, isoClock h⟩ else none
      else none
    | _ => none

/-- The runtime reads back the text of an instant. -/
theorem isoRuntime_reads (instant : Nat) (h : instant < 315537897600000000) :
    ∃ dt, isoRuntime.readDatetime (.str (IsoTime.text instant)) = some dt ∧ dt.clock = instant ∧
      dt.offset = some 0 := by
  have back := IsoTime.read_text h
  simp only [isoRuntime, back, dif_pos h, if_pos]
  exact ⟨_, rfl, rfl, rfl⟩

/-- A tool's answer with one trace: a root of the given id and a child. -/
def answer (id : String) : Json :=
  .obj
    [("traces",
        .arr [.obj [("traceId", .str "4bf92f35"), ("startedAt", .str "2026-08-23T01:02:03Z"), ("spans", .arr [
    .obj [("spanId", .str id), ("serviceName", .str "api"), ("operationName", .str "GET /a"),
      ("startOffsetMs", .int 0),
      ("durationMs", .int 7), ("status", .str "ERROR"), ("kind", .str "SERVER"), ("criticalPath", .bool true),
      ("attributes", .obj [("http.request.method", .str "GET"), ("url", .str "/a")])],
    .obj [("spanId", .str "2"), ("parentSpanId", .str id), ("serviceName", .str "db"),
      ("operationName", .str "query"),
      ("startOffsetMs", .int 1), ("durationMs", .int 5), ("status", .str "OK"), ("kind", .str "CLIENT"),
      ("criticalPath", .bool false), ("attributes", .obj [])]])]])]

/-- What a run of the worker returns. -/
def returned : Except PyError (Option JsonObject) → Option JsonObject
  | .ok d => d
  | .error _ => none

/-- What is returned is the value of the run. -/
theorem returned_eq_some {run : Except PyError (Option JsonObject)} (h : returned run = some d) :
    run = .ok (some d) := by
  cases run with
  | ok result => exact congrArg Except.ok h
  | error e => cases h

/-- A span id with a colon passes the worker, and the backend shows no trace. -/
theorem unconventional_id_vanishes :
    ∃ d, normalizeTraceEvidence isoRuntime (answer "root:1") "latency" 100 = .ok (some d) ∧
    parseTraceWaterfall isoRuntime (.obj d) = .ok none := by
  have lost : (returned (normalizeTraceEvidence isoRuntime (answer "root:1") "latency" 100)).any
      (fun d => parseTraceWaterfall isoRuntime (.obj d) = .ok none) = true := by decide +kernel
  obtain ⟨d, hd, lost⟩ := Option.any_eq_true _ _ |>.1 lost
  exact ⟨d, returned_eq_some hd, of_decide_eq_true lost⟩

/-- With conventional ids the trace is read. -/
theorem conventional_ids_read : ∃ d, normalizeTraceEvidence isoRuntime (answer "1") "latency" 100 =
      .ok (some d) ∧
    ∃ w, parseTraceWaterfall isoRuntime (.obj d) = .ok (some w) ∧ w.Says d := by
  have some_ : (returned (normalizeTraceEvidence isoRuntime (answer "1") "latency" 100)).isSome = true := by
    decide +kernel
  obtain ⟨d, hd⟩ := Option.isSome_iff_exists.1 some_
  have written := returned_eq_some hd
  refine ⟨d, written, (worker_output_accepted_iff (fun _ => rfl) isoRuntime_reads written).2 fun c t chosen
    found => ?_⟩
  have plain : ((representative isoRuntime (answer "1") "latency").toOption.join.all fun c =>
      (c.truncate isoRuntime (min (Int.toNat 100) maxResponseSpans)).toOption.all fun t =>
        t.PlainIdentifiers isoRuntime.toInterpreter) = true := by
    decide +kernel
  rw [chosen] at plain
  simp only [Except.toOption, Option.join_some, Option.all_some, found] at plain
  exact of_decide_eq_true plain

end Agreement

end SreAgent.Trace
