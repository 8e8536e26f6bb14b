import SreAgent.Trace.Candidates
import SreAgent.Trace.Total

/-!
# The waterfall in the response

The router hands what `parse_trace_waterfall` returns to a response model with limits of its own.
The labels of a stored trace may be longer than the model allows, and the model turns numbers into
floats. `waterfall_returned_iff` tells which stored traces the API returns as they are.
-/

namespace SreAgent.Trace
open Base JsonParse

/-- A span of the response. -/
structure TraceWaterfallSpan where
  spanId : String
  parentSpanId : Option String
  serviceName : String
  operationName : String
  startOffsetMs : FloatVal
  durationMs : FloatVal
  status : String
  kind : String
  criticalPath : Bool
  attributes : Attributes
  deriving DecidableEq

/-- The response model; `startedAt` is the instant in UTC. -/
structure TraceWaterfall where
  traceId : String
  rootServiceName : String
  rootOperationName : String
  startedAt : Int
  durationMs : FloatVal
  spanCount : Int
  representativeScore : FloatVal
  truncated : Bool
  spans : List TraceWaterfallSpan
  deriving DecidableEq

/-! ## Field validators -/

/-- `str` with `min_length=1` and `max_length=128`. -/
def labelField (s : String) : Option String := if 1 ≤ s.length ∧ s.length ≤ 128 then some s else none

/-- The same, or `None`. -/
def optionalLabelField : Option String → Option (Option String)
  | none => some none
  | some s => (labelField s).map some

/-- `float` with `ge=0`: an integer is converted. -/
def floatField (rt : Runtime) (n : Num) : Option FloatVal :=
  match StoredTraceWaterfall.toFloat rt n with
  | .finite q => if q < 0 then none else some (.finite q)
  | .infinite negative => if negative then none else some (.infinite negative)
  | .nan => none

/-- A `Literal` of texts. -/
def oneOfField (texts : List String) (s : String) : Option String := if s ∈ texts then some s else none

/-- `model_validate` of a span. -/
def TraceWaterfallSpan.validate (rt : Runtime) (span : StoredTraceSpan) : Option TraceWaterfallSpan := do
  let spanId ← labelField span.spanId
  let parentSpanId ← optionalLabelField span.parentSpanId
  let serviceName ← labelField span.serviceName
  let operationName ← labelField span.operationName
  let startOffsetMs ← floatField rt span.startOffsetMs
  let durationMs ← floatField rt span.durationMs
  let status ← oneOfField statuses span.status
  let kind ← oneOfField kinds span.kind
  return ⟨spanId, parentSpanId, serviceName, operationName, startOffsetMs, durationMs, status, kind,
    span.criticalPath, span.attributes⟩

/-- `int` with `ge=1`. -/
def countField (n : Int) : Option Int := if 1 ≤ n then some n else none

/-- A list of one to 100 spans. -/
def responseSpansField (rt : Runtime) (spans : List StoredTraceSpan) : Option (List TraceWaterfallSpan) :=
  if 1 ≤ spans.length ∧ spans.length ≤ 100 then spans.mapM (TraceWaterfallSpan.validate rt) else none

/-- `model_validate` of a dumped trace. -/
def TraceWaterfall.validate (rt : Runtime) (trace : StoredTraceWaterfall) : Option TraceWaterfall := do
  let traceId ← labelField trace.traceId
  let rootServiceName ← labelField trace.rootServiceName
  let rootOperationName ← labelField trace.rootOperationName
  let durationMs ← floatField rt trace.durationMs
  let spanCount ← countField trace.spanCount
  let representativeScore ← floatField rt trace.representativeScore
  let spans ← responseSpansField rt trace.spans
  return ⟨traceId, rootServiceName, rootOperationName, trace.startedAt, durationMs, spanCount,
    representativeScore, trace.truncated, spans⟩

/-! ## Agreement -/

/-- A span of the response says what the stored one does. -/
structure TraceWaterfallSpan.Says (span : TraceWaterfallSpan) (stored : StoredTraceSpan) : Prop where
  spanId : span.spanId = stored.spanId
  parentSpanId : span.parentSpanId = stored.parentSpanId
  serviceName : span.serviceName = stored.serviceName
  operationName : span.operationName = stored.operationName
  startOffsetMs : span.startOffsetMs = .finite stored.startOffsetMs.value
  durationMs : span.durationMs = .finite stored.durationMs.value
  status : span.status = stored.status
  kind : span.kind = stored.kind
  criticalPath : span.criticalPath = stored.criticalPath
  attributes : span.attributes = stored.attributes

/-- The response says what the stored trace does. -/
structure TraceWaterfall.Says (w : TraceWaterfall) (stored : StoredTraceWaterfall) : Prop where
  traceId : w.traceId = stored.traceId
  rootServiceName : w.rootServiceName = stored.rootServiceName
  rootOperationName : w.rootOperationName = stored.rootOperationName
  startedAt : w.startedAt = stored.startedAt
  durationMs : w.durationMs = .finite stored.durationMs.value
  spanCount : w.spanCount = stored.spanCount
  representativeScore : w.representativeScore = .finite stored.representativeScore.value
  truncated : w.truncated = stored.truncated
  spans : List.Forall₂ TraceWaterfallSpan.Says w.spans stored.spans

/-- The number is a float. -/
def Num.IsFloat (rt : Runtime) (n : Num) : Prop := StoredTraceWaterfall.toFloat rt n = .finite n.value

/-- A span the response model takes over as it is. -/
structure StoredTraceSpan.Fits (rt : Runtime) (span : StoredTraceSpan) : Prop where
  operationName : span.operationName.length ≤ 128
  startOffsetMs : span.startOffsetMs.IsFloat rt
  durationMs : span.durationMs.IsFloat rt

/-- A trace the response model takes over as it is: short operation names, and numbers that are floats. -/
structure StoredTraceWaterfall.Fits (rt : Runtime) (w : StoredTraceWaterfall) : Prop where
  rootOperationName : w.rootOperationName.length ≤ 128
  durationMs : w.durationMs.IsFloat rt
  representativeScore : w.representativeScore.IsFloat rt
  spans : ∀ span ∈ w.spans, span.Fits rt

section Response

variable {rt : Runtime} {n : Num} {s : String} {span : StoredTraceSpan} {w : StoredTraceWaterfall}
  {d : JsonObject}

/-- A label is kept within its bounds. -/
theorem labelField_eq_some {t : String} : labelField s = some t ↔ t = s ∧ 1 ≤ s.length ∧ s.length ≤ 128 := by
  unfold labelField
  split
  · next fits => simp [fits, eq_comm]
  · next unfit => simp [unfit]

/-- A label that is not empty is taken over where it is short. -/
theorem labelField_iff (nonempty : s ≠ "") : labelField s = some s ↔ s.length ≤ 128 := by
  have pos : 1 ≤ s.length := by
    rw [Nat.one_le_iff_ne_zero, ← String.length_toList]
    exact fun none_ => nonempty (String.toList_eq_nil_iff.1 (List.length_eq_zero_iff.1 none_))
  rw [labelField_eq_some]
  simp [pos]

/-- A stored number is taken over where it is a float. -/
theorem floatField_iff (nonneg : 0 ≤ n.value) : floatField rt n = some (.finite n.value) ↔ n.IsFloat rt := by
  unfold floatField Num.IsFloat
  cases StoredTraceWaterfall.toFloat rt n with
  | finite q =>
    simp only [FloatVal.finite.injEq]
    constructor
    · intro h
      split at h
      · cases h
      · simpa using h
    · rintro rfl
      rw [if_neg (not_lt.2 nonneg)]
  | infinite negative => cases negative <;> simp
  | nan => simp

/-- A number that is accepted is not negative. -/
theorem number_nonneg {v : Option Json} (h : number v = .valid n) : 0 ≤ n.value := by
  unfold number at h
  split at h
  · cases h
  · split at h
    · cases h
    · next nonneg =>
      split at h
      · cases h
      · cases h
        exact Rat.intCast_nonneg.2 (not_lt.1 nonneg)
  · split at h
    · cases h
    · next nonneg =>
      cases h
      exact not_lt.1 nonneg
  · cases h
  · cases h

/-- What the patterns of a stored label leave for the response model. -/
theorem label_of_pattern {i : Interpreter} {pattern : List Char → Bool} {v : Option Json}
    (h : (nonEmpty v).andThen (plainText i pattern) = .valid s) : s ≠ "" ∧ pattern s.toList = true :=
  ⟨(textField_eq_valid.1 h).2.1, (textField_eq_valid.1 h).2.2.1⟩

/-- An identifier, and a service name, is short. -/
theorem labelField_identifier {i : Interpreter} {v : Option Json}
    (h : (nonEmpty v).andThen (plainText i identifierPattern) = .valid s) :
    labelField s = some s := by
  obtain ⟨nonempty, pattern⟩ := label_of_pattern h
  refine (labelField_iff nonempty).2 ?_
  rw [← String.length_toList]
  exact identifierPattern_length pattern

/-- The parent of a stored span is a label. -/
theorem optionalLabelField_parent {i : Interpreter} {v : Option Json} {parent : Option String}
    (h : StoredTraceSpan.parentField i v = .valid parent) : optionalLabelField parent = some parent := by
  rcases parentField_eq_valid.1 h with ⟨-, rfl⟩ | ⟨s, -, rfl, pattern, -⟩
  · rfl
  · have short := identifierPattern_length pattern
    rw [String.length_toList] at short
    have nonempty : s ≠ "" := by
      rintro rfl
      cases pattern
    rw [optionalLabelField, (labelField_iff nonempty).2 short]
    rfl

/-- The response model takes over a stored span exactly if it fits. -/
theorem span_returned_iff {i : Interpreter} (h : span.ReadFrom i d) :
    (∃ r, TraceWaterfallSpan.validate rt span = some r ∧ r.Says span) ↔ span.Fits rt := by
  have start := number_nonneg h.startOffsetMs
  have duration := number_nonneg h.durationMs
  have operation := (label_of_pattern h.operationName).1
  constructor
  · rintro ⟨r, valid, same⟩
    simp only [TraceWaterfallSpan.validate, Option.bind_eq_bind, Option.bind_eq_some_iff] at valid
    obtain ⟨_, -, _, -, _, -, name, hname, a, ha, b, hb, _, -, _, -, rest⟩ := valid
    cases rest
    refine ⟨(labelField_eq_some.1 hname).2.2, (floatField_iff start).1 ?_, (floatField_iff duration).1 ?_⟩
    · exact ha.trans (congrArg some same.startOffsetMs)
    · exact hb.trans (congrArg some same.durationMs)
  · intro fits
    have status : oneOfField statuses span.status = some span.status := if_pos (literal_mem h.status)
    have kind : oneOfField kinds span.kind = some span.kind := if_pos (literal_mem h.kind)
    refine ⟨⟨span.spanId, span.parentSpanId, span.serviceName, span.operationName,
      .finite span.startOffsetMs.value,
      .finite span.durationMs.value, span.status, span.kind, span.criticalPath, span.attributes⟩, ?_,
      ⟨rfl, rfl, rfl, rfl, rfl, rfl, rfl, rfl, rfl, rfl⟩⟩
    rw [TraceWaterfallSpan.validate, labelField_identifier h.spanId, optionalLabelField_parent h.parentSpanId,
      labelField_identifier h.serviceName, (labelField_iff operation).2 fits.operationName,
      (floatField_iff start).2 fits.startOffsetMs, (floatField_iff duration).2 fits.durationMs, status, kind]
    rfl

/-- The spans are returned exactly if each of them fits. -/
theorem spans_returned_iff {i : Interpreter} {spans : List StoredTraceSpan}
    (h : ∀ span ∈ spans, ∃ d, span.ReadFrom i d) :
    (∃ rs, spans.mapM (TraceWaterfallSpan.validate rt) = some rs ∧
      List.Forall₂ TraceWaterfallSpan.Says rs spans) ↔
      ∀ span ∈ spans, span.Fits rt := by
  simp only [mapM_eq_some]
  induction spans with
  | nil => exact iff_of_true ⟨[], .nil, .nil⟩ (by simp)
  | cons span rest ih =>
    obtain ⟨d, read⟩ := h span List.mem_cons_self
    rw [List.forall_mem_cons, ← span_returned_iff read, ← ih fun s hs => h s (List.mem_cons_of_mem _ hs)]
    constructor
    · rintro ⟨rs, each, same⟩
      cases each with
      | cons valid each =>
        cases same with
        | cons head same => exact ⟨⟨_, valid, head⟩, _, each, same⟩
    · rintro ⟨⟨r, valid, head⟩, rs, each, same⟩
      exact ⟨r :: rs, .cons valid each, .cons head same⟩

/-- What the parser returns was read from a dictionary. -/
theorem readFrom_of_parse {v : Json} (h : parseTraceWaterfall rt v = .ok (some w)) :
    ∃ d, w.ReadFrom rt d := by
  unfold parseTraceWaterfall at h
  split at h
  · next d =>
    split at h
    · cases h
    · cases h
    · next w' valid =>
      refine ⟨d, StoredTraceWaterfall.validate_eq_valid.1 ?_⟩
      cases tree : w'.hasValidTree rt with
      | error e => rw [tree] at h; cases h
      | ok passed =>
        rw [tree] at h
        cases passed <;> cases h
        exact valid
  · cases h

/-- The API returns a parsed trace as it is exactly if its operation names are short and its numbers
are floats. -/
theorem waterfall_returned_iff {v : Json} (h : parseTraceWaterfall rt v = .ok (some w)) :
    (∃ r, TraceWaterfall.validate rt w = some r ∧ r.Says w) ↔ w.Fits rt := by
  obtain ⟨d, read⟩ := readFrom_of_parse h
  have duration := number_nonneg read.durationMs
  have score := number_nonneg read.representativeScore
  have operation := (label_of_pattern read.rootOperationName).1
  obtain ⟨items, -, few, each⟩ := StoredTraceWaterfall.spansField_eq_valid.1 read.spans
  rw [each.length_eq] at few
  have spansRead : ∀ span ∈ w.spans, ∃ d, span.ReadFrom rt.toInterpreter d := by
    intro span hspan
    obtain ⟨item, -, valid⟩ := exists_of_forall₂ each hspan
    obtain ⟨d, -, readSpan⟩ := StoredTraceSpan.validate_eq_valid.1 valid
    exact ⟨d, readSpan⟩
  have spans : responseSpansField rt w.spans = w.spans.mapM (TraceWaterfallSpan.validate rt) := if_pos few
  have count : countField w.spanCount = some w.spanCount := by
    refine if_pos ?_
    have count := read.spanCount
    unfold positiveInt at count
    split at count
    · split at count
      · next pos =>
        cases count
        exact pos
      · cases count
    · cases count
  constructor
  · rintro ⟨r, valid, same⟩
    simp only [TraceWaterfall.validate, Option.bind_eq_bind, Option.bind_eq_some_iff, spans] at valid
    obtain ⟨_, -, _, -, name, hname, a, ha, n, hn, b, hb, rs, hrs, rest⟩ := valid
    cases rest
    refine ⟨(labelField_eq_some.1 hname).2.2, (floatField_iff duration).1 ?_, (floatField_iff score).1 ?_,
      (spans_returned_iff spansRead).1 ⟨rs, hrs, same.spans⟩⟩
    · exact ha.trans (congrArg some same.durationMs)
    · exact hb.trans (congrArg some same.representativeScore)
  · intro fits
    obtain ⟨rs, hrs, sameSpans⟩ := (spans_returned_iff spansRead).2 fits.spans
    refine ⟨⟨w.traceId, w.rootServiceName, w.rootOperationName, w.startedAt, .finite w.durationMs.value,
      w.spanCount,
      .finite w.representativeScore.value, w.truncated, rs⟩, ?_,
      ⟨rfl, rfl, rfl, rfl, rfl, rfl, rfl, rfl, sameSpans⟩⟩
    rw [TraceWaterfall.validate, labelField_identifier read.traceId,
      labelField_identifier read.rootServiceName,
      (labelField_iff operation).2 fits.rootOperationName, (floatField_iff duration).2 fits.durationMs,
      (floatField_iff score).2 fits.representativeScore, count, spans, hrs]
    rfl

end Response

/-! ## A long operation name -/

/-- An HTTP operation of 136 characters. -/
def longOperation : String := "OPTIONS /" ++ String.ofList (List.replicate 127 'a')

/-- A stored trace of one span with the given operation. -/
def storedOperation (operation : String) : Json :=
  .obj [("schemaVersion", .int 1), ("traceId", .str "t"), ("rootServiceName", .str "api"),
    ("rootOperationName", .str operation), ("startedAt", .str "2026-08-23T01:02:03Z"), ("durationMs", .int 1),
    ("spanCount", .int 1), ("representativeScore", .int 0), ("truncated", .bool false), ("spans", .arr [
      .obj [("spanId", .str "a"), ("parentSpanId", .null), ("serviceName", .str "api"),
        ("operationName", .str operation),
        ("startOffsetMs", .int 0), ("durationMs", .int 1), ("status", .str "OK"), ("kind", .str "SERVER"),
        ("criticalPath", .bool false), ("attributes", .obj [])]])]

/-- A stored trace with a short operation name is returned as it is. -/
theorem short_operation_returned : ∃ w, parseTraceWaterfall oneInstant (storedOperation "OPTIONS /a") =
      .ok (some w) ∧
    ∃ r, TraceWaterfall.validate oneInstant w = some r ∧ r.Says w := by
  have parsed : (parseTraceWaterfall oneInstant (storedOperation "OPTIONS /a")).toOption.join.isSome =
      true := by decide +kernel
  cases h : parseTraceWaterfall oneInstant (storedOperation "OPTIONS /a") with
  | error e => rw [h] at parsed; cases parsed
  | ok result =>
    cases result with
    | none => rw [h] at parsed; cases parsed
    | some w =>
      refine ⟨w, rfl, (waterfall_returned_iff h).2 ?_⟩
      have shape : (parseTraceWaterfall oneInstant (storedOperation "OPTIONS /a")).toOption.join.all
          (fun w => w.rootOperationName.length ≤ 128 &&
            w.spans.all fun span => span.operationName.length ≤ 128) = true := by
        decide +kernel
      rw [h] at shape
      simp only [Except.toOption, Option.join_some, Option.all_some, Bool.and_eq_true, decide_eq_true_eq,
        List.all_eq_true] at shape
      have floats : ∀ n : Num, n.IsFloat oneInstant := fun n => by cases n <;> rfl
      exact ⟨shape.1, floats _, floats _, fun span hspan => ⟨shape.2 span hspan, floats _, floats _⟩⟩

/-- A stored trace with a long operation name is read, and the response model refuses it. -/
theorem long_operation_refused : ∃ w, parseTraceWaterfall oneInstant (storedOperation longOperation) =
      .ok (some w) ∧
    ¬ ∃ r, TraceWaterfall.validate oneInstant w = some r ∧ r.Says w := by
  have refused : (parseTraceWaterfall oneInstant (storedOperation longOperation)).toOption.join.any
      (fun w => TraceWaterfall.validate oneInstant w = none) = true := by decide +kernel
  obtain ⟨w, hw, invalid⟩ := (Option.any_eq_true _ _).1 refused
  cases h : parseTraceWaterfall oneInstant (storedOperation longOperation) with
  | error e => rw [h] at hw; cases hw
  | ok result =>
    rw [h] at hw
    cases hw
    refine ⟨w, rfl, fun ⟨r, valid, _⟩ => ?_⟩
    cases valid.symm.trans (of_decide_eq_true invalid)

end SreAgent.Trace
