import Mathlib
import SreAgent.Base.IsoTime
import SreAgent.Base.Preorder
import SreAgent.Trace.Stored

/-!
# The worker's trace evidence

How the worker reads the answer of a trace tool: candidates under two spellings of every key,
their validation, and the tree they must form. The times that are read are finite floats; a sum of
them is rounded and may be infinite. A `TypeError` or `ValueError` drops the candidate; other
exceptions leave `normalize_trace_evidence`.
-/

namespace SreAgent.Trace
open Base JsonParse

/-- `_InputSpan`, and `_NormalizedSpan` once its attributes are filtered. -/
structure WorkerSpan where
  spanId : String
  parentSpanId : Option String
  serviceName : String
  operationName : String
  startOffsetMs : ℚ
  durationMs : ℚ
  status : String
  kind : String
  criticalPath : Bool
  attributes : Attributes
  deriving DecidableEq

/-- `_InputTrace`; `startedAt` is its local clock and its offset. -/
structure InputTrace where
  traceId : String
  startedAt : Int × Int
  latencyAnomalyScore : ℚ
  durationMs : Option ℚ
  spans : List WorkerSpan

structure CandidateTrace where
  traceId : String
  startedAt : Int × Int
  latencyAnomalyScore : ℚ
  durationMs : WithTop ℚ
  rootSpanId : String
  spans : List WorkerSpan

/-! ## Floats -/

/-- The float nearest to a number that is not negative, or infinity. -/
def Runtime.magnitude (rt : Runtime) (q : ℚ) : WithTop ℚ :=
  match rt.round q with
  | .finite r => r
  | _ => ⊤

/-- The sum of two floats that are not negative. -/
def Runtime.sum (rt : Runtime) : WithTop ℚ → WithTop ℚ → WithTop ℚ
  | some a, some b => rt.magnitude (a + b)
  | _, _ => ⊤

/-- A float that is not negative, divided by a positive one. -/
def Runtime.quotient (rt : Runtime) (x : WithTop ℚ) (n : ℚ) : WithTop ℚ :=
  match x with
  | some q => rt.magnitude (q / n)
  | none => ⊤

/-! ## Keys -/

/-- `_TRACE_ALIASES`. -/
def traceAliases : List (String × String) :=
  [("traceId", "trace_id"), ("trace_id", "trace_id"), ("startedAt", "started_at"),
    ("started_at", "started_at"),
    ("latencyAnomalyScore", "latency_anomaly_score"), ("latency_anomaly_score", "latency_anomaly_score"),
    ("durationMs", "duration_ms"), ("duration_ms", "duration_ms"), ("spans", "spans")]

/-- `_SPAN_ALIASES`. -/
def spanAliases : List (String × String) :=
  [("spanId", "span_id"), ("span_id", "span_id"), ("parentSpanId", "parent_span_id"),
    ("parent_span_id", "parent_span_id"), ("serviceName", "service_name"), ("service_name", "service_name"),
    ("operationName", "operation_name"), ("operation_name", "operation_name"),
    ("startOffsetMs", "start_offset_ms"),
    ("start_offset_ms", "start_offset_ms"), ("durationMs", "duration_ms"), ("duration_ms", "duration_ms"),
    ("status", "status"), ("kind", "kind"), ("criticalPath", "critical_path"),
    ("critical_path", "critical_path"), ("attributes", "attributes")]

/-- `_normalize_aliases`; `none` is the `ValueError` of two spellings of one key. -/
def normalizeAliases (aliases : List (String × String)) (raw : JsonObject) : Option JsonObject :=
  let normalized := raw.map fun (key, value) => ((JsonObject.get? aliases key).getD key, value)
  if (JsonObject.keys normalized).Nodup then some normalized else none

/-! ## Field validators -/

/-- A number that converts to a float, not negative and finite. -/
def nonNegative (rt : Runtime) : Json → Option ℚ
  | .int n =>
    if n < 0 ∨ floatBound ≤ n then none
    else
      match rt.round n with
      | .finite q => some q
      | _ => none
  | .float (.finite q) => if q < 0 then none else some q
  | _ => none

/-- `start_offset_ms` and `duration_ms` of a span. -/
def spanTime (rt : Runtime) : Option Json → Outcome PyError ℚ
  | none => .invalid
  | some v =>
    match v with
    | .int _ | .float _ =>
      match nonNegative rt v with
      | some q => .valid q
      | none => .invalid
    | _ => .raised .typeError

/-- `latency_anomaly_score`, by default zero. -/
def latencyScore (rt : Runtime) : Option Json → Outcome PyError ℚ
  | none => .valid 0
  | some v =>
    match nonNegative rt v with
    | some q => .valid q
    | none => .invalid

/-- `duration_ms` of a trace, which may be missing or null. -/
def traceDuration (rt : Runtime) : Option Json → Outcome PyError (Option ℚ)
  | none | some .null => .valid none
  | some v =>
    match nonNegative rt v with
    | some q => .valid (some q)
    | none => .invalid

/-- `started_at`: an aware datetime. -/
def startedAt (rt : Runtime) : Option Json → Outcome PyError (Int × Int)
  | none => .invalid
  | some v =>
    match rt.readDatetime v with
    | none => .invalid
    | some dt =>
      match dt.offset with
      | none => .invalid
      | some offset => .valid (dt.clock, offset)

/-- `parent_span_id`, by default missing. -/
def inputParent : Option Json → Outcome PyError (Option String)
  | none | some .null => .valid none
  | some (.str s) => .valid (some s)
  | _ => .invalid

/-- `attributes`. -/
def inputAttributes : Option Json → Outcome PyError Attributes
  | some (.obj items) =>
    match scalars items with
    | some attributes => .valid attributes
    | none => .invalid
  | _ => .invalid

/-- The fields of `_InputSpan`. -/
def inputSpanFields : List String :=
  ["span_id", "parent_span_id", "service_name", "operation_name", "start_offset_ms", "duration_ms",
    "status", "kind", "critical_path", "attributes"]

/-- `model_validate` of a span. -/
def validateSpan (rt : Runtime) : Json → Outcome PyError WorkerSpan
  | .obj d =>
    (Outcome.both (nonEmpty (JsonObject.get? d "span_id")) <|
      Outcome.both (inputParent (JsonObject.get? d "parent_span_id")) <|
      Outcome.both ((nonEmpty (JsonObject.get? d "service_name")).andThen
        (safeServiceName rt.toInterpreter)) <|
      Outcome.both ((nonEmpty (JsonObject.get? d "operation_name")).andThen
        (safeOperationName rt.toInterpreter)) <|
      Outcome.both (spanTime rt (JsonObject.get? d "start_offset_ms")) <|
      Outcome.both (spanTime rt (JsonObject.get? d "duration_ms")) <|
      Outcome.both (literal statuses (JsonObject.get? d "status")) <|
      Outcome.both (literal kinds (JsonObject.get? d "kind")) <|
      Outcome.both (strictBool (JsonObject.get? d "critical_path")) <|
      Outcome.both (inputAttributes (JsonObject.get? d "attributes")) <|
      noExtra inputSpanFields d).map
    fun (spanId, parentSpanId, serviceName, operationName, startOffsetMs, durationMs, status, kind,
      criticalPath,
        attributes, _) =>
      { spanId, parentSpanId, serviceName, operationName, startOffsetMs, durationMs, status, kind,
        criticalPath, attributes }
  | _ => .invalid

/-- The fields of `_InputTrace`. -/
def inputTraceFields : List String :=
  ["trace_id", "started_at", "latency_anomaly_score", "duration_ms", "spans"]

/-- `list[_InputSpan]` with `min_length=1`. -/
def inputSpans (rt : Runtime) : Option Json → Outcome PyError (List WorkerSpan)
  | some (.arr items) =>
    (Outcome.all (items.map (validateSpan rt))).andThen fun spans => if items = [] then .invalid
      else .valid spans
  | _ => .invalid

/-- `model_validate` of a trace. -/
def validateTrace (rt : Runtime) (d : JsonObject) : Outcome PyError InputTrace :=
  (Outcome.both (nonEmpty (JsonObject.get? d "trace_id")) <|
    Outcome.both (startedAt rt (JsonObject.get? d "started_at")) <|
    Outcome.both (latencyScore rt (JsonObject.get? d "latency_anomaly_score")) <|
    Outcome.both (traceDuration rt (JsonObject.get? d "duration_ms")) <|
    Outcome.both (inputSpans rt (JsonObject.get? d "spans")) <|
    noExtra inputTraceFields d).map
  fun (traceId, startedAt, latencyAnomalyScore, durationMs, spans, _) =>
    { traceId, startedAt, latencyAnomalyScore, durationMs, spans }

/-! ## Candidates -/

/-- The ids and parents of spans. -/
def workerLinks (spans : List WorkerSpan) : List (String × Option String) :=
  spans.map fun span => (span.spanId, span.parentSpanId)

/-- `_has_cycle`. -/
def hasCycle (spans : List WorkerSpan) : Bool :=
  spans.any fun span => ParentChain.walk (ParentChain.entry (workerLinks spans)) (spans.length + 1) []
    span.spanId = .cycle

/-- `start_offset_ms + duration_ms`. -/
def WorkerSpan.endMs (rt : Runtime) (span : WorkerSpan) : WithTop ℚ :=
  rt.sum span.startOffsetMs span.durationMs

/-- The largest of the ends of spans. -/
def derivedDuration (rt : Runtime) : List WorkerSpan → WithTop ℚ
  | [] => 0
  | [span] => span.endMs rt
  | span :: rest => max (span.endMs rt) (derivedDuration rt rest)

/-- The duration that is given, or derived from the spans. -/
def InputTrace.duration (rt : Runtime) (trace : InputTrace) : WithTop ℚ :=
  match trace.durationMs with
  | some q => q
  | none => derivedDuration rt trace.spans

/-- Filter the attributes of every span in turn. -/
def normalizeSpans (i : Interpreter) : List WorkerSpan → Except PyError (List WorkerSpan)
  | [] => .ok []
  | span :: rest => do
    let attributes ← safeAttributes i span.serviceName span.operationName span.attributes
    let rest ← normalizeSpans i rest
    return { span with attributes } :: rest

/-- `_validated_candidate`. -/
def validatedCandidate (rt : Runtime) (trace : InputTrace) : Except PyError (Option CandidateTrace) :=
  let ids := trace.spans.map WorkerSpan.spanId
  if ¬ ids.Nodup then .ok none
  else
    match trace.spans.filter fun span => span.parentSpanId = none with
    | [root] =>
      if trace.spans.any fun span => span.parentSpanId.any (· ∉ ids) then .ok none
      else if hasCycle trace.spans then .ok none
      else
        let durationMs := trace.duration rt
        if trace.spans.any fun span => rt.sum durationMs 1 < span.endMs rt then .ok none
        else do
          let spans ← normalizeSpans rt.toInterpreter trace.spans
          return some ⟨trace.traceId, trace.startedAt, trace.latencyAnomalyScore, durationMs,
            root.spanId, spans⟩
    | _ => .ok none

/-- A span with its keys normalized; what is no object stays. -/
def normalizeSpanKeys : Json → Option Json
  | .obj d => (normalizeAliases spanAliases d).map .obj
  | v => some v

/-- The keys of a raw trace and of its spans, normalized. -/
def normalizeTraceKeys (raw : JsonObject) : Option JsonObject := do
  let data ← normalizeAliases traceAliases raw
  match JsonObject.get? data "spans" with
  | some (.arr items) => some (setItem data "spans" (.arr (← items.mapM normalizeSpanKeys)))
  | _ => none

/-- The exceptions `_parse_candidate` catches. -/
def caught : PyError → Bool
  | .typeError | .valueError => true
  | _ => false

/-- `_parse_candidate`. -/
def parseCandidate (rt : Runtime) (raw : JsonObject) : Except PyError (Option CandidateTrace) :=
  match normalizeTraceKeys raw with
  | none => .ok none
  | some data =>
    match validateTrace rt data with
    | .invalid => .ok none
    | .raised e => if caught e then .ok none else .error e
    | .valid trace =>
      match validatedCandidate rt trace with
      | .ok candidate => .ok candidate
      | .error e => if caught e then .ok none else .error e

/-- The objects among values. -/
def objects (items : List Json) : List JsonObject :=
  items.filterMap fun
    | .obj d => some d
    | _ => none

/-- `_candidate_objects`. -/
def candidateObjects : Json → List JsonObject
  | .arr items => objects items
  | .obj payload =>
    match JsonObject.get? payload "traces" with
    | some (.arr items) => objects items
    | _ =>
      let nested := match JsonObject.get? payload "data" with
        | some (.obj data) => JsonObject.get? data "traces"
        | _ => none
      match nested with
      | some (.arr items) => objects items
      | _ => if "spans" ∈ JsonObject.keys payload then [payload] else []
  | _ => []

/-- `_parse_candidates`. -/
def parseCandidates (rt : Runtime) : List JsonObject → Except PyError (List CandidateTrace)
  | [] => .ok []
  | raw :: rest => do
    let candidate ← parseCandidate rt raw
    let others ← parseCandidates rt rest
    return candidate.toList ++ others

end SreAgent.Trace
