import SreAgent.Base.Outcome
import SreAgent.Base.ParentChain
import SreAgent.Trace.Labels

/-!
# The stored trace

`StoredTraceSpan` and `StoredTraceWaterfall` as the backend validates them field by field, the
tree check `has_valid_tree`, and `parse_trace_waterfall`, which reads what is stored with a piece
of evidence. A `ValueError` of a validator is collected, any other exception leaves
`model_validate`; the tree check runs outside of validation and may raise as well.
-/

namespace SreAgent.Trace
open Base JsonParse

/-- The integers that no float represents begin here: half a unit over the largest one. -/
def floatBound : Int := (2 ^ 1024 - 2 ^ 970 : Nat)

/-- A validated `StrictInt | StrictFloat`: finite. -/
inductive Num where
  | int (n : Int)
  | float (q : ℚ)
  deriving DecidableEq

/-- What a number is worth. -/
def Num.value : Num → ℚ
  | .int n => n
  | .float q => q

structure StoredTraceSpan where
  spanId : String
  parentSpanId : Option String
  serviceName : String
  operationName : String
  startOffsetMs : Num
  durationMs : Num
  status : String
  kind : String
  criticalPath : Bool
  attributes : Attributes
  deriving DecidableEq

structure StoredTraceWaterfall where
  traceId : String
  rootServiceName : String
  rootOperationName : String
  startedAt : Int
  durationMs : Num
  spanCount : Int
  representativeScore : Num
  truncated : Bool
  spans : List StoredTraceSpan
  deriving DecidableEq

/-! ## Field validators -/

/-- A `ValueError` of a validator is collected. -/
def collect {α : Type} : Except PyError α → Outcome PyError α
  | .ok a => .valid a
  | .error .valueError => .invalid
  | .error e => .raised e

/-- `StrictStr` with `min_length=1`. -/
def nonEmpty : Option Json → Outcome PyError String
  | some (.str s) => if s = "" then .invalid else .valid s
  | _ => .invalid

/-- A text of a pattern that is no JWT. -/
def plainText (i : Interpreter) (pattern : List Char → Bool) (s : String) : Outcome PyError String :=
  if pattern s.toList = false then .invalid
  else (collect (isCompactJwt i s)).andThen fun jwt => if jwt then .invalid else .valid s

/-- `_safe_span_identifier` and `_safe_trace_identifier`. -/
def safeIdentifier (i : Interpreter) (s : String) : Outcome PyError String := plainText i identifierPattern s

/-- `_safe_service_name`. -/
def safeServiceName (i : Interpreter) (s : String) : Outcome PyError String :=
  plainText i serviceNamePattern s

/-- `_safe_operation_name`. -/
def safeOperationName (i : Interpreter) (s : String) : Outcome PyError String :=
  plainText i (fun cs => httpOperationPattern cs || identifierOperationPattern cs) s

/-- A number: the check of its type before, `ge=0`, and `isfinite` after, which converts to a float. -/
def number : Option Json → Outcome PyError Num
  | none => .invalid
  | some (.int n) =>
    if n < 0 then .invalid else if floatBound ≤ n then .raised .overflowError else .valid (.int n)
  | some (.float (.finite q)) => if q < 0 then .invalid else .valid (.float q)
  | some (.float _) => .invalid
  | some _ => .raised .typeError

/-- A `Literal` of texts. -/
def literal (texts : List String) : Option Json → Outcome PyError String
  | some (.str s) => if s ∈ texts then .valid s else .invalid
  | _ => .invalid

def strictBool : Option Json → Outcome PyError Bool
  | some (.bool b) => .valid b
  | _ => .invalid

/-- `StrictInt` with `ge=1`. -/
def positiveInt : Option Json → Outcome PyError Int
  | some (.int n) => if 1 ≤ n then .valid n else .invalid
  | _ => .invalid

/-- `_STATUS`. -/
def statuses : List String := ["OK", "ERROR", "UNSET"]

/-- `_KIND`. -/
def kinds : List String := ["INTERNAL", "SERVER", "CLIENT", "PRODUCER", "CONSUMER"]

/-- A value of `_JSON_SCALAR`. -/
def scalar : Json → Option Scalar
  | .str s => some (.str s)
  | .int n => some (.int n)
  | .float x => some (.float x)
  | .bool b => some (.bool b)
  | _ => none

/-- `dict[StrictStr, _JSON_SCALAR]`. -/
def scalars (d : JsonObject) : Option Attributes :=
  d.mapM fun (key, value) => (scalar value).map fun v => (key, v)

/-- No other key (`extra="forbid"`). -/
def noExtra (fields : List String) (d : JsonObject) : Outcome PyError Unit :=
  .check ((JsonObject.keys d).all fun key => key ∈ fields)

/-! ## A span -/

namespace StoredTraceSpan

/-- The fields of a span, by their aliases. -/
def aliases : List String :=
  ["spanId", "parentSpanId", "serviceName", "operationName", "startOffsetMs", "durationMs", "status", "kind",
    "criticalPath", "attributes"]

def parentField (i : Interpreter) : Option Json → Outcome PyError (Option String)
  | some .null => .valid none
  | some (.str s) => (safeIdentifier i s).map some
  | _ => .invalid

def serviceField (i : Interpreter) (d : JsonObject) : Outcome PyError String :=
  (nonEmpty (JsonObject.get? d "serviceName")).andThen (safeServiceName i)

def operationField (i : Interpreter) (d : JsonObject) : Outcome PyError String :=
  (nonEmpty (JsonObject.get? d "operationName")).andThen (safeOperationName i)

/-- The attributes of a span: allow-listed scalars, filtered by the names where these are valid. -/
def attributesField (i : Interpreter) (d : JsonObject) : Outcome PyError Attributes :=
  match JsonObject.get? d "attributes" with
  | some (.obj items) =>
    match scalars items with
    | none => .invalid
    | some attributes =>
      if attributes.any fun (key, _) => key ∉ allowedAttributes then .invalid
      else
        match serviceField i d, operationField i d with
        | .valid service, .valid operation => collect (safeAttributes i service operation attributes)
        | _, _ => .valid []
  | _ => .invalid

/-- `model_validate` of a span. -/
def validate (i : Interpreter) : Json → Outcome PyError StoredTraceSpan
  | .obj d =>
    (Outcome.both ((nonEmpty (JsonObject.get? d "spanId")).andThen (safeIdentifier i)) <|
      Outcome.both (parentField i (JsonObject.get? d "parentSpanId")) <|
      Outcome.both (serviceField i d) <|
      Outcome.both (operationField i d) <|
      Outcome.both (number (JsonObject.get? d "startOffsetMs")) <|
      Outcome.both (number (JsonObject.get? d "durationMs")) <|
      Outcome.both (literal statuses (JsonObject.get? d "status")) <|
      Outcome.both (literal kinds (JsonObject.get? d "kind")) <|
      Outcome.both (strictBool (JsonObject.get? d "criticalPath")) <|
      Outcome.both (attributesField i d) <|
      noExtra aliases d).map
    fun (spanId, parentSpanId, serviceName, operationName, startOffsetMs, durationMs, status, kind,
      criticalPath,
        attributes, _) =>
      { spanId, parentSpanId, serviceName, operationName, startOffsetMs, durationMs, status, kind,
        criticalPath, attributes }
  | _ => .invalid

end StoredTraceSpan

/-! ## A waterfall -/

namespace StoredTraceWaterfall

def aliases : List String :=
  ["schemaVersion", "traceId", "rootServiceName", "rootOperationName", "startedAt", "durationMs", "spanCount",
    "representativeScore", "truncated", "spans"]

/-- `started_at`: a string, an aware datetime, and its instant in UTC where there is one. -/
def startedAtField (rt : Runtime) : Option Json → Outcome PyError Int
  | none => .invalid
  | some (.str s) =>
    match rt.readDatetime (.str s) with
    | none => .invalid
    | some dt =>
      match dt.offset with
      | none => .invalid
      | some offset =>
        if 0 ≤ dt.clock - offset ∧ dt.clock - offset < 315537897600000000 then .valid (dt.clock - offset)
        else .raised .overflowError
  | some _ => .raised .typeError

def schemaVersionField : Option Json → Outcome PyError Unit
  | some v => .check (literalOne v)
  | none => .invalid

def spansField (i : Interpreter) : Option Json → Outcome PyError (List StoredTraceSpan)
  | some (.arr items) => .list 1 100 (StoredTraceSpan.validate i) items
  | _ => .invalid

/-- `model_validate`. -/
def validate (rt : Runtime) (d : JsonObject) : Outcome PyError StoredTraceWaterfall :=
  (Outcome.both (schemaVersionField (JsonObject.get? d "schemaVersion")) <|
    Outcome.both ((nonEmpty (JsonObject.get? d "traceId")).andThen (safeIdentifier rt.toInterpreter)) <|
    Outcome.both ((nonEmpty (JsonObject.get? d "rootServiceName")).andThen
      (safeServiceName rt.toInterpreter)) <|
    Outcome.both ((nonEmpty (JsonObject.get? d "rootOperationName")).andThen
      (safeOperationName rt.toInterpreter)) <|
    Outcome.both (startedAtField rt (JsonObject.get? d "startedAt")) <|
    Outcome.both (number (JsonObject.get? d "durationMs")) <|
    Outcome.both (positiveInt (JsonObject.get? d "spanCount")) <|
    Outcome.both (number (JsonObject.get? d "representativeScore")) <|
    Outcome.both (strictBool (JsonObject.get? d "truncated")) <|
    Outcome.both (spansField rt.toInterpreter (JsonObject.get? d "spans")) <|
    noExtra aliases d).map
  fun (_, traceId, rootServiceName, rootOperationName, startedAt, durationMs, spanCount,
    representativeScore, truncated,
      spans, _) =>
    { traceId, rootServiceName, rootOperationName, startedAt, durationMs, spanCount,
      representativeScore, truncated, spans }

/-! ## The tree check -/

/-- A number as a float. -/
def toFloat (rt : Runtime) : Num → FloatVal
  | .int n => rt.round n
  | .float q => .finite q

/-- The sum of two non-negative floats. -/
def addFloat (rt : Runtime) : FloatVal → FloatVal → FloatVal
  | .finite a, .finite b => rt.round (a + b)
  | .nan, _ | _, .nan => .nan
  | _, _ => .infinite false

/-- `a + b`: exact on integers, rounded as soon as one is a float. -/
def add (rt : Runtime) : Num → Num → FloatVal
  | .int a, .int b => .finite (a + b : Int)
  | a, b => addFloat rt (toFloat rt a) (toFloat rt b)

/-- `a > b`. -/
def greater : FloatVal → FloatVal → Bool
  | .finite a, .finite b => b < a
  | .infinite false, .finite _ | .infinite false, .infinite true | .finite _, .infinite true => true
  | _, _ => false

variable (rt : Runtime) (w : StoredTraceWaterfall)

/-- The span ids with their parents, as listed. -/
def links : List (String × Option String) := w.spans.map fun span => (span.spanId, span.parentSpanId)

/-- `span_by_id[id].parent_span_id`, where there is such a span. -/
def parentOf (id : String) : Option (Option String) := JsonObject.get? w.links id

/-- The checks before the walk: one root with the stored names, consistent counts and times. -/
def passesGate : Bool :=
  match w.spans.filter fun span => span.parentSpanId = none with
  | [root] =>
    (root.serviceName = w.rootServiceName ∧ root.operationName = w.rootOperationName) &&
    (w.spans.length ≤ w.spanCount ∧ w.truncated = decide ((w.spans.length : Int) < w.spanCount)) &&
    w.spans.all fun span => !greater (add rt span.startOffsetMs span.durationMs)
      (add rt w.durationMs (.int 1))
  | _ => false

/-- The loop of `has_valid_tree`: every span walks up to the root. -/
def walkSpans : List StoredTraceSpan → Except PyError Bool
  | [] => .ok true
  | span :: rest =>
    if span.parentSpanId.any fun parent => (w.parentOf parent).isNone then .ok false
    else
      match ParentChain.walk w.parentOf (w.spans.length + 1) [] span.spanId with
      | .root => walkSpans rest
      | .missing => .error .keyError
      | .cycle | .outOfFuel => .ok false

/-- `has_valid_tree`. -/
def hasValidTree : Except PyError Bool :=
  if ¬ (w.spans.map StoredTraceSpan.spanId).Nodup then .ok false
  else if w.passesGate rt = false then .ok false
  else w.walkSpans w.spans

end StoredTraceWaterfall

/-- `parse_trace_waterfall`. -/
def parseTraceWaterfall (rt : Runtime) : Json → Except PyError (Option StoredTraceWaterfall)
  | .obj d =>
    match StoredTraceWaterfall.validate rt d with
    | .raised e => .error e
    | .invalid => .ok none
    | .valid w => do
      if ← w.hasValidTree rt then return some w
      return none
  | _ => .ok none

/-! ## What is accepted -/

section Accepted

variable {i : Interpreter}

theorem collect_eq_valid {α : Type} {x : Except PyError α} {a : α} : collect x = .valid a ↔ x = .ok a := by
  cases x with
  | ok b => simp [collect]
  | error e => cases e <;> simp [collect]

theorem nonEmpty_eq_valid {v : Option Json} {s : String} : nonEmpty v = .valid s ↔
      v = some (.str s) ∧ s ≠ "" := by
  unfold nonEmpty
  split
  · next t =>
    split
    · next empty => simp +contextual [empty]
    · next nonempty =>
      simp only [Outcome.valid.injEq, Option.some.injEq, Json.str.injEq]
      exact ⟨fun h => ⟨h, h ▸ nonempty⟩, And.left⟩
  · next other => exact iff_of_false nofun fun h => other s h.1

/-- A plain text matches its pattern and is no token. -/
theorem plainText_eq_valid {pattern : List Char → Bool} {s t : String} :
    plainText i pattern s = .valid t ↔ t = s ∧ pattern s.toList = true ∧ isCompactJwt i s = .ok false := by
  unfold plainText
  split
  · next mismatch => simp [mismatch]
  · next matched =>
    simp only [Outcome.andThen_eq_valid, collect_eq_valid]
    constructor
    · rintro ⟨jwt, hjwt, h⟩
      cases jwt
      · cases h
        exact ⟨rfl, by simpa using matched, hjwt⟩
      · cases h
    · rintro ⟨rfl, -, hjwt⟩
      exact ⟨false, hjwt, rfl⟩

/-- A text field under a pattern. -/
theorem textField_eq_valid {pattern : List Char → Bool} {v : Option Json} {s : String} :
    (nonEmpty v).andThen (plainText i pattern) = .valid s ↔
      v = some (.str s) ∧ s ≠ "" ∧ pattern s.toList = true ∧ isCompactJwt i s = .ok false := by
  simp only [Outcome.andThen_eq_valid, nonEmpty_eq_valid, plainText_eq_valid]
  constructor
  · rintro ⟨t, ⟨hv, ne⟩, rfl, h⟩
    exact ⟨hv, ne, h⟩
  · rintro ⟨hv, ne, h⟩
    exact ⟨s, ⟨hv, ne⟩, rfl, h⟩

/-- A parent is null, or a plain identifier. -/
theorem parentField_eq_valid {v : Option Json} {parent : Option String} :
    StoredTraceSpan.parentField i v = .valid parent ↔ v = some .null ∧ parent = none ∨
      ∃ s, v = some (.str s) ∧ parent = some s ∧ identifierPattern s.toList = true ∧
        isCompactJwt i s = .ok false := by
  unfold StoredTraceSpan.parentField
  split
  · constructor
    · rintro ⟨⟩
      exact .inl ⟨rfl, rfl⟩
    · rintro (⟨-, rfl⟩ | ⟨s, ⟨⟩, _⟩)
      rfl
  · next s =>
    simp only [safeIdentifier, Outcome.map_eq_valid, plainText_eq_valid]
    constructor
    · rintro ⟨t, ⟨rfl, h⟩, rfl⟩
      exact .inr ⟨t, rfl, rfl, h⟩
    · rintro (⟨h, -⟩ | ⟨t, ht, rfl, h⟩)
      · cases h
      · cases ht
        exact ⟨s, ⟨rfl, h⟩, rfl⟩
  · next root text =>
    refine iff_of_false (fun valid => by cases valid) ?_
    rintro (⟨rfl, -⟩ | ⟨s, rfl, -⟩)
    · exact root rfl
    · exact text s rfl

/-- What a validated span was read from. -/
structure StoredTraceSpan.ReadFrom (i : Interpreter) (d : JsonObject) (span : StoredTraceSpan) : Prop where
  spanId : (nonEmpty (JsonObject.get? d "spanId")).andThen (safeIdentifier i) = .valid span.spanId
  parentSpanId : parentField i (JsonObject.get? d "parentSpanId") = .valid span.parentSpanId
  serviceName : serviceField i d = .valid span.serviceName
  operationName : operationField i d = .valid span.operationName
  startOffsetMs : number (JsonObject.get? d "startOffsetMs") = .valid span.startOffsetMs
  durationMs : number (JsonObject.get? d "durationMs") = .valid span.durationMs
  status : literal statuses (JsonObject.get? d "status") = .valid span.status
  kind : literal kinds (JsonObject.get? d "kind") = .valid span.kind
  criticalPath : strictBool (JsonObject.get? d "criticalPath") = .valid span.criticalPath
  attributes : attributesField i d = .valid span.attributes
  noExtra : noExtra aliases d = .valid ()

/-- A span is accepted exactly if it is read from an object. -/
theorem StoredTraceSpan.validate_eq_valid {v : Json} {span : StoredTraceSpan} :
    StoredTraceSpan.validate i v = .valid span ↔ ∃ d, v = .obj d ∧ span.ReadFrom i d := by
  match v with
  | .obj d =>
    simp only [StoredTraceSpan.validate, Outcome.map_eq_valid, Outcome.both_eq_valid, Json.obj.injEq,
      exists_eq_left']
    constructor
    · rintro ⟨⟨a₁, a₂, a₃, a₄, a₅, a₆, a₇, a₈, a₉, a₁₀, ⟨⟩⟩,
        ⟨h₁, h₂, h₃, h₄, h₅, h₆, h₇, h₈, h₉, h₁₀, h₁₁⟩, rfl⟩
      exact ⟨h₁, h₂, h₃, h₄, h₅, h₆, h₇, h₈, h₉, h₁₀, h₁₁⟩
    · intro h
      exact ⟨(span.spanId, span.parentSpanId, span.serviceName, span.operationName, span.startOffsetMs,
        span.durationMs,
        span.status, span.kind, span.criticalPath, span.attributes, ()),
        ⟨h.1, h.2, h.3, h.4, h.5, h.6, h.7, h.8, h.9, h.10, h.11⟩, rfl⟩
  | .null | .bool _ | .int _ | .float _ | .str _ | .arr _ => simp [StoredTraceSpan.validate]

/-- What a validated waterfall was read from. -/
structure StoredTraceWaterfall.ReadFrom (rt : Runtime) (d : JsonObject) (w : StoredTraceWaterfall) :
    Prop where
  schemaVersion : schemaVersionField (JsonObject.get? d "schemaVersion") = .valid ()
  traceId : (nonEmpty (JsonObject.get? d "traceId")).andThen (safeIdentifier rt.toInterpreter) =
    .valid w.traceId
  rootServiceName : (nonEmpty (JsonObject.get? d "rootServiceName")).andThen
    (safeServiceName rt.toInterpreter) =
    .valid w.rootServiceName
  rootOperationName : (nonEmpty (JsonObject.get? d "rootOperationName")).andThen
    (safeOperationName rt.toInterpreter) =
    .valid w.rootOperationName
  startedAt : startedAtField rt (JsonObject.get? d "startedAt") = .valid w.startedAt
  durationMs : number (JsonObject.get? d "durationMs") = .valid w.durationMs
  spanCount : positiveInt (JsonObject.get? d "spanCount") = .valid w.spanCount
  representativeScore : number (JsonObject.get? d "representativeScore") = .valid w.representativeScore
  truncated : strictBool (JsonObject.get? d "truncated") = .valid w.truncated
  spans : spansField rt.toInterpreter (JsonObject.get? d "spans") = .valid w.spans
  noExtra : noExtra aliases d = .valid ()

/-- A trace is accepted exactly if it is read from its object. -/
theorem StoredTraceWaterfall.validate_eq_valid {rt : Runtime} {d : JsonObject} {w : StoredTraceWaterfall} :
    StoredTraceWaterfall.validate rt d = .valid w ↔ w.ReadFrom rt d := by
  simp only [StoredTraceWaterfall.validate, Outcome.map_eq_valid, Outcome.both_eq_valid]
  constructor
  · rintro ⟨⟨⟨⟩, a₂, a₃, a₄, a₅, a₆, a₇, a₈, a₉, a₁₀, ⟨⟩⟩,
      ⟨h₁, h₂, h₃, h₄, h₅, h₆, h₇, h₈, h₉, h₁₀, h₁₁⟩, rfl⟩
    exact ⟨h₁, h₂, h₃, h₄, h₅, h₆, h₇, h₈, h₉, h₁₀, h₁₁⟩
  · intro h
    exact ⟨((), w.traceId, w.rootServiceName, w.rootOperationName, w.startedAt, w.durationMs, w.spanCount,
      w.representativeScore, w.truncated, w.spans, ()),
      ⟨h.1, h.2, h.3, h.4, h.5, h.6, h.7, h.8, h.9, h.10, h.11⟩, rfl⟩

/-- One to a hundred spans are accepted, if each is. -/
theorem StoredTraceWaterfall.spansField_eq_valid {v : Option Json} {spans : List StoredTraceSpan} :
    spansField i v = .valid spans ↔ ∃ items, v = some (.arr items) ∧ (1 ≤ items.length ∧ items.length ≤ 100) ∧
      List.Forall₂ (fun item span => StoredTraceSpan.validate i item = .valid span) items spans := by
  unfold spansField
  split
  · next items => simp [Outcome.list_eq_valid]
  · next other => exact iff_of_false nofun fun ⟨items, h, _⟩ => other items h

end Accepted

end SreAgent.Trace
