import SreAgent.Base.JsonPart
import SreAgent.Base.Sha256
import SreAgent.Rca.Evidence
import SreAgent.Trace.Selection

/-!
# Collecting evidence over MCP

`McpSpecialist` calls every tool of its request in turn. What comes back is bytes: too many of them,
or bytes that are not the JSON text of an object or an array, end the collection, and so does an
answer the specialist cannot normalise. Only the trace specialist normalises; the others keep the
document they read. The validity of a schema and of its instances is a parameter.
-/

namespace SreAgent.Rca
open Base JsonParse Trace

/-! ## Arguments -/

/-- A value that `$ref` and `$dynamicRef` may have: a reference into the document. -/
def localReference : Json → Bool
  | .str reference => reference.toList.head? = some '#'
  | _ => false

mutual

/-- `_contains_remote_schema_reference`. -/
def containsRemoteSchemaReference : Json → Bool
  | .obj fields => containsRemoteFields fields
  | .arr items => containsRemoteItems items
  | _ => false

def containsRemoteItems : List Json → Bool
  | [] => false
  | v :: rest => containsRemoteSchemaReference v || containsRemoteItems rest

def containsRemoteFields : List (String × Json) → Bool
  | [] => false
  | (key, v) :: rest =>
    (key = "$ref" || key = "$dynamicRef") && !localReference v || containsRemoteSchemaReference v ||
      containsRemoteFields rest

end

/-- What is used of `jsonschema`; a schema that cannot be checked accepts nothing. -/
structure SchemaValidator where
  isValid : Json → Json → Bool
  validate : Json → Json → Bool

/-- The fields of a schema, which is always a dictionary. -/
def schemaFields : Json → JsonObject
  | .obj fields => fields
  | _ => []

/-- `tool.input_schema.get("properties", {})`, if it is a dictionary. -/
def schemaProperties (schema : Json) : Option (List String) :=
  match (JsonObject.get? (schemaFields schema) "properties").getD (.obj []) with
  | .obj properties => some (JsonObject.keys properties)
  | _ => none

/-- `tool.input_schema.get("required", [])`, if it is a list. -/
def schemaRequired (schema : Json) : Option (List Json) :=
  match (JsonObject.get? (schemaFields schema) "required").getD (.arr []) with
  | .arr required => some required
  | _ => none

/-- `_SPECIALIST_QUERY_POLICY`. -/
def SpecialistKind.queryPolicy : SpecialistKind → String
  | .METRICS => "metrics.anomaly"
  | .TRACE => "trace.critical_path"
  | .LOG => "log.exception_pattern"

/-- The arguments a tool may ask for. -/
def argumentCandidates (kind : SpecialistKind) (request : SpecialistRequest) (properties : List String) :
    List (String × String) :=
  let scopeId := (request.scope.map CloudScope.scopeId).getD ""
  let start := isoformat request.windowStart
  let stop := isoformat request.windowEnd
  [("project_id", scopeId), ("projectId", scopeId), ("scope_id", scopeId), ("scopeId", scopeId),
    ("start_time", start), ("startTime", start), ("end_time", stop), ("endTime", stop)] ++
    if "query" ∈ properties then [("query", kind.queryPolicy)] else []

/-- A required name that is offered; one that is no text is not. -/
def offered (candidates : List (String × String)) : Json → Bool
  | .str name => name ∈ JsonObject.keys candidates
  | _ => false

/-- `_arguments`. -/
def toolArguments (validator : SchemaValidator) (kind : SpecialistKind) (tool : AllowedTool)
    (request : SpecialistRequest) :
    Option JsonObject :=
  if containsRemoteSchemaReference tool.inputSchema then none
  else
    match schemaProperties tool.inputSchema, schemaRequired tool.inputSchema with
    | some properties, some required =>
      let candidates := argumentCandidates kind request properties
      if required.all (offered candidates) then
        let arguments :=
          properties.filterMap fun name => (JsonObject.get? candidates name).map fun value =>
            (name, Json.str value)
        if validator.isValid tool.inputSchema (.obj arguments) then some arguments else none
      else none
    | _, _ => none

/-! ## One answer -/

/-- Why a collection ends: the two errors of the boundary, or any other exception. -/
inductive CollectError where
  | payloadTooLarge
  | resultInvalid
  | other
  deriving DecidableEq

instance {σ : Type} : DecidablePred (@Structured σ) := fun v => by
  cases v
  case obj | arr => exact isTrue trivial
  all_goals exact isFalse id

/-- A specialist: its endpoint, and the most bytes it takes. -/
structure McpSpecialist where
  kind : SpecialistKind
  maxResponseBytes : Nat
  maxResponseBytes_range : 0 < maxResponseBytes ∧ maxResponseBytes ≤ 2 * 1024 * 1024

/-- `json.loads(raw.decode("utf-8"))` of an object or an array. -/
def readStructured (i : Interpreter) (raw : List UInt8) : Except CollectError PyJson :=
  match Utf.decodeUtf8 false raw with
  | none => .error .resultInvalid
  | some text =>
    match parse i text with
    | .error .decode => .error .resultInvalid
    | .error _ => .error .other
    | .ok structured => if Structured structured then .ok structured else .error .resultInvalid

/-- `_normalize_structured`. The validation of traces refuses a string that is no text, as it does an
object in its place. -/
def normalizeStructured (rt : Runtime) (kind : SpecialistKind) (alertIssue : String) (structured : PyJson) :
    Except PyError (Option PyJson) :=
  match kind with
  | .TRACE =>
    (normalizeTraceEvidence rt structured.legible alertIssue maxResponseSpans).map fun normalized =>
      normalized.map fun fields => (Json.obj fields).coded
  | _ => .ok (some structured)

/-- `normalizeStructured`, whose exceptions and `None` are invalid results. -/
def normalizedResult (rt : Runtime) (kind : SpecialistKind) (alertIssue : String) (structured : PyJson) :
    Except CollectError PyJson :=
  match normalizeStructured rt kind alertIssue structured with
  | .ok (some normalized) => .ok normalized
  | _ => .error .resultInvalid

/-- The tool and its capability belong to the endpoint. -/
def AllowedTool.Within (kind : SpecialistKind) (tool : AllowedTool) : Prop :=
  (kind.value ++ ".").toList <+: tool.capability.toList ∧ kind.value.toList <+: tool.name.toList

instance (kind : SpecialistKind) (tool : AllowedTool) : Decidable (tool.Within kind) :=
  inferInstanceAs (Decidable (_ ∧ _))

theorem applicationJson_length : 1 ≤ "application/json".length ∧ "application/json".length ≤ 255 := by decide

/-- `EvidenceDraft(...)`, or a validation error. -/
def EvidenceDraft.validate (floatText : FloatVal → String) (kind : SpecialistKind)
    (request : SpecialistRequest) (scope : CloudScope) (tool : AllowedTool) (arguments : JsonObject)
    (raw : List UInt8) (structured : PyJson) : Except CollectError EvidenceDraft :=
  if h : Structured structured ∧ (scope.safe = true ∧ scope.provider = .GCP) ∧ tool.Within kind then
    .ok { endpointIdentity := kind
          capability := tool.capability
          tool := tool.name
          inputScope := scope
          normalizedScope := scope
          observedAt := request.windowEnd
          requestWindowStart := request.windowStart
          requestWindowEnd := request.windowEnd
          windowStart := request.windowStart
          windowEnd := request.windowEnd
          structuredJson := structured
          rawResult := raw
          contentType := "application/json"
          inputSha256 :=
            Sha256.hexdigest (Text.utf8 (JsonText.dumps ⟨true, true, floatText⟩ (.obj arguments)))
          structured := h.1
          contentType_length := applicationJson_length
          inputSha256_hex := Sha256.hexdigest_digits _
          scope_safe := h.2.1
          scope_same := rfl
          capability_of := h.2.2.1
          tool_of := h.2.2.2
          window := ⟨Int.le_refl _, request.window_le, Int.le_refl _⟩ }
  else .error .other

section Validate

variable {floatText : FloatVal → String} {kind : SpecialistKind} {request : SpecialistRequest}
  {scope : CloudScope} {tool : AllowedTool}
  {arguments : JsonObject} {raw : List UInt8} {structured : PyJson} {draft : EvidenceDraft}

theorem EvidenceDraft.validate_valid (h : Structured structured ∧
      (scope.safe = true ∧ scope.provider = .GCP) ∧ tool.Within kind) :
    ∃ draft, EvidenceDraft.validate floatText kind request scope tool arguments raw structured = .ok draft ∧
      draft.structuredJson = structured := ⟨_, dif_pos h, rfl⟩

/-- An accepted draft passes its checks, and keeps the document and the raw result. -/
theorem EvidenceDraft.of_validate
    (h : EvidenceDraft.validate floatText kind request scope tool arguments raw structured = .ok draft) :
    (Structured structured ∧ (scope.safe = true ∧ scope.provider = .GCP) ∧ tool.Within kind) ∧
      draft.structuredJson = structured ∧ draft.rawResult = raw := by
  unfold EvidenceDraft.validate at h
  split at h
  · next valid =>
    cases h
    exact ⟨valid, rfl, rfl⟩
  · cases h

end Validate

section Collect

variable (rt : Runtime) (floatText : FloatVal → String) (specialist : McpSpecialist)
  (request : SpecialistRequest) (scope : CloudScope)

/-- The evidence made of the bytes a tool answered. -/
def evidenceOfBytes (tool : AllowedTool) (arguments : JsonObject) (raw : List UInt8) :
    Except CollectError EvidenceDraft := do
  if specialist.maxResponseBytes < raw.length then .error .payloadTooLarge
  else
    let structured ← readStructured rt.toInterpreter raw
    let normalized ← normalizedResult rt specialist.kind request.alertIssue structured
    EvidenceDraft.validate floatText specialist.kind request scope tool arguments raw normalized

section Evidence

variable {rt floatText specialist request scope} {tool : AllowedTool} {arguments : JsonObject}
  {raw : List UInt8} {draft : EvidenceDraft}
  {structured normalized : PyJson}

/-- A result is normalized exactly if its document is. -/
theorem normalizedResult_eq_ok {kind : SpecialistKind} {alertIssue : String} :
    normalizedResult rt kind alertIssue structured = .ok normalized ↔
      normalizeStructured rt kind alertIssue structured = .ok (some normalized) := by
  unfold normalizedResult
  split
  · next found =>
    rw [found]
    simp
  · next other =>
    refine ⟨nofun, fun found => ?_⟩
    exact absurd found (other normalized)

/-- The evidence of bytes that are read and normalised. -/
theorem evidenceOfBytes_of_read (small : raw.length ≤ specialist.maxResponseBytes)
    (read : readStructured rt.toInterpreter raw = .ok structured)
    (hnormalized : normalizeStructured rt specialist.kind request.alertIssue structured =
      .ok (some normalized)) :
    evidenceOfBytes rt floatText specialist request scope tool arguments raw =
      EvidenceDraft.validate floatText specialist.kind request scope tool arguments raw normalized := by
  rw [evidenceOfBytes, if_neg (Nat.not_lt.2 small), read]
  change (normalizedResult rt specialist.kind request.alertIssue structured >>= _) = _
  rw [normalizedResult_eq_ok.2 hnormalized]
  rfl

/-- Bytes that evidence is made of are few enough, and are read and normalised. -/
theorem of_evidenceOfBytes (h : evidenceOfBytes rt floatText specialist request scope tool arguments raw =
      .ok draft) :
    raw.length ≤ specialist.maxResponseBytes ∧ ∃ structured normalized,
      readStructured rt.toInterpreter raw = .ok structured ∧
      normalizeStructured rt specialist.kind request.alertIssue structured = .ok (some normalized) ∧
      EvidenceDraft.validate floatText specialist.kind request scope tool arguments raw normalized =
        .ok draft := by
  unfold evidenceOfBytes at h
  split at h
  · cases h
  · next small =>
    cases read : readStructured rt.toInterpreter raw with
    | error e => rw [read] at h; cases h
    | ok structured =>
      rw [read] at h
      replace h : (normalizedResult rt specialist.kind request.alertIssue structured >>= fun normalized =>
        EvidenceDraft.validate floatText specialist.kind request scope tool arguments raw normalized) =
          .ok draft := h
      cases hnormalized : normalizedResult rt specialist.kind request.alertIssue structured with
      | error e => rw [hnormalized] at h; cases h
      | ok normalized =>
        rw [hnormalized] at h
        exact ⟨Nat.le_of_not_lt small, structured, normalized, rfl, normalizedResult_eq_ok.1 hnormalized, h⟩

end Evidence

/-! ## The tools of a request -/

/-- What becomes of a tool: evidence, or the code of what is missing. -/
def collectTool (validator : SchemaValidator)
    (call : String → JsonObject → Except CollectError (List UInt8)) (tool : AllowedTool) :
    Except CollectError (EvidenceDraft ⊕ String) :=
  if tool.endpointIdentity ≠ specialist.kind then .ok (.inr "ENDPOINT_CAPABILITY_MISMATCH")
  else
    match toolArguments validator specialist.kind tool request with
    | none => .ok (.inr "UNSUPPORTED_TOOL_INPUT")
    | some arguments => do
      if validator.validate tool.inputSchema (.obj arguments) = false then .error .other
      else
        let raw ← call tool.name arguments
        return .inl (← evidenceOfBytes rt floatText specialist request scope tool arguments raw)

/-- The loop over the tools. -/
def collectTools (validator : SchemaValidator)
    (call : String → JsonObject → Except CollectError (List UInt8)) :
    List AllowedTool → Except CollectError (List EvidenceDraft × List String)
  | [] => .ok ([], [])
  | tool :: tools => do
    let outcome ← collectTool rt floatText specialist request scope validator call tool
    let (drafts, missing) ← collectTools validator call tools
    match outcome with
    | .inl draft => return (draft :: drafts, missing)
    | .inr code => return (drafts, code :: missing)

section Collected

variable {rt floatText specialist request scope} {validator : SchemaValidator}
  {call : String → JsonObject → Except CollectError (List UInt8)}
  {tool : AllowedTool} {tools : List AllowedTool} {draft : EvidenceDraft} {drafts : List EvidenceDraft}
  {missing : List String}

/-- A draft of one tool is made of the bytes of its call. -/
theorem of_collectTool (h : collectTool rt floatText specialist request scope validator call tool =
      .ok (.inl draft)) :
    ∃ arguments raw, toolArguments validator specialist.kind tool request = some arguments ∧
      call tool.name arguments = .ok raw ∧
      evidenceOfBytes rt floatText specialist request scope tool arguments raw = .ok draft := by
  unfold collectTool at h
  split at h
  · cases h
  · split at h
    · cases h
    · next arguments harguments =>
      split at h
      · cases h
      · cases hcall : call tool.name arguments with
        | error e => rw [hcall] at h; cases h
        | ok raw =>
          rw [hcall] at h
          replace h : (evidenceOfBytes rt floatText specialist request scope tool arguments raw >>= fun draft =>
              (pure (.inl draft) : Except CollectError (EvidenceDraft ⊕ String))) = .ok (.inl draft) := h
          cases hevidence : evidenceOfBytes rt floatText specialist request scope tool arguments raw with
          | error e => rw [hevidence] at h; cases h
          | ok made =>
            rw [hevidence] at h
            cases h
            exact ⟨arguments, raw, harguments, hcall, hevidence⟩

/-- Every draft of a collection is made of the bytes of the call of one tool. -/
theorem of_collectTools (h : collectTools rt floatText specialist request scope validator call tools =
      .ok (drafts, missing)) (hdraft : draft ∈ drafts) :
    ∃ tool ∈ tools, ∃ arguments raw, toolArguments validator specialist.kind tool request = some arguments ∧
      call tool.name arguments = .ok raw ∧
        evidenceOfBytes rt floatText specialist request scope tool arguments raw = .ok draft := by
  induction tools generalizing drafts missing with
  | nil =>
    cases h
    cases hdraft
  | cons tool tools ih =>
    rw [collectTools] at h
    cases houtcome : collectTool rt floatText specialist request scope validator call tool with
    | error e => rw [houtcome] at h; cases h
    | ok outcome =>
      cases hrest : collectTools rt floatText specialist request scope validator call tools with
      | error e => rw [houtcome, hrest] at h; cases h
      | ok rest =>
        obtain ⟨later, codes⟩ := rest
        rw [houtcome, hrest] at h
        have below : draft ∈ later → ∃ t ∈ tool :: tools, ∃ arguments raw,
            toolArguments validator specialist.kind t request = some arguments ∧
              call t.name arguments = .ok raw ∧
              evidenceOfBytes rt floatText specialist request scope t arguments raw = .ok draft := by
          intro hlater
          obtain ⟨t, ht, found⟩ := ih hrest hlater
          exact ⟨t, List.mem_cons_of_mem tool ht, found⟩
        cases outcome with
        | inr code =>
          cases h
          exact below hdraft
        | inl first =>
          cases h
          rcases List.mem_cons.1 hdraft with rfl | hlater
          · exact ⟨tool, List.mem_cons_self, of_collectTool houtcome⟩
          · exact below hlater

end Collected

end Collect

/-- A scope that evidence may come from. -/
def usableScope (request : SpecialistRequest) : Option CloudScope :=
  request.scope.filter fun scope => scope.provider = .GCP ∧ scope.safe = true

/-- `_collect_evidence`. -/
def collectEvidence (rt : Runtime) (floatText : FloatVal → String) (specialist : McpSpecialist)
    (request : SpecialistRequest) (validator : SchemaValidator)
    (call : String → JsonObject → Except CollectError (List UInt8)) :
    Except CollectError (List EvidenceDraft × List String) :=
  match request.availableTools, usableScope request with
  | [], _ => .ok ([], ["NO_SAFE_MCP_CAPABILITY"])
  | _, none => .ok ([], ["NO_SAFE_MCP_CAPABILITY"])
  | tools, some scope => collectTools rt floatText specialist request scope validator call tools

/-- Every draft of a collection is made of the bytes of the call of one tool, in the scope of the request. -/
theorem of_collectEvidence {rt : Runtime} {floatText : FloatVal → String} {specialist : McpSpecialist}
    {request : SpecialistRequest} {validator : SchemaValidator}
    {call : String → JsonObject → Except CollectError (List UInt8)} {drafts : List EvidenceDraft}
    {missing : List String} {draft : EvidenceDraft}
    (h : collectEvidence rt floatText specialist request validator call = .ok (drafts, missing))
    (hdraft : draft ∈ drafts) :
    ∃ scope ∈ request.scope, ∃ tool ∈ request.availableTools, ∃ arguments raw,
      toolArguments validator specialist.kind tool request = some arguments ∧
        call tool.name arguments = .ok raw ∧
      evidenceOfBytes rt floatText specialist request scope tool arguments raw = .ok draft := by
  unfold collectEvidence at h
  split at h
  · cases h
    cases hdraft
  · cases h
    cases hdraft
  · next scope found _ =>
    obtain ⟨tool, htool, made⟩ := of_collectTools h hdraft
    exact ⟨scope, (Option.mem_filter_iff.1 found).1, tool, htool, made⟩

end SreAgent.Rca
