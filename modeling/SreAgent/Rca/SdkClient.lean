import SreAgent.Rca.Specialist
import SreAgent.Trace.Agreement

/-!
# What the SDK client hands over

`SdkMcpClient.call` serialises the whole envelope of a tool's answer. A specialist reads that envelope
back, so the metrics and the log specialist store it, errors included, and the trace specialist looks
for traces among the keys of the envelope, where there are none, and stores nothing.
-/

namespace SreAgent.Rca
open Base JsonParse JsonText Trace

/-! ## The SDK -/

/-- A block of content: a text, or something else. -/
inductive ContentBlock where
  | text (s : String)
  | other

/-- What is used of the MCP SDK: the parts of an answer, and its dump in JSON mode. -/
structure Sdk where
  Result : Type
  content : Result → List ContentBlock
  structuredContent : Result → Option JsonObject
  isError : Result → Bool
  modelDump : Result → JsonObject

/-- What the SDK documents of a dump: a dictionary of the fields of the answer, none of which is one the
trace normalizer looks for, with the structured content as one field and every text in it. -/
structure Sdk.Documented (sdk : Sdk) : Prop where
  distinct : ∀ r, (Json.obj (sdk.modelDump r)).Distinct
  fields : ∀ r, ∀ key ∈ ["traces", "data", "spans"], key ∉ JsonObject.keys (sdk.modelDump r)
  structured : ∀ r payload, sdk.structuredContent r = some payload →
    ∃ key, (key, Json.obj payload) ∈ sdk.modelDump r
  texts : ∀ r s, ContentBlock.text s ∈ sdk.content r → (Json.obj (sdk.modelDump r)).Part (.str s)

/-- A text block that holds an object or an array. -/
def ContentBlock.payload (i : Interpreter) : ContentBlock → Option PyJson
  | .text s =>
    match parse i s.toList with
    | .ok v => if Structured v then some v else none
    | .error _ => none
  | .other => none

/-- The payload of an answer: its structured content, or else the first text that holds one. -/
def Sdk.decodedPayload (sdk : Sdk) (i : Interpreter) (r : sdk.Result) : Option PyJson :=
  match sdk.structuredContent r with
  | some payload => some (Json.obj payload).coded
  | none => (sdk.content r).findSome? (ContentBlock.payload i)

section Call

variable (sdk : Sdk) (rt : Runtime) (floatText : FloatVal → String)

/-- The bytes of an answer. -/
def dumpedResult (r : sdk.Result) : List UInt8 :=
  Text.utf8 (dumps ⟨false, false, floatText⟩ (.obj (sdk.modelDump r)))

/-- What `SdkMcpClient.call` makes of the answer of its session. -/
def serializedResult (r : sdk.Result) : Except CollectError (List UInt8) :=
  if writes rt.toInterpreter rt.maxDepth (.obj (sdk.modelDump r)) then .ok (dumpedResult sdk floatText r)
    else .error .other

/-- `SdkMcpClient.call`. -/
def sdkCall (callTool : String → JsonObject → Except CollectError sdk.Result) (toolName : String)
    (arguments : JsonObject) :
    Except CollectError (List UInt8) := do
  serializedResult sdk rt floatText (← callTool toolName arguments)

variable (specialist : McpSpecialist) (request : SpecialistRequest) (scope : CloudScope)
  (tool : AllowedTool) (arguments : JsonObject)

/-- The evidence made of an answer. -/
def evidenceOfResult (r : sdk.Result) : Except CollectError EvidenceDraft := do
  evidenceOfBytes rt floatText specialist request scope tool arguments (← serializedResult sdk rt floatText r)

/-- No evidence comes of an error, and evidence of anything else is its payload, normalised. -/
structure PayloadsReach (r : sdk.Result) : Prop where
  error : sdk.isError r = true →
    ∀ draft, evidenceOfResult sdk rt floatText specialist request scope tool arguments r ≠ .ok draft
  payload : sdk.isError r = false →
    ∀ draft, evidenceOfResult sdk rt floatText specialist request scope tool arguments r = .ok draft →
    ∃ payload, sdk.decodedPayload rt.toInterpreter r = some payload ∧
      normalizeStructured rt specialist.kind request.alertIssue payload = .ok (some draft.structuredJson)
  trace : sdk.isError r = false → specialist.kind = .TRACE →
    ∀ payload d, sdk.decodedPayload rt.toInterpreter r = some payload →
    normalizeTraceEvidence rt payload.legible request.alertIssue maxResponseSpans = .ok (some d) →
    ∃ draft, evidenceOfResult sdk rt floatText specialist request scope tool arguments r = .ok draft ∧
      draft.structuredJson = (Json.obj d).coded

/-- The envelope is serialised, within the size limit, for a tool and a scope that evidence may come from. -/
def EnvelopeFits (r : sdk.Result) : Prop :=
  writes rt.toInterpreter rt.maxDepth (.obj (sdk.modelDump r)) = true ∧
    (dumpedResult sdk floatText r).length ≤ specialist.maxResponseBytes ∧
    (scope.safe = true ∧ scope.provider = .GCP) ∧ tool.Within specialist.kind

/-- When the payload would not be missed: a trace tool failed or answered no trace, or the envelope is
not stored. -/
def NothingLost (r : sdk.Result) : Prop :=
  match specialist.kind with
  | .TRACE => sdk.isError r = true ∨ ∀ payload d, sdk.decodedPayload rt.toInterpreter r = some payload →
      normalizeTraceEvidence rt payload.legible request.alertIssue maxResponseSpans ≠ .ok (some d)
  | _ => ¬ EnvelopeFits sdk rt floatText specialist scope tool r

end Call

/-! ## The envelope -/

section Envelope

variable {sdk : Sdk} {rt : Runtime} {floatText : FloatVal → String} {specialist : McpSpecialist}
  {request : SpecialistRequest}
  {scope : CloudScope} {tool : AllowedTool} {arguments : JsonObject} {r : sdk.Result} {draft : EvidenceDraft}

/-- The envelope is never the payload it carries. -/
theorem payload_ne_envelope (documented : sdk.Documented) {payload : PyJson}
    (h : sdk.decodedPayload rt.toInterpreter r = some payload) :
    payload ≠ (Json.obj (sdk.modelDump r)).coded := by
  unfold Sdk.decodedPayload at h
  cases hs : sdk.structuredContent r with
  | some fields =>
    rw [hs] at h
    cases h
    obtain ⟨key, hkey⟩ := documented.structured r fields hs
    exact fun same => Json.ne_of_field hkey (Json.coded_injective same)
  | none =>
    rw [hs] at h
    obtain ⟨block, hblock, hpayload⟩ := List.exists_of_findSome?_eq_some h
    cases block with
    | other => cases hpayload
    | text s =>
      rintro rfl
      rw [ContentBlock.payload] at hpayload
      cases hparse : parse rt.toInterpreter s.toList with
      | error e => rw [hparse] at hpayload; cases hpayload
      | ok v =>
        rw [hparse] at hpayload
        obtain ⟨-, same⟩ := Option.ite_none_right_eq_some.1 hpayload
        cases same
        exact not_part_of_parse hparse ((documented.texts r s hblock).map PyStr.ofString)

/-- An envelope has no candidates. -/
theorem candidateObjects_envelope (documented : sdk.Documented) :
    candidateObjects (.obj (sdk.modelDump r)) = [] := by
  have missing : ∀ key ∈ ["traces", "data", "spans"], JsonObject.get? (sdk.modelDump r) key = none :=
    fun key hkey =>
    JsonObject.get?_eq_none.2 (documented.fields r key hkey)
  have spans := documented.fields r "spans" (by decide)
  rw [candidateObjects, missing "traces" (by decide), missing "data" (by decide)]
  simp only [spans, if_false]

/-- The trace specialist makes nothing of an envelope. -/
theorem normalize_envelope (documented : sdk.Documented) (alertIssue : String) :
    normalizeStructured rt .TRACE alertIssue (Json.obj (sdk.modelDump r)).coded = .ok none := by
  rw [normalizeStructured, Json.legible_coded, normalizeTraceEvidence, if_neg (by decide),
    candidateObjects_envelope documented]
  rfl

section Reads

variable (documented : sdk.Documented)
  (reads : ∀ x ∈ (Json.obj (sdk.modelDump r)).floats, FloatReads ⟨false, false, floatText⟩ rt.toInterpreter x)

include documented reads

/-- The bytes of an envelope are read back as the envelope. -/
theorem readStructured_dumped (h : writes rt.toInterpreter rt.maxDepth (.obj (sdk.modelDump r)) = true) :
    readStructured rt.toInterpreter (dumpedResult sdk floatText r) =
      .ok (Json.obj (sdk.modelDump r)).coded := by
  have writable := writable_of_writes (o := ⟨false, false, floatText⟩) rfl h (documented.distinct r) reads
  have read := parse_written _ _ writable
  rw [readStructured, dumpedResult, Utf.decodeUtf8_utf8, dumps, String.toList_ofList]
  dsimp only
  rw [read]
  rfl

/-- What evidence an answer gives is made of its envelope. -/
theorem evidence_of_envelope (h : evidenceOfResult sdk rt floatText specialist request scope tool arguments
      r = .ok draft) :
    EnvelopeFits sdk rt floatText specialist scope tool r ∧
      normalizeStructured rt specialist.kind request.alertIssue (Json.obj (sdk.modelDump r)).coded =
        .ok (some draft.structuredJson) := by
  unfold evidenceOfResult serializedResult at h
  split at h
  · next written =>
    obtain ⟨small, structured, normalized, read, hnormalized, made⟩ := of_evidenceOfBytes h
    rw [readStructured_dumped documented reads written] at read
    cases read
    obtain ⟨valid, same, -⟩ := EvidenceDraft.of_validate made
    rw [same]
    exact ⟨⟨written, small, valid.2⟩, hnormalized⟩
  · cases h

/-- The trace specialist has no evidence from any answer. -/
theorem trace_evidence_ne (trace : specialist.kind = .TRACE) :
    evidenceOfResult sdk rt floatText specialist request scope tool arguments r ≠ .ok draft := by
  intro h
  have normalized := (evidence_of_envelope documented reads h).2
  rw [trace, normalize_envelope documented] at normalized
  cases normalized

/-- The other specialists store the envelope, whatever it carries. -/
theorem envelope_stored (other : specialist.kind ≠ .TRACE)
    (fits : EnvelopeFits sdk rt floatText specialist scope tool r) :
    ∃ draft, evidenceOfResult sdk rt floatText specialist request scope tool arguments r = .ok draft ∧
      draft.structuredJson = (Json.obj (sdk.modelDump r)).coded := by
  obtain ⟨written, small, valid⟩ := fits
  have normalized : normalizeStructured rt specialist.kind request.alertIssue
    (Json.obj (sdk.modelDump r)).coded =
      .ok (some (Json.obj (sdk.modelDump r)).coded) := by
    unfold normalizeStructured
    cases hkind : specialist.kind with
    | TRACE => exact absurd hkind other
    | METRICS => rfl
    | LOG => rfl
  have complete : Structured (Json.obj (sdk.modelDump r)).coded ∧
      (scope.safe = true ∧ scope.provider = .GCP) ∧ tool.Within specialist.kind :=
    ⟨trivial, valid⟩
  obtain ⟨draft, made, same⟩ := EvidenceDraft.validate_valid complete
  refine ⟨draft, ?_, same⟩
  rw [evidenceOfResult, serializedResult, if_pos written]
  exact (evidenceOfBytes_of_read small (readStructured_dumped documented reads written) normalized).trans made

end Reads

end Envelope

/-! ## An SDK -/

/-- An answer as the protocol has it. -/
structure CallToolResult where
  resultType : Option String
  content : List ContentBlock
  structuredContent : Option JsonObject
  isError : Bool
  distinct : ∀ fields ∈ structuredContent, (Json.obj fields).Distinct

/-- The dump of a block. -/
def ContentBlock.dump : ContentBlock → Json
  | .text s => .obj [("type", .str "text"), ("text", .str s), ("annotations", .null), ("meta", .null)]
  | .other => .obj [("type", .str "image"), ("annotations", .null), ("meta", .null)]

/-- The dump of an answer. -/
def CallToolResult.dump (r : CallToolResult) : JsonObject :=
  [("meta", .null), ("result_type", (r.resultType.map Json.str).getD .null),
    ("content", .arr (r.content.map ContentBlock.dump)),
    ("structured_content", (r.structuredContent.map Json.obj).getD .null), ("is_error", .bool r.isError)]

/-- The dump of a tool result has distinct keys. -/
theorem CallToolResult.dump_distinct (r : CallToolResult) : (Json.obj r.dump).Distinct := by
  have blocks : ∀ blocks : List ContentBlock, Json.DistinctItems (blocks.map ContentBlock.dump) := by
    intro blocks
    induction blocks with
    | nil => trivial
    | cons block blocks ih =>
      refine ⟨?_, ih⟩
      cases block with
      | text s => simp [ContentBlock.dump, Json.Distinct, Json.DistinctFields, JsonObject.keys]
      | other => simp [ContentBlock.dump, Json.Distinct, Json.DistinctFields, JsonObject.keys]
  have structured : ((r.structuredContent.map Json.obj).getD .null).Distinct := by
    cases hfields : r.structuredContent with
    | none => trivial
    | some fields => exact r.distinct fields hfields
  have kind : ((r.resultType.map Json.str).getD .null).Distinct := by
    cases r.resultType <;> trivial
  rw [CallToolResult.dump, Json.Distinct]
  refine ⟨by simp [JsonObject.keys], trivial, kind, ?_, structured, trivial, trivial⟩
  rw [Json.Distinct]
  exact blocks r.content

/-- The dump holds the structured content. -/
theorem CallToolResult.structured_mem {r : CallToolResult} {payload : JsonObject}
    (h : r.structuredContent = some payload) :
    ("structured_content", Json.obj payload) ∈ r.dump := by
  simp [CallToolResult.dump, h]

theorem CallToolResult.text_part {r : CallToolResult} {s : String} (h : ContentBlock.text s ∈ r.content) :
    (Json.obj r.dump).Part (.str s) := by
  have block : (ContentBlock.text s).dump.Part (.str s) :=
    .field (List.mem_cons_of_mem _ List.mem_cons_self) .refl
  have content : (Json.arr (r.content.map ContentBlock.dump)).Part (.str s) :=
    .item (List.mem_map_of_mem h) block
  exact .field (List.mem_cons_of_mem _ (List.mem_cons_of_mem _ List.mem_cons_self)) content

def protocolSdk : Sdk :=
  ⟨CallToolResult, CallToolResult.content, CallToolResult.structuredContent, CallToolResult.isError,
    CallToolResult.dump⟩

/-- The models of the protocol behave as documented. -/
theorem protocolSdk_documented : protocolSdk.Documented where
  distinct := CallToolResult.dump_distinct
  fields _ := by
    change ∀ key ∈ ["traces", "data", "spans"],
      key ∉ ["meta", "result_type", "content", "structured_content", "is_error"]
    decide
  structured _ _ h := ⟨"structured_content", CallToolResult.structured_mem h⟩
  texts _ _ h := CallToolResult.text_part h

/-! ## Payloads that do not reach evidence -/

def gcpScope : CloudScope := ⟨.GCP, "shop", true, shop_ne⟩

/-- A tool of an endpoint. -/
def toolOf (kind : SpecialistKind) : AllowedTool :=
  ⟨kind.value ++ "_query", kind.value ++ ".read", kind, .obj []⟩

/-- A specialist with the default limit. -/
def specialistOf (kind : SpecialistKind) : McpSpecialist := ⟨kind, 2 * 1024 * 1024, by decide⟩

theorem firstId : 1 < 2 ^ 128 := by decide

theorem secondId : 2 < 2 ^ 128 := by decide

theorem latencyIssue : "latency" ≠ "" := by decide

theorem shortWindow : (0 : Timestamp) ≤ 1 := by decide

def latencyRequest (kind : SpecialistKind) : SpecialistRequest :=
  ⟨⟨1, firstId⟩, ⟨2, secondId⟩, "latency", some gcpScope, 0, 1, [toolOf kind], latencyIssue, shortWindow⟩

/-- A tool that failed. -/
def failedResult : CallToolResult := ⟨some "complete", [.text "quota exceeded"], none, true, nofun⟩

/-- The fields of an object. -/
def fieldsOf : Json → JsonObject
  | .obj fields => fields
  | _ => []

/-- A tool that answered one trace. -/
def traceResult : CallToolResult where
  resultType := some "complete"
  content := []
  structuredContent := some (fieldsOf (Trace.answer "1"))
  isError := false
  distinct := by
    rintro fields ⟨⟩
    simp [Trace.answer, fieldsOf, Json.Distinct, Json.DistinctFields, Json.DistinctItems, JsonObject.keys]

theorem reads_of_no_floats {o : Options} {i : Interpreter} {v : Json} (h : v.floats = []) :
    ∀ x ∈ v.floats, FloatReads o i x := by
  rw [h]
  intro x hx
  cases hx

theorem traceResult_no_floats : (Json.obj (protocolSdk.modelDump traceResult)).floats = [] := by
  decide +kernel

theorem failedResult_no_floats : (Json.obj (protocolSdk.modelDump failedResult)).floats = [] := by
  decide +kernel

end SreAgent.Rca
