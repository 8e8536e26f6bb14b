import SreAgent.Base.Sha256
import SreAgent.Base.Slots
import SreAgent.Rca.Analysis
import SreAgent.Rca.Context

/-!
# Capabilities and routes

`CapabilityResolver` picks, for every capability a specialist requires, the one read-only tool that the
manifest names; `discover_capabilities` does so for each endpoint whose manifest is complete, and keeps
a code for each endpoint that could not be listed. What is used of `re` and `jsonschema`, and the text
of a float, are parameters.
-/

namespace SreAgent.Rca
open Base Slots

/-! ## Exceptions -/

/-- What an `except` clause sees of an exception: the classes it is an instance of, and its `code`,
where that is a text. -/
structure Raised where
  timeoutError : Bool
  connectionError : Bool
  osError : Bool
  valueError : Bool
  mcpPayloadTooLarge : Bool
  mcpResultInvalid : Bool
  analysisValidation : Bool
  code : Option String
  timeout_os : timeoutError = true → osError = true
  connection_os : connectionError = true → osError = true
  payload_value : mcpPayloadTooLarge = true → valueError = true
  result_value : mcpResultInvalid = true → valueError = true
  validation_value : analysisValidation = true → valueError = true

/-- `(ConnectionError, OSError)`. -/
def Raised.transport (e : Raised) : Bool := e.connectionError || e.osError

/-! ## The manifest -/

/-- What is used of `re`, of `jsonschema` and of the encoder of floats. -/
structure Libraries where
  compiles : String → Bool
  fullmatch : String → String → Bool
  checkSchema : Json → Bool
  floatText : FloatVal → String

/-- `schema_hash`. -/
def schemaHash (lib : Libraries) (schema : JsonObject) : String :=
  Sha256.hexdigest (Text.utf8 (JsonText.dumps ⟨true, true, lib.floatText⟩ (.obj schema)))

/-- `^[a-z][a-z0-9_.-]+$`. -/
def CapabilityText (s : String) : Prop :=
  match s.toList with
  | [] => False
  | c :: cs =>
    c ∈ "abcdefghijklmnopqrstuvwxyz".toList ∧ cs ≠ [] ∧
      ∀ c ∈ cs, c ∈ "abcdefghijklmnopqrstuvwxyz0123456789_.-".toList

instance (s : String) : Decidable (CapabilityText s) := by
  unfold CapabilityText
  split
  · exact instDecidableFalse
  · exact @instDecidableAnd _ _ _ (@instDecidableAnd _ _ _ (List.decidableBAll _ _))

/-- A `ManifestEntry`, with what it is validated for; its `input_schema_hash` is always that of its schema. -/
structure ManifestEntry (lib : Libraries) where
  endpointIdentity : SpecialistKind
  capability : String
  toolNamePattern : String
  inputSchema : JsonObject
  capability_text : CapabilityText capability
  pattern_ne : toolNamePattern ≠ ""
  pattern_compiles : lib.compiles toolNamePattern = true
  schema_checked : lib.checkSchema (.obj inputSchema) = true

def ManifestEntry.inputSchemaHash {lib : Libraries} (entry : ManifestEntry lib) : String :=
  schemaHash lib entry.inputSchema

structure DiscoveredTool where
  name : String
  inputSchema : JsonObject
  annotations : JsonObject
  name_ne : name ≠ ""

/-- `annotations.get(key) is b`. -/
def isFlag (b : Bool) : Json → Bool
  | .bool b' => b' = b
  | _ => false

/-- The hints that a tool may carry. -/
def toolHints : List String := ["title", "readOnlyHint", "destructiveHint", "idempotentHint", "openWorldHint"]

section Resolve

variable {lib : Libraries}

/-- A discovered tool is the one an entry names. -/
def ManifestEntry.Matches (entry : ManifestEntry lib) (tool : DiscoveredTool) : Prop :=
  lib.fullmatch entry.toolNamePattern tool.name = true ∧
    (∃ hint ∈ JsonObject.get? tool.annotations "readOnlyHint", isFlag true hint = true) ∧
    isFlag false ((JsonObject.get? tool.annotations "destructiveHint").getD (.bool false)) = true ∧
    (∀ key ∈ JsonObject.keys tool.annotations, key ∈ toolHints) ∧ schemaHash lib tool.inputSchema =
      entry.inputSchemaHash

instance (entry : ManifestEntry lib) (tool : DiscoveredTool) : Decidable (entry.Matches tool) := by
  unfold ManifestEntry.Matches
  infer_instance

/-- The tool of an entry. -/
def ManifestEntry.allow (entry : ManifestEntry lib) (tool : DiscoveredTool) (capability : String) :
    AllowedTool where
  name := tool.name
  capability := capability
  endpointIdentity := entry.endpointIdentity
  inputSchema := .obj entry.inputSchema

/-- What one required capability resolves to. -/
def resolveOne (manifest : List (ManifestEntry lib)) (discovered : List DiscoveredTool)
    (endpointIdentity : SpecialistKind) (capability : String) : Option AllowedTool :=
  match manifest.filter fun entry =>
      entry.capability = capability ∧ entry.endpointIdentity = endpointIdentity with
  | [entry] =>
    match discovered.filter fun tool => entry.Matches tool with
    | [tool] => some (entry.allow tool capability)
    | _ => none
  | _ => none

/-- `CapabilityResolver.resolve`: nothing, where one of the capabilities does not resolve. -/
def resolve (required : List String) (manifest : List (ManifestEntry lib)) (discovered : List DiscoveredTool)
    (endpointIdentity : SpecialistKind) : List AllowedTool :=
  (required.mapM (resolveOne manifest discovered endpointIdentity)).getD []

end Resolve

/-! ## Discovery -/

inductive DiscoveryFailureCode where
  | MCP_TIMEOUT | MCP_TRANSPORT | MCP_RESULT_INVALID
  deriving DecidableEq

/-- The code as one of a specialist failure. -/
def DiscoveryFailureCode.stable : DiscoveryFailureCode → StableSpecialistCode
  | .MCP_TIMEOUT => .MCP_TIMEOUT
  | .MCP_TRANSPORT => .MCP_TRANSPORT
  | .MCP_RESULT_INVALID => .MCP_RESULT_INVALID

structure DiscoveryFailure where
  specialist : SpecialistKind
  code : DiscoveryFailureCode

structure CapabilitySet where
  bySpecialist : List (SpecialistKind × List AllowedTool)
  discoveryFailures : List DiscoveryFailure

/-- `for_specialist`. -/
def CapabilitySet.forSpecialist (capabilities : CapabilitySet) (kind : SpecialistKind) : List AllowedTool :=
  ((capabilities.bySpecialist.find? fun item => item.1 = kind).map Prod.snd).getD []

/-- What `discover_one` sees: its two readings of the clock, `factory.for_specialist`, and
`client.list_tools()`, which may return what is no tuple. -/
structure Discovering where
  now : Timestamp
  client : Except Raised Unit
  later : Timestamp
  listed : Except Raised (Option (List DiscoveredTool))

/-- What `discover_one` returns: whether there is a client, the tools, and a failure. -/
structure Discovered where
  specialist : SpecialistKind
  client : Bool
  tools : List AllowedTool
  failure : Option DiscoveryFailure

/-- The `except` clauses of `discover_one`. -/
def discoveryCode (e : Raised) : DiscoveryFailureCode :=
  if e.timeoutError then .MCP_TIMEOUT else if e.transport then .MCP_TRANSPORT else .MCP_RESULT_INVALID

/-- A specialist whose endpoint could not be listed. -/
def Discovered.failed (kind : SpecialistKind) (client : Bool) (code : DiscoveryFailureCode) : Discovered :=
  ⟨kind, client, [], some ⟨kind, code⟩⟩

section Discover

variable {lib : Libraries}

/-- `discover_one`. -/
def discoverOne (deadline : Option Timestamp) (kind : SpecialistKind) (entries : List (ManifestEntry lib))
    (required : List String) (d : Discovering) : Discovered :=
  if ∃ limit ∈ deadline, limit - d.now ≤ 0 then .failed kind false .MCP_TIMEOUT
  else
    match d.client with
    | .error e => .failed kind false (discoveryCode e)
    | .ok () =>
      if ∃ limit ∈ deadline, limit - d.later ≤ 0 then .failed kind true .MCP_TIMEOUT
      else
        match d.listed with
        | .error e => .failed kind false (discoveryCode e)
        | .ok none => .failed kind false .MCP_RESULT_INVALID
        | .ok (some discovered) => ⟨kind, true, resolve required entries discovered kind, none⟩

/-- The entries of an endpoint, where they cover every required capability once. -/
def candidate (manifest : List (ManifestEntry lib)) (requiredBySpecialist : SpecialistKind → List String)
    (kind : SpecialistKind) :
    Option (SpecialistKind × List (ManifestEntry lib) × List String) :=
  let entries := manifest.filter fun entry => entry.endpointIdentity = kind
  let required := requiredBySpecialist kind
  if required = [] ∨ ∃ capability ∈ required,
    (entries.filter fun entry => entry.capability = capability).length ≠ 1 then none
  else some (kind, entries, required)

/-- `discover_capabilities`, with the kinds that have a client. -/
def discoverCapabilities (scope : Option CloudScope) (manifest : List (ManifestEntry lib))
    (requiredBySpecialist : SpecialistKind → List String) (deadline : Option Timestamp)
    (d : SpecialistKind → Discovering) : CapabilitySet × List SpecialistKind :=
  match scope.filter fun scope => scope.provider = .GCP ∧ scope.safe = true with
  | none => (⟨[], []⟩, [])
  | some _ =>
    let candidates := SpecialistKind.order.filterMap (candidate manifest requiredBySpecialist)
    let results :=
      candidates.map fun (kind, entries, required) => discoverOne deadline kind entries required (d kind)
    (⟨results.map fun r => (r.specialist, r.tools),
      SpecialistKind.order.flatMap fun kind =>
        (results.filter fun r => r.specialist = kind).filterMap Discovered.failure⟩,
      (results.filter fun r => r.client ∧ r.failure = none).map Discovered.specialist)

/-- What discovery finds out of a kind, where it asks its endpoint. -/
def discovered (manifest : List (ManifestEntry lib)) (requiredBySpecialist : SpecialistKind → List String)
    (deadline : Option Timestamp) (d : SpecialistKind → Discovering) (kind : SpecialistKind) :
    Option Discovered :=
  (candidate manifest requiredBySpecialist kind).map fun (kind, entries, required) =>
    discoverOne deadline kind entries required (d kind)

variable {deadline : Option Timestamp} {kind : SpecialistKind} {entries : List (ManifestEntry lib)}
  {required : List String} {d : Discovering}
  {manifest : List (ManifestEntry lib)} {requiredBySpecialist : SpecialistKind → List String}
  {ds : SpecialistKind → Discovering}

/-- An endpoint either fails, without tools, or is listed. -/
theorem discoverOne_cases :
    (∃ client code, discoverOne deadline kind entries required d = .failed kind client code) ∨
    ∃ discovered, d.listed = .ok (some discovered) ∧
      discoverOne deadline kind entries required d =
        ⟨kind, true, resolve required entries discovered kind, none⟩ := by
  unfold discoverOne
  split
  · exact .inl ⟨_, _, rfl⟩
  · split
    · exact .inl ⟨_, _, rfl⟩
    · split
      · exact .inl ⟨_, _, rfl⟩
      · split
        · exact .inl ⟨_, _, rfl⟩
        · exact .inl ⟨_, _, rfl⟩
        · next discovered listed => exact .inr ⟨discovered, listed, rfl⟩

theorem discoverOne_specialist : (discoverOne deadline kind entries required d).specialist = kind := by
  rcases @discoverOne_cases lib deadline kind entries required d with ⟨_, _, eq⟩ | ⟨_, _, eq⟩
  · rw [eq]
    rfl
  · rw [eq]

/-- An endpoint that failed has no tools. -/
theorem discoverOne_failure {failure : DiscoveryFailure}
    (h : (discoverOne deadline kind entries required d).failure = some failure) :
    failure.specialist = kind ∧ (discoverOne deadline kind entries required d).tools = [] := by
  rcases @discoverOne_cases lib deadline kind entries required d with ⟨_, _, eq⟩ | ⟨_, _, eq⟩
  · rw [eq] at h ⊢
    cases h
    exact ⟨rfl, rfl⟩
  · rw [eq] at h
    cases h

/-- What is discovered for a specialist is its own, and a failure leaves it without tools. -/
theorem of_discovered {r : Discovered}
    (h : discovered manifest requiredBySpecialist deadline ds kind = some r) :
    r.specialist = kind ∧ ∀ failure, r.failure = some failure → failure.specialist = kind ∧ r.tools = [] := by
  obtain ⟨c, hc, rfl⟩ := Option.map_eq_some_iff.1 h
  have same : c.1 = kind := by
    unfold candidate at hc
    dsimp only at hc
    split at hc
    · cases hc
    · cases hc
      rfl
  subst same
  exact ⟨discoverOne_specialist, fun failure hfailure => discoverOne_failure hfailure⟩

/-- A specialist that failed discovery has no tools. -/
theorem tools_of_failure (scope : Option CloudScope) {failure : DiscoveryFailure}
    (h : failure ∈
      (discoverCapabilities scope manifest requiredBySpecialist deadline ds).1.discoveryFailures) :
    (discoverCapabilities scope manifest requiredBySpecialist deadline ds).1.forSpecialist
      failure.specialist = [] := by
  unfold discoverCapabilities at h ⊢
  split at h
  · cases h
  · have listed : (SpecialistKind.order.filterMap (candidate manifest requiredBySpecialist)).map
        (fun (kind, entries, required) => discoverOne deadline kind entries required (ds kind)) =
        inOrder SpecialistKind.order (discovered manifest requiredBySpecialist deadline ds) :=
          List.map_filterMap
    have filed : Filed Discovered.specialist (discovered manifest requiredBySpecialist deadline ds) :=
      fun k r hr => (of_discovered hr).1
    dsimp only at h ⊢
    rw [listed] at h ⊢
    obtain ⟨kind, -, mem⟩ := List.mem_flatMap.1 h
    obtain ⟨r, hr, hfailure⟩ := List.mem_filterMap.1 mem
    obtain ⟨k, -, hk⟩ := mem_inOrder.1 (List.mem_of_mem_filter hr)
    obtain ⟨same, none⟩ := (of_discovered hk).2 failure hfailure
    have found := find?_inOrder filed SpecialistKind.mem_order k
    rw [CapabilitySet.forSpecialist, List.find?_map, same]
    simp only [Function.comp_def]
    rw [found, hk]
    exact none

end Discover

end SreAgent.Rca
