import SreAgent.Base.IsoTime
import SreAgent.Ingestion.Payloads

/-!
# Canonical alert events

`normalize_alerts`: provider, severity, resource, fingerprint and dedup key of every alert of a
webhook. The labels are deeply frozen: objects become read-only mappings, arrays tuples, keys in
ascending order. `json.dumps` writes a tuple as an array and fails on a read-only mapping.
-/

namespace SreAgent.Ingestion
open Base Trace Alerts

/-! ## Frozen values -/

/-- `FrozenJsonValue`. -/
inductive Frozen where
  | null
  | bool (b : Bool)
  | int (n : Int)
  | float (x : FloatVal)
  | str (s : String)
  | tuple (items : List Frozen)
  | proxy (items : List (String × Frozen))

mutual

/-- `_deep_freeze_json`. -/
def deepFreeze : Json → Frozen
  | .null => .null
  | .bool b => .bool b
  | .int n => .int n
  | .float x => .float x
  | .str s => .str s
  | .arr items => .tuple (freezeItems items)
  | .obj fields => .proxy (JsonText.sortItems (freezeFields fields))

def freezeItems : List Json → List Frozen
  | [] => []
  | v :: rest => deepFreeze v :: freezeItems rest

def freezeFields : List (String × Json) → List (String × Frozen)
  | [] => []
  | (key, v) :: rest => (key, deepFreeze v) :: freezeFields rest

end

mutual

/-- The document `json.dumps` writes of a frozen value; `none` is the `TypeError` of a mapping proxy. -/
def dumpsFrozen : Frozen → Option Json
  | .null => some .null
  | .bool b => some (.bool b)
  | .int n => some (.int n)
  | .float x => some (.float x)
  | .str s => some (.str s)
  | .tuple items => (dumpsItems items).map .arr
  | .proxy _ => none

def dumpsItems : List Frozen → Option (List Json)
  | [] => some []
  | v :: rest => (dumpsFrozen v).bind fun v => (dumpsItems rest).map fun rest => v :: rest

end

/-- `json.dumps(dict(labels))`: the outer mapping is a dictionary again. -/
def dumpsFields : List (String × Frozen) → Option JsonObject
  | [] => some []
  | (key, v) :: rest => (dumpsFrozen v).bind fun v => (dumpsFields rest).map fun rest => (key, v) :: rest

mutual

/-- The document of `_plain_json` of a frozen value. -/
def plainJson : Frozen → Json
  | .null => .null
  | .bool b => .bool b
  | .int n => .int n
  | .float x => .float x
  | .str s => .str s
  | .tuple items => .arr (plainItems items)
  | .proxy fields => .obj (plainFields fields)

def plainItems : List Frozen → List Json
  | [] => []
  | v :: rest => plainJson v :: plainItems rest

def plainFields : List (String × Frozen) → JsonObject
  | [] => []
  | (key, v) :: rest => (key, plainJson v) :: plainFields rest

end

mutual

/-- Where `json.dumps` writes a frozen value, `_plain_json` gives the same document. -/
theorem plainJson_of_dumps : ∀ {v : Frozen} {document : Json}, dumpsFrozen v = some document →
      plainJson v = document
  | .null, _, h | .bool _, _, h | .int _, _, h | .float _, _, h | .str _, _, h => Option.some.inj h
  | .tuple items, _, h => by
    obtain ⟨documents, hitems, rfl⟩ := Option.map_eq_some_iff.1 h
    rw [plainJson, plainItems_of_dumps hitems]
  | .proxy _, _, h => by cases h

/-- Items that are written are written as they are thawed. -/
theorem plainItems_of_dumps : ∀ {items : List Frozen} {documents : List Json},
    dumpsItems items = some documents → plainItems items = documents
  | [], _, h => Option.some.inj h
  | v :: rest, _, h => by
    obtain ⟨document, hv, h⟩ := Option.bind_eq_some_iff.1 h
    obtain ⟨documents, hrest, rfl⟩ := Option.map_eq_some_iff.1 h
    rw [plainItems, plainJson_of_dumps hv, plainItems_of_dumps hrest]

end

/-- Labels that are written are written as they are thawed. -/
theorem plainFields_of_dumps {fields : List (String × Frozen)} {document : JsonObject}
    (h : dumpsFields fields = some document) :
    plainFields fields = document := by
  induction fields generalizing document with
  | nil => exact Option.some.inj h
  | cons field rest ih =>
    obtain ⟨v, hv, h⟩ := Option.bind_eq_some_iff.1 h
    obtain ⟨others, hrest, rfl⟩ := Option.map_eq_some_iff.1 h
    rw [plainFields, plainJson_of_dumps hv, ih hrest]

/-! ## Provider and severity -/

/-- `Provider`. -/
inductive Provider where
  | GCP | AWS
  deriving DecidableEq, Repr

def Provider.value : Provider → String
  | .GCP => "GCP"
  | .AWS => "AWS"

/-- `PROJECT_KEY`. -/
def projectKey : String := "resource.label.project_id"

structure ProviderDecision where
  provider : Provider
  projectId : Option String
  errors : List AlertValidationError

/-- `detect_provider`. -/
def detectProvider (labels : JsonObject) : ProviderDecision :=
  match JsonObject.get? labels projectKey with
  | none => ⟨.AWS, none, []⟩
  | some (.str s) =>
    if Text.strip s ≠ "" then ⟨.GCP, some (Text.strip s), []⟩
      else ⟨.GCP, none, [⟨projectKey, "invalid_value"⟩]⟩
  | some _ => ⟨.GCP, none, [⟨projectKey, "invalid_value"⟩]⟩

structure SeverityDecision where
  raw : Option String
  canonical : String
  warnings : List String

/-- `str.upper`, as far as it yields the letters of a severity: ASCII letters and the dotless i. -/
def upper (s : String) : String :=
  String.ofList (s.toList.map fun c => if c.toNat = 305 then 'I' else c.toUpper)

/-- `map_severity`. -/
def mapSeverity (raw : Option Json) : SeverityDecision :=
  match raw with
  | some (.str s) =>
    let normalized := upper (Text.strip s)
    if normalized = "ERROR" then ⟨some s, "SEV1", []⟩
    else if normalized = "WARN" ∨ normalized = "WARNING" then ⟨some s, "SEV3", []⟩
    else ⟨some s, "UNMAPPED", ["severity_unmapped"]⟩
  | _ => ⟨none, "UNMAPPED", ["severity_unmapped"]⟩

/-! ## Normalization rules -/

/-- `_SAFE_FORMATS`. -/
inductive SafeFormat where
  | awsAccountId | gcpProjectId | uuid | nonBlank
  deriving DecidableEq

def isHexChar (c : Char) : Bool := c.isDigit || ('a' ≤ c && c ≤ 'f') || ('A' ≤ c && c ≤ 'F')

def isLowerOrDigit (c : Char) : Bool := c.isDigit || c.isLower

/-- `pattern.fullmatch(value)`. -/
def SafeFormat.matches (f : SafeFormat) (cs : List Char) : Bool :=
  match f with
  | .awsAccountId => cs.length = 12 && cs.all Char.isDigit
  | .gcpProjectId =>
    6 ≤ cs.length && cs.length ≤ 30 && (cs.head?.any Char.isLower) &&
      cs.all (fun c => isLowerOrDigit c || c = '-') &&
      (cs.getLast?.any isLowerOrDigit)
  | .uuid =>
    match cs.splitOn '-' with
    | [a, b, c, d, e] =>
      (a.length = 8 && b.length = 4 && c.length = 4 && d.length = 4 && e.length = 12) &&
        ([a, b, c, d, e].all fun part => part.all isHexChar) && (c.head?.any fun x => '1' ≤ x && x ≤ '5') &&
        (d.head?.any fun x => x ∈ "89abAB".toList)
    | _ => false
  | .nonBlank => cs.all (· ≠ '\n') && cs.any fun c => !Text.isSpace c

/-- The root of a path. -/
inductive Root where
  | labels | annotations | values
  deriving DecidableEq

/-- A path of `_SAFE_PATH`: its root and the keys after it. -/
structure SafePath where
  root : Root
  parts : List String
  parts_ne_nil : parts ≠ []

/-- The operator of a condition, with its value. -/
inductive Operator where
  | exists_
  | equals (value : String)
  | prefix_ (value : String)
  | format (f : SafeFormat)

structure RuleCondition where
  path : SafePath
  operator : Operator

structure RuleOutput where
  provider : Provider
  resourceType : String
  scopePath : Option SafePath
  resourceIdPath : Option SafePath
  resourceNamePath : Option SafePath
  displayUnit : Option String

structure NormalizationRule where
  id : Uuid
  version : Nat
  priority : Int
  conditions : List RuleCondition
  output : RuleOutput
  enabled : Bool

structure CanonicalBaseAlert where
  labels : JsonObject
  annotations : JsonObject
  values : JsonObject

/-- `getattr(alert, root_name)`. -/
def CanonicalBaseAlert.root (alert : CanonicalBaseAlert) : Root → JsonObject
  | .labels => alert.labels
  | .annotations => alert.annotations
  | .values => alert.values

/-- Descend by one key after the other. -/
def descend : Json → List String → Option Json
  | v, [] => some v
  | .obj d, part :: rest => (JsonObject.get? d part).bind fun v => descend v rest
  | _, _ :: _ => none

/-- `_resolve_path`; `none` is not found. -/
def resolvePath (alert : CanonicalBaseAlert) (path : SafePath) : Option Json :=
  let flattened := ".".intercalate path.parts
  match JsonObject.get? (alert.root path.root) flattened with
  | some v => some v
  | none => descend (.obj (alert.root path.root)) path.parts

def RuleCondition.holds (alert : CanonicalBaseAlert) (condition : RuleCondition) : Bool :=
  match condition.operator, resolvePath alert condition.path with
  | .exists_, some .null | .exists_, none => false
  | .exists_, some _ => true
  | .equals value, some (.str s) => s = value
  | .prefix_ value, some (.str s) => value.toList <+: s.toList
  | .format f, some (.str s) => f.matches s.toList
  | _, _ => false

/-- `NormalizationStatus`. -/
inductive NormalizationStatus where
  | NORMALIZED | UNCLASSIFIED | VALIDATION_FAILED
  deriving DecidableEq, Repr

structure NormalizedResource where
  provider : Provider
  resourceType : String
  scopeId : Option String
  resourceId : Option String
  resourceName : Option String
  displayUnit : Option String

structure NormalizationResult where
  status : NormalizationStatus
  resource : Option NormalizedResource
  rule : Option (Uuid × Nat)
  warnings : List String

/-- The text at an output path: `none` where the path is given and finds no text. -/
def extracted (alert : CanonicalBaseAlert) : Option SafePath → Option (Option String)
  | none => some none
  | some path =>
    match resolvePath alert path with
    | some (.str s) => if Text.strip s = "" then none else some (some s)
    | _ => none

/-- `SafeRuleEngine._resource`. -/
def RuleOutput.resource (output : RuleOutput) (alert : CanonicalBaseAlert) : Option NormalizedResource := do
  let scopeId ← extracted alert output.scopePath
  let resourceId ← extracted alert output.resourceIdPath
  let resourceName ← extracted alert output.resourceNamePath
  return ⟨output.provider, output.resourceType, scopeId, resourceId, resourceName, output.displayUnit⟩

/-- `_result`. -/
def unresolved (status : NormalizationStatus) (warning : String) : NormalizationResult :=
  ⟨status, none, none, [warning]⟩

/-- The rules of a source. -/
structure SafeRuleEngine where
  rules : List NormalizationRule

/-- `SafeRuleEngine.normalize`. -/
def SafeRuleEngine.normalize (engine : SafeRuleEngine) (alert : CanonicalBaseAlert)
    (provider : ProviderDecision) :
    NormalizationResult :=
  if provider.errors ≠ [] then unresolved .VALIDATION_FAILED "provider_validation_failed"
  else
    let found := (engine.rules.filter (·.enabled)).filter fun rule => rule.conditions.all (·.holds alert)
    match found.map (·.priority) with
    | [] => unresolved .UNCLASSIFIED "normalization_rule_not_found"
    | p :: ps =>
      match found.filter fun rule => rule.priority = ps.foldl min p with
      | [rule] =>
        if rule.output.provider ≠ provider.provider
          then unresolved .UNCLASSIFIED "normalization_provider_conflict"
        else
          match rule.output.resource alert with
          | none => unresolved .UNCLASSIFIED "normalization_output_invalid"
          | some resource => ⟨.NORMALIZED, some resource, some (rule.id, rule.version), []⟩
      | _ => unresolved .UNCLASSIFIED "normalization_rule_conflict"

/-! ## Events -/

/-- `CanonicalAlertEvent`, as far as ingestion reads it. -/
structure CanonicalAlertEvent where
  sourceId : Uuid
  fingerprint : String
  dedupKey : String
  status : AlertState
  startsAt : Timestamp
  endsAt : Timestamp
  labels : List (String × Frozen)
  annotations : List (String × String)
  provider : Provider
  folderCode : Option String
  alertName : Option String
  severity : SeverityDecision
  issue : String
  resource : Option NormalizedResource
  normalizationStatus : NormalizationStatus
  normalizationRule : Option (Uuid × Nat)
  normalizationWarnings : List String

/-- `status.value`. -/
def AlertState.value : AlertState → String
  | .FIRING => "FIRING"
  | .RESOLVED => "RESOLVED"

/-- `instant.isoformat()` of an instant in UTC. -/
def isoformat (instant : Timestamp) : String :=
  String.ofList ((IsoTime.text instant.toNat).toList.dropLast ++ "+00:00".toList)

/-- `make_dedup_key`. -/
def makeDedupKey (h : Hashing) (sourceId : Uuid) (fingerprint : String) (status : AlertState)
    (startsAt endsAt : Timestamp) (rawSha256 : String) : String :=
  canonicalSha256 h (.obj [("source_id", .str sourceId.text), ("fingerprint", .str fingerprint),
    ("status", .str status.value), ("starts_at", .str (isoformat startsAt)),
    ("ends_at", .str (isoformat endsAt)), ("raw_sha256", .str rawSha256)])

/-- A label that is text and not blank, stripped. -/
def strippedLabel (labels : JsonObject) (key : String) : Option String :=
  match JsonObject.get? labels key with
  | some (.str s) => if Text.strip s = "" then none else some (Text.strip s)
  | _ => none

/-- What the rules see of an alert. -/
def GrafanaAlert.base (alert : GrafanaAlert) : CanonicalBaseAlert :=
  ⟨alert.labels, alert.annotations.map fun (key, s) => (key, .str s), alert.values⟩

/-- `_normalize_alert`. -/
def normalizeAlert (h : Hashing) (sourceId : Uuid) (rawSha256 : String) (engine : SafeRuleEngine)
    (alert : GrafanaAlert) :
    CanonicalAlertEvent :=
  let provider := detectProvider alert.labels
  let severity := mapSeverity (JsonObject.get? alert.labels "severity")
  let normalization := engine.normalize alert.base provider
  let issueText := JsonObject.get? alert.annotations "AlertValues"
  let fingerprint := makeAlertFingerprint h sourceId alert.fingerprint alert.labels
  { sourceId
    fingerprint
    dedupKey := makeDedupKey h sourceId fingerprint alert.status alert.startsAt alert.endsAt rawSha256
    status := alert.status
    startsAt := alert.startsAt
    endsAt := alert.endsAt
    labels := JsonText.sortItems (freezeFields alert.labels)
    annotations := JsonText.sortItems alert.annotations
    provider := provider.provider
    folderCode := strippedLabel alert.labels "folder"
    alertName := strippedLabel alert.labels "alertname"
    severity
    issue := issueText.getD ""
    resource := normalization.resource
    normalizationStatus := normalization.status
    normalizationRule := normalization.rule
    normalizationWarnings :=
      severity.warnings ++ (if issueText.isSome then [] else ["alert_values_missing"]) ++
      normalization.warnings }

/-- `normalize_alerts`. -/
def normalizeAlerts (h : Hashing) (sourceId : Uuid) (rawBody : List UInt8) (webhook : GrafanaWebhook)
    (engine : SafeRuleEngine) : List CanonicalAlertEvent :=
  webhook.alerts.map (normalizeAlert h sourceId (h.hexdigest rawBody) engine)

end SreAgent.Ingestion
