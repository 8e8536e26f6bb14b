import SreAgent.Alerts.Identity
import SreAgent.Base.Outcome
import SreAgent.Base.Time
import SreAgent.Trace.Labels

/-!
# Grafana webhook bodies

`parse_grafana_body`: the body is read by the JSON parser of the validation library and validated
as a `GrafanaWebhook`. Unknown fields are allowed, a field is read under its alias or else under
its name. A naive timestamp is a validation error, one that has no instant in UTC raises.
-/

namespace SreAgent.Ingestion
open Base Trace

/-- What the interpreter and its libraries contribute: hashes and the text of floats, the limits of
`json.loads`, and how the validation library reads JSON text, datetimes, integers and URLs. -/
structure Backend extends Alerts.Hashing, JsonParse.Interpreter where
  readJson : List UInt8 → Option Json
  readDatetime : Json → Option Datetime
  readInt : Json → Option Int
  isUrl : String → Bool

/-- `AlertState`. -/
inductive AlertState where
  | FIRING | RESOLVED
  deriving DecidableEq, Repr

structure GrafanaAlert where
  status : AlertState
  labels : JsonObject
  annotations : List (String × String)
  startsAt : Timestamp
  endsAt : Timestamp
  values : JsonObject
  fingerprint : String

structure GrafanaWebhook where
  alerts : List GrafanaAlert
  truncatedAlerts : Option Int

/-! ## Fields -/

/-- The item of a field: under its alias, or else under its name. -/
def aliased (d : JsonObject) (byAlias byName : String) : Option Json :=
  (JsonObject.get? d byAlias).orElse fun _ => JsonObject.get? d byName

/-- `Literal["firing", "resolved"]`, and `AlertState` of its upper case. -/
def statusField : Option Json → Outcome PyError AlertState
  | some (.str s) =>
    if s = "firing" then .valid .FIRING else if s = "resolved" then .valid .RESOLVED else .invalid
  | _ => .invalid

/-- `dict[str, JsonValue]` and `dict[str, Any]`: every decoded value will do. -/
def objectField : Option Json → Outcome PyError JsonObject
  | some (.obj d) => .valid d
  | _ => .invalid

/-- A text among decoded values. -/
def textItem : String × Json → Option (String × String)
  | (key, .str s) => some (key, s)
  | _ => none

/-- `dict[str, str]`. -/
def textsField : Option Json → Outcome PyError (List (String × String))
  | some (.obj d) =>
    match d.mapM textItem with
    | some texts => .valid texts
    | none => .invalid
  | _ => .invalid

def textField : Option Json → Outcome PyError String
  | some (.str s) => .valid s
  | _ => .invalid

/-- `require_aware_utc`; the `ValueError` of a naive datetime is collected, the `OverflowError` is not. -/
def requireAwareUtc (dt : Datetime) : Outcome PyError Timestamp :=
  match dt.offset with
  | none => .invalid
  | some offset =>
    if 0 ≤ dt.clock - offset ∧ dt.clock - offset < 315537897600000000 then .valid (dt.clock - offset)
    else .raised .overflowError

/-- `UtcTimestamp`. -/
def timestampField (b : Backend) : Option Json → Outcome PyError Timestamp
  | none => .invalid
  | some v =>
    match b.readDatetime v with
    | none => .invalid
    | some dt => requireAwareUtc dt

/-- `AnyUrl`. -/
def urlField (b : Backend) : Option Json → Outcome PyError Unit
  | some (.str s) => .check (b.isUrl s)
  | _ => .invalid

/-- A field that may be missing or null. -/
def optional (validate : Option Json → Outcome PyError Unit) : Option Json → Outcome PyError Unit
  | none | some .null => .valid ()
  | v => validate v

/-- `AnyUrl | Literal[""] | None`. -/
def emptyOrUrl (b : Backend) : Option Json → Outcome PyError Unit
  | some (.str "") => .valid ()
  | v => urlField b v

/-- `int | None` with `ge=0`. -/
def countField (b : Backend) : Option Json → Outcome PyError (Option Int)
  | none | some .null => .valid none
  | some v =>
    match b.readInt v with
    | none => .invalid
    | some n => if n < 0 then .invalid else .valid (some n)

/-! ## Models -/

/-- `model_validate` of an alert. -/
def GrafanaAlert.validate (b : Backend) : Json → Outcome PyError GrafanaAlert
  | .obj d =>
    (Outcome.both (statusField (JsonObject.get? d "status")) <|
      Outcome.both (objectField (JsonObject.get? d "labels")) <|
      Outcome.both (textsField (JsonObject.get? d "annotations")) <|
      Outcome.both (timestampField b (aliased d "startsAt" "starts_at")) <|
      Outcome.both (timestampField b (aliased d "endsAt" "ends_at")) <|
      Outcome.both (objectField (JsonObject.get? d "values")) <|
      Outcome.both (urlField b (aliased d "generatorURL" "generator_url")) <|
      Outcome.both (textField (JsonObject.get? d "fingerprint")) <|
      Outcome.both (optional (urlField b) (aliased d "silenceURL" "silence_url")) <|
      Outcome.both (optional (emptyOrUrl b) (aliased d "dashboardURL" "dashboard_url")) <|
      Outcome.both (optional (emptyOrUrl b) (aliased d "panelURL" "panel_url")) <|
      optional (urlField b) (aliased d "imageURL" "image_url")).map
    fun (status, labels, annotations, startsAt, endsAt, values, _, fingerprint, _) =>
      { status, labels, annotations, startsAt, endsAt, values, fingerprint }
  | _ => .invalid

/-- `list[GrafanaAlert]` with `min_length=1`. -/
def alertsField (b : Backend) : Option Json → Outcome PyError (List GrafanaAlert)
  | some (.arr items) =>
    (Outcome.all (items.map (GrafanaAlert.validate b))).andThen fun alerts =>
      if items = [] then .invalid else .valid alerts
  | _ => .invalid

/-- A text, or no text. -/
def optionalText : Option Json → Outcome PyError Unit := optional fun v => (textField v).map fun _ => ()

/-- Texts by name, or none. -/
def optionalTexts : Option Json → Outcome PyError Unit := optional fun v => (textsField v).map fun _ => ()

/-- `model_validate_json` of a decoded document. -/
def GrafanaWebhook.validate (b : Backend) : Json → Outcome PyError GrafanaWebhook
  | .obj d =>
    (Outcome.both (alertsField b (JsonObject.get? d "alerts")) <|
      Outcome.both (countField b (aliased d "truncatedAlerts" "truncated_alerts")) <|
      Outcome.both (statusField (JsonObject.get? d "status")) <|
      Outcome.both (optionalText (JsonObject.get? d "receiver")) <|
      Outcome.both (optional (fun v => .check ((v.bind b.readInt).isSome)) (aliased d "orgId" "org_id")) <|
      Outcome.both (optionalTexts (aliased d "groupLabels" "group_labels")) <|
      Outcome.both (optionalTexts (aliased d "commonLabels" "common_labels")) <|
      Outcome.both (optionalTexts (aliased d "commonAnnotations" "common_annotations")) <|
      Outcome.both (optional (urlField b) (aliased d "externalURL" "external_url")) <|
      Outcome.both (optionalText (JsonObject.get? d "version")) <|
      Outcome.both (optionalText (aliased d "groupKey" "group_key")) <|
      Outcome.both (optionalText (JsonObject.get? d "title")) <|
      Outcome.both (optionalText (JsonObject.get? d "state")) <|
      optionalText (JsonObject.get? d "message")).map
    fun (alerts, truncatedAlerts, _) => { alerts, truncatedAlerts }
  | _ => .invalid

/-- `parse_grafana_body`; `invalid` is `GrafanaPayloadTooLarge` or `GrafanaPayloadInvalid`. -/
def parseGrafanaBody (b : Backend) (rawBody : List UInt8) (maxBytes : Nat) : Outcome PyError GrafanaWebhook :=
  if maxBytes < rawBody.length then .invalid
  else
    match b.readJson rawBody with
    | none => .invalid
    | some document => GrafanaWebhook.validate b document

end SreAgent.Ingestion
