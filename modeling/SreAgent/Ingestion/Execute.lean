import SreAgent.Ingestion.Statements

/-!
# Ingesting a webhook

The repository methods and `IngestGrafanaAlerts.execute` as transactions. A body that is not
accepted, a document that cannot be stored and a row that vanishes between two statements raise.
After the commit the new outbox events are handed to the publisher one by one, whatever it does.
-/

namespace SreAgent.Ingestion
open Base Transaction Alerts Outbox Lifecycle Pubsub

/-- A transaction of ingestion. -/
abbrev Tx := Program Stmt

/-- `CAST(:document AS jsonb)`. -/
def castJsonb (document : Json) : Tx Json := if storable document then pure document else .raise

/-- `CAST(:document AS jsonb)` of an object. -/
def castFields (fields : JsonObject) : Tx JsonObject := if storableFields fields then pure fields else .raise

/-- A value computed in Python, or the exception it raises. -/
def orRaise {α : Type} : Option α → Tx α
  | some a => pure a
  | none => .raise

/-! ## Alerts -/

/-- An `INTEGER` column. -/
def int4 (n : Int) : Tx Int := if n < 2147483648 then pure n else .raise

/-- What `create_delivery` is given. -/
structure DeliveryValues where
  sourceId : Uuid
  tokenId : String
  receivedAt : Timestamp
  bodyHash : String
  rawBody : List UInt8
  rawPayload : Json
  truncatedAlerts : Int
  incomplete : Bool

/-- `create_delivery`. -/
def createDelivery (v : DeliveryValues) : Tx Uuid := do
  let deliveryId ← Program.stmt .uuid4
  let rawPayload ← castJsonb v.rawPayload
  let truncatedAlerts ← int4 v.truncatedAlerts
  Program.stmt (.insertDelivery
    { id := deliveryId
      receivedAt := v.receivedAt
      sourceId := v.sourceId
      tokenId := v.tokenId
      bodyHash := v.bodyHash
      rawBody := v.rawBody
      rawPayload
      truncatedAlerts
      incomplete := v.incomplete
      status := .RECEIVED
      processedAt := none })
  return deliveryId

/-- `claim_dedup_key`. -/
def claimDedupKey (sourceId : Uuid) (dedupKey : String) (deliveryId : Uuid) : Tx Bool :=
  Program.stmt (.insertDedupKey ⟨sourceId, dedupKey, deliveryId⟩)

/-- The document of a text or of nothing. -/
def textOrNull : Option String → Json
  | some s => .str s
  | none => .null

/-- The document of `issue`. -/
def issueDocument (rawText : String) : JsonObject :=
  [("rawText", .str rawText), ("source", .str "grafana.annotations.AlertValues"),
    ("contentType", .str "text/plain"), ("untrusted", .bool true)]

/-- The document of `resource`. -/
def resourceDocument (r : NormalizedResource) : JsonObject :=
  [("provider", .str r.provider.value), ("resourceType", .str r.resourceType),
    ("scopeId", textOrNull r.scopeId),
    ("resourceId", textOrNull r.resourceId), ("resourceName", textOrNull r.resourceName),
    ("displayUnit", textOrNull r.displayUnit)]

/-- `CAST(:document AS jsonb)` of an object that may be missing. -/
def castOptional : Option JsonObject → Tx (Option JsonObject)
  | none => pure none
  | some fields => some <$> castFields fields

/-- The document of a list of texts by name. -/
def textFields (items : List (String × String)) : JsonObject := items.map fun (key, s) => (key, .str s)

/-- What `add_event` serialises. -/
structure EventDocuments where
  labels : JsonObject
  annotations : JsonObject
  rawPayload : Json
  issue : JsonObject
  resource : Option JsonObject

/-- The row of a new event. -/
def CanonicalAlertEvent.row (event : CanonicalAlertEvent) (id deliveryId : Uuid) (receivedAt : Timestamp)
    (documents : EventDocuments) (validationErrors : List AlertValidationError) : AlertEvent where
  id := id
  observedAt := receivedAt
  sourceId := event.sourceId
  deliveryId := deliveryId
  fingerprint := event.fingerprint
  alertState := event.status
  validationStatus := if validationErrors = [] then .VALID else .VALIDATION_FAILED
  validationErrors := validationErrors
  startsAt := event.startsAt
  endsAt := event.endsAt
  labels := documents.labels
  annotations := documents.annotations
  rawPayload := documents.rawPayload
  provider := event.provider
  folderCode := event.folderCode
  alertName := event.alertName
  severityRaw := event.severity.raw
  severityCanonical := event.severity.canonical
  issue := documents.issue
  resource := documents.resource
  normalizationStatus := event.normalizationStatus
  normalizationRule := event.normalizationRule
  normalizationWarnings := event.normalizationWarnings

/-- `add_event`, with the validation status its caller derives from the errors. -/
def addEvent (deliveryId : Uuid) (receivedAt : Timestamp) (event : CanonicalAlertEvent) (rawPayload : Json)
    (validationErrors : List AlertValidationError) : Tx Uuid := do
  let eventId ← Program.stmt .uuid4
  let labels ← orRaise (dumpsFields event.labels)
  let labels ← castFields labels
  let annotations ← castFields (textFields event.annotations)
  let rawPayload ← castJsonb rawPayload
  let issue ← castFields (issueDocument event.issue)
  let resource ← castOptional (event.resource.map resourceDocument)
  let documents : EventDocuments := { labels, annotations, rawPayload, issue, resource }
  Program.stmt (.insertEvent (event.row eventId deliveryId receivedAt documents validationErrors))
  return eventId

/-- The row `upsert_instance` inserts. -/
def CanonicalAlertEvent.instanceRow (event : CanonicalAlertEvent) (eventId : Uuid) (receivedAt : Timestamp)
    (labels annotations : JsonObject) : AlertInstance where
  sourceId := event.sourceId
  fingerprint := event.fingerprint
  latestEventId := eventId
  state := event.status
  labels := labels
  annotations := annotations
  firstSeenAt := receivedAt
  lastSeenAt := receivedAt
  resolvedAt := if event.status = .RESOLVED then some receivedAt else none
  version := 1

/-- `upsert_instance`. -/
def upsertInstance (event : CanonicalAlertEvent) (eventId : Uuid) (receivedAt : Timestamp) : Tx Unit := do
  let labels ← castFields (plainFields event.labels)
  let annotations ← castFields (textFields event.annotations)
  Program.stmt (.upsertInstance (event.instanceRow eventId receivedAt labels annotations))

/-! ## Incidents and jobs -/

structure IncidentSelection where
  id : Uuid
  created : Bool

/-- What `get_or_create_active` is given. -/
structure IncidentValues where
  identity : IdentityRef
  provider : Provider
  folderCode : Option String
  alertName : Option String
  scope : IncidentScope
  title : String
  severity : String
  openedAt : Timestamp
  reopenedFromIncidentId : Option Uuid

/-- The row of a new incident. -/
def IncidentValues.row (v : IncidentValues) (id : Uuid) : Incident where
  id := id
  identity := v.identity
  provider := v.provider
  folderCode := v.folderCode
  alertName := v.alertName
  title := v.title
  severity := v.severity
  status := .OPEN
  alertState := .FIRING
  scope := v.scope
  openedAt := v.openedAt
  resolvedAt := none
  reopenedFromIncidentId := v.reopenedFromIncidentId
  version := 1
  createdAt := v.openedAt
  updatedAt := v.openedAt

/-- `get_or_create_active`. -/
def getOrCreateActive (v : IncidentValues) : Tx IncidentSelection := do
  let proposedId ← Program.stmt .uuid4
  match ← Program.stmt (.insertIncident (v.row proposedId)) with
  | some createdId => return ⟨createdId, true⟩
  | none =>
    match ← Program.stmt (.selectActive v.identity) with
    | some activeId => return ⟨activeId, false⟩
    | none => .raise

structure RcaWorkCreation where
  runId : Uuid
  outboxEventId : Option Uuid

/-- The row of a new run. -/
def newRun (id incidentId : Uuid) (availableAt : Timestamp) : RcaRun where
  id := id
  incidentId := incidentId
  status := .QUEUED
  startedAt := none
  completedAt := none
  createdAt := availableAt
  updatedAt := availableAt
  failureCode := none

/-- The row of a new job, with an empty payload. -/
def newJob (id runId : Uuid) (availableAt : Timestamp) : WorkerJob where
  id := id
  rcaRunId := runId
  status := .QUEUED
  payload := .obj []
  availableAt := availableAt
  startedAt := none
  completedAt := none
  createdAt := availableAt
  updatedAt := availableAt
  leaseOwner := none
  leaseExpiresAt := none
  attemptCount := 0

/-- `f"rca-run:{run_id}"`. -/
def idempotencyKey (runId : Uuid) : String := "rca-run:" ++ runId.text

/-- The row of a new outbox event. -/
def newOutboxEvent (id incidentId runId : Uuid) (payload : Json) (availableAt : Timestamp) : OutboxEvent where
  id := id
  aggregateId := incidentId
  eventType := "RCA_RUN_REQUESTED"
  payload := payload
  idempotencyKey := idempotencyKey runId
  status := .PENDING
  availableAt := availableAt
  publishedAt := none
  createdAt := availableAt

/-- `create_rca_work`, with the document `message.to_bytes()` writes for payload. -/
def createRcaWork (incidentId : Uuid) (availableAt : Timestamp) : Tx RcaWorkCreation := do
  let proposedRunId ← Program.stmt .uuid4
  match ← Program.stmt (.insertRun (newRun proposedRunId incidentId availableAt)) with
  | none =>
    match ← Program.stmt (.selectActiveRun incidentId) with
    | some existingRunId => return ⟨existingRunId, none⟩
    | none => .raise
  | some runId => do
    let proposedJobId ← Program.stmt .uuid4
    let inserted ← Program.stmt (.insertJob (newJob proposedJobId runId availableAt))
    let selected ← match inserted with
      | some id => pure (some id)
      | none => Program.stmt (.selectJob runId)
    let workerJobId ← orRaise selected
    let payload := Json.obj (RcaJobMessage.dump ⟨workerJobId, runId, incidentId⟩)
    Program.stmt (.updatePayload workerJobId payload)
    let proposedEventId ← Program.stmt .uuid4
    match ← Program.stmt
        (.insertOutboxEvent (newOutboxEvent proposedEventId incidentId runId payload availableAt)) with
    | some outboxEventId => return ⟨runId, some outboxEventId⟩
    | none =>
      match ← Program.stmt (.selectOutboxEvent (idempotencyKey runId)) with
      | some _ => return ⟨runId, none⟩
      | none => .raise

/-! ## `execute` -/

/-- A call of `execute`, with the rules and the scopes its providers hold for the source. -/
structure Call where
  sourceId : Uuid
  tokenId : String
  rawBody : List UInt8
  receivedAt : Timestamp
  engine : SafeRuleEngine
  scope : Option String → IncidentScope

structure IngestionResult where
  deliveryId : Uuid
  acceptedAt : Timestamp
  incidentIds : List Uuid
  outboxEventIds : List Uuid
  deriving DecidableEq

/-- `_title`. -/
def title (event : CanonicalAlertEvent) : String :=
  let summary := (JsonObject.get? event.annotations "summary").getD ""
  if summary ≠ "" then summary
  else
    match JsonObject.get? event.labels "alertname" with
    | some (.str s) => if s ≠ "" then s else "Grafana alert " ++ event.fingerprint
    | _ => "Grafana alert " ++ event.fingerprint

/-- What the loop of `execute` carries. -/
structure Progress where
  newEventCount : Nat
  hasInvalidAlert : Bool
  incidentIds : List Uuid
  outboxEventIds : List Uuid
  deriving DecidableEq

/-- One more event, its incident and the outbox event of its work. -/
def Progress.add (progress : Progress) (errors : List AlertValidationError)
    (incidentId outboxEventId : Option Uuid) :
    Progress where
  newEventCount := progress.newEventCount + 1
  hasInvalidAlert := progress.hasInvalidAlert || errors ≠ []
  incidentIds := progress.incidentIds ++ (incidentId.filter (· ∉ progress.incidentIds)).toList
  outboxEventIds := progress.outboxEventIds ++ outboxEventId.toList

/-- What a new incident is opened with. -/
def incidentValues (call : Call) (event : CanonicalAlertEvent) (identity : IncidentIdentity)
    (reopenedFrom : Option Uuid) :
    IncidentValues where
  identity := (identity.version, identity.key)
  provider := event.provider
  folderCode := event.folderCode
  alertName := event.alertName
  scope := call.scope event.folderCode
  title := title event
  severity := event.severity.canonical
  openedAt := call.receivedAt
  reopenedFromIncidentId := reopenedFrom

/-- The incident of an event and the outbox event of its new work. -/
def fileEvent (call : Call) (event : CanonicalAlertEvent) (identity : IncidentIdentity) (eventId : Uuid) :
    Tx (Option Uuid × Option Uuid) :=
  match event.status with
  | .FIRING => do
    let reopenedFrom ← Program.stmt (.selectLatestResolved (identity.version, identity.key))
    let selection ← getOrCreateActive (incidentValues call event identity reopenedFrom)
    Program.stmt (.insertLink ⟨selection.id, eventId⟩)
    if selection.created then do
      let work ← createRcaWork selection.id call.receivedAt
      return (some selection.id, work.outboxEventId)
    else do
      Program.stmt (.updateAlertState selection.id .FIRING call.receivedAt)
      return (some selection.id, none)
  | .RESOLVED => do
    match ← Program.stmt (.selectLatest (identity.version, identity.key)) with
    | some incidentId => do
      Program.stmt (.insertLink ⟨incidentId, eventId⟩)
      Program.stmt (.updateAlertState incidentId .RESOLVED call.receivedAt)
      return (some incidentId, none)
    | none => return (none, none)

/-- The errors of an event: of its provider and of its identity. -/
def validationErrors (event : CanonicalAlertEvent) (identity : IncidentIdentity) :
    List AlertValidationError :=
  (detectProvider (plainFields event.labels)).errors ++ identity.errors

/-- One turn of the loop of `execute`. -/
def ingestAlert (b : Backend) (call : Call) (deliveryId : Uuid) (event : CanonicalAlertEvent)
    (rawAlert : Json) (progress : Progress) : Tx Progress := do
  let identity ← orRaise (makeIncidentIdentityV2 b.toHashing call.sourceId event.folderCode event.alertName
    event.fingerprint)
  let errors := validationErrors event identity
  let claimed ← claimDedupKey call.sourceId event.dedupKey deliveryId
  if claimed = false then return progress
  else do
    let eventId ← addEvent deliveryId call.receivedAt event rawAlert errors
    upsertInstance event eventId call.receivedAt
    let (incidentId, outboxEventId) ← fileEvent call event identity eventId
    return progress.add errors incidentId outboxEventId

/-- The loop of `execute`. -/
def ingestAlerts (b : Backend) (call : Call) (deliveryId : Uuid) :
    List (CanonicalAlertEvent × Json) → Progress → Tx Progress
  | [], progress => pure progress
  | (event, rawAlert) :: rest, progress => do
    let progress ← ingestAlert b call deliveryId event rawAlert progress
    ingestAlerts b call deliveryId rest progress

/-- `json.loads(raw_body)["alerts"]`, if it lists as many alerts as were validated. The body passed the
validation, which refuses a string that is no text. -/
def rawAlerts (b : Backend) (rawBody : List UInt8) (count : Nat) : Option (Json × List Json) :=
  match (JsonBytes.loads b.toInterpreter rawBody).toOption.bind Json.text? with
  | some (.obj document) =>
    match JsonObject.get? document "alerts" with
    | some (.arr items) => if items.length = count then some (.obj document, items) else none
    | _ => none
  | _ => none

/-- The status of the finished delivery. -/
def Progress.status (progress : Progress) : DeliveryStatus :=
  if progress.hasInvalidAlert then .VALIDATION_FAILED else if progress.newEventCount ≠ 0 then .PROCESSED
    else .DUPLICATE

/-- What `execute` records of a delivery. -/
def deliveryValues (b : Backend) (call : Call) (webhook : GrafanaWebhook) (document : Json) :
    DeliveryValues where
  sourceId := call.sourceId
  tokenId := call.tokenId
  receivedAt := call.receivedAt
  bodyHash := b.hexdigest call.rawBody
  rawBody := call.rawBody
  rawPayload := document
  truncatedAlerts := webhook.truncatedAlerts.getD 0
  incomplete := webhook.truncatedAlerts.getD 0 ≠ 0

/-- The result of a call. -/
def Progress.result (progress : Progress) (call : Call) (deliveryId : Uuid) : IngestionResult :=
  ⟨deliveryId, call.receivedAt, progress.incidentIds, progress.outboxEventIds⟩

/-- `execute`, up to its commit. -/
def execute (b : Backend) (maxBodyBytes : Nat) (call : Call) : Tx IngestionResult :=
  match parseGrafanaBody b call.rawBody maxBodyBytes with
  | .invalid | .raised _ => .raise
  | .valid webhook => do
    let events := normalizeAlerts b.toHashing call.sourceId call.rawBody webhook call.engine
    let (document, rawAlerts) ← orRaise (rawAlerts b call.rawBody webhook.alerts.length)
    let deliveryId ← createDelivery (deliveryValues b call webhook document)
    let progress ← ingestAlerts b call deliveryId (events.zip rawAlerts) ⟨0, false, [], []⟩
    Program.stmt (.updateDelivery deliveryId progress.status call.receivedAt)
    return progress.result call deliveryId

/-- `_publish_new_events`: the events handed to the publisher, where there is one. -/
def handedEvents (publishing : Bool) (result : IngestionResult) : List Uuid :=
  if publishing then result.outboxEventIds else []

end SreAgent.Ingestion
