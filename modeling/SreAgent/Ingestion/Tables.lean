import SreAgent.Ingestion.Normalizer
import SreAgent.Lifecycle.Tables
import SreAgent.Outbox.Events

/-!
# Ingestion tables

The nine tables a webhook writes, with the columns ingestion writes or reads; runs, jobs and outbox
events are the rows the worker and the publisher go on with. A transaction is a list of writes; they
are applied to the rows that are committed when the transaction ends. `Key` are the unique keys and
the row locks of the schema.
-/

namespace SreAgent.Ingestion
open Base Alerts Outbox Lifecycle

/-- `webhook_deliveries.status`, as ingestion writes it. -/
inductive DeliveryStatus where
  | RECEIVED | PROCESSED | DUPLICATE | VALIDATION_FAILED
  deriving DecidableEq, Repr

structure WebhookDelivery where
  id : Uuid
  receivedAt : Timestamp
  sourceId : Uuid
  tokenId : String
  bodyHash : String
  rawBody : List UInt8
  rawPayload : Json
  truncatedAlerts : Int
  incomplete : Bool
  status : DeliveryStatus
  processedAt : Option Timestamp

structure IngestionDedupKey where
  sourceId : Uuid
  dedupKey : String
  deliveryId : Uuid
  deriving DecidableEq

/-- `alert_events.validation_status`. -/
inductive ValidationStatus where
  | VALID | VALIDATION_FAILED
  deriving DecidableEq, Repr

structure AlertEvent where
  id : Uuid
  observedAt : Timestamp
  sourceId : Uuid
  deliveryId : Uuid
  fingerprint : String
  alertState : AlertState
  validationStatus : ValidationStatus
  validationErrors : List AlertValidationError
  startsAt : Timestamp
  endsAt : Timestamp
  labels : JsonObject
  annotations : JsonObject
  rawPayload : Json
  provider : Provider
  folderCode : Option String
  alertName : Option String
  severityRaw : Option String
  severityCanonical : String
  issue : JsonObject
  resource : Option JsonObject
  normalizationStatus : NormalizationStatus
  normalizationRule : Option (Uuid × Nat)
  normalizationWarnings : List String

structure AlertInstance where
  sourceId : Uuid
  fingerprint : String
  latestEventId : Uuid
  state : AlertState
  labels : JsonObject
  annotations : JsonObject
  firstSeenAt : Timestamp
  lastSeenAt : Timestamp
  resolvedAt : Option Timestamp
  version : Nat

/-- `incidents.status`. -/
inductive IncidentStatus where
  | OPEN | INVESTIGATING | RESOLVED
  deriving DecidableEq, Repr

/-- The statuses of `uq_incidents_active_identity`. -/
def IncidentStatus.Active (s : IncidentStatus) : Prop := s = .OPEN ∨ s = .INVESTIGATING

instance (s : IncidentStatus) : Decidable s.Active := inferInstanceAs (Decidable (_ ∨ _))

structure IncidentScope where
  teamId : Option Uuid
  projectId : Option Uuid
  environmentId : Option Uuid
  serviceId : Option Uuid
  deriving DecidableEq

/-- `identity_version` and `identity_key`. -/
abbrev IdentityRef := Nat × String

structure Incident where
  id : Uuid
  identity : IdentityRef
  provider : Provider
  folderCode : Option String
  alertName : Option String
  title : String
  severity : String
  status : IncidentStatus
  alertState : AlertState
  scope : IncidentScope
  openedAt : Timestamp
  resolvedAt : Option Timestamp
  reopenedFromIncidentId : Option Uuid
  version : Nat
  createdAt : Timestamp
  updatedAt : Timestamp

structure IncidentAlert where
  incidentId : Uuid
  alertEventId : Uuid
  deriving DecidableEq

structure Tables where
  deliveries : List WebhookDelivery
  dedupKeys : List IngestionDedupKey
  events : List AlertEvent
  instances : List AlertInstance
  incidents : List Incident
  links : List IncidentAlert
  runs : List RcaRun
  jobs : List WorkerJob
  outboxEvents : List OutboxEvent

def Tables.empty : Tables := ⟨[], [], [], [], [], [], [], [], []⟩

/-! ## Writes -/

/-- The statuses of `uq_rca_runs_active_incident`. -/
def ActiveRun (s : RcaRunStatus) : Prop := s = .WAITING_FOR_CLASSIFICATION ∨ s = .QUEUED ∨ s = .RUNNING

instance (s : RcaRunStatus) : Decidable (ActiveRun s) := inferInstanceAs (Decidable (_ ∨ _))

/-- Unique keys and lockable rows. -/
inductive Key where
  | delivery (id : Uuid)
  | dedup (sourceId : Uuid) (dedupKey : String)
  | event (id : Uuid)
  | alertInstance (sourceId : Uuid) (fingerprint : String)
  | incident (id : Uuid)
  | activeIdentity (identity : IdentityRef)
  | link (incidentId eventId : Uuid)
  | run (id : Uuid)
  | activeRun (incidentId : Uuid)
  | job (id : Uuid)
  | jobOfRun (runId : Uuid)
  | outboxEvent (id : Uuid)
  | idempotency (key : String)
  deriving DecidableEq

/-- What one statement writes. -/
inductive Write where
  | insertDelivery (row : WebhookDelivery)
  | finishDelivery (id : Uuid) (status : DeliveryStatus) (processedAt : Timestamp)
  | insertDedupKey (row : IngestionDedupKey)
  | insertEvent (row : AlertEvent)
  | upsertInstance (row : AlertInstance)
  | insertIncident (row : Incident)
  | setAlertState (id : Uuid) (state : AlertState) (updatedAt : Timestamp)
  | insertLink (row : IncidentAlert)
  | insertRun (row : RcaRun)
  | insertJob (row : WorkerJob)
  | setPayload (jobId : Uuid) (payload : Json)
  | insertOutboxEvent (row : OutboxEvent)
  | lockRow (key : Key)

/-- `(source_id, fingerprint)`. -/
def AlertInstance.key (row : AlertInstance) : Uuid × String := (row.sourceId, row.fingerprint)

/-- `DO UPDATE SET` of `upsert_instance`. -/
def AlertInstance.update (excluded row : AlertInstance) : AlertInstance :=
  { row with
    latestEventId := excluded.latestEventId
    state := excluded.state
    labels := excluded.labels
    annotations := excluded.annotations
    lastSeenAt := excluded.lastSeenAt
    resolvedAt := excluded.resolvedAt
    version := row.version + 1 }

/-- `INSERT ... ON CONFLICT (source_id, fingerprint) DO UPDATE`. -/
def upsert (row : AlertInstance) (rows : List AlertInstance) : List AlertInstance :=
  if rows.any fun r => r.key = row.key then Table.updateWhere (fun r => r.key = row.key) row.update rows
  else rows ++ [row]

def WebhookDelivery.finish (status : DeliveryStatus) (processedAt : Timestamp) (row : WebhookDelivery) :
    WebhookDelivery :=
  { row with status, processedAt := some processedAt }

def Incident.setAlertState (state : AlertState) (updatedAt : Timestamp) (row : Incident) : Incident :=
  { row with alertState := state, updatedAt, version := row.version + 1 }

def Write.apply (t : Tables) : Write → Tables
  | .insertDelivery row => { t with deliveries := t.deliveries ++ [row] }
  | .finishDelivery id status processedAt =>
    { t with
      deliveries :=
        Table.updateWhere (fun r => r.id = id) (WebhookDelivery.finish status processedAt) t.deliveries }
  | .insertDedupKey row => { t with dedupKeys := t.dedupKeys ++ [row] }
  | .insertEvent row => { t with events := t.events ++ [row] }
  | .upsertInstance row => { t with instances := upsert row t.instances }
  | .insertIncident row => { t with incidents := t.incidents ++ [row] }
  | .setAlertState id state updatedAt =>
    { t with
      incidents :=
        Table.updateWhere (fun r => r.id = id) (Incident.setAlertState state updatedAt) t.incidents }
  | .insertLink row => { t with links := t.links ++ [row] }
  | .insertRun row => { t with runs := t.runs ++ [row] }
  | .insertJob row => { t with jobs := t.jobs ++ [row] }
  | .setPayload id payload =>
    { t with jobs := Table.updateWhere (fun r => r.id = id) (fun r => { r with payload }) t.jobs }
  | .insertOutboxEvent row => { t with outboxEvents := t.outboxEvents ++ [row] }
  | .lockRow _ => t

/-- The tables with the writes of a transaction. -/
def Tables.merge (t : Tables) (writes : List Write) : Tables := writes.foldl Write.apply t

/-- The keys of a new incident. -/
def Incident.keys (row : Incident) : List Key :=
  .incident row.id :: if row.status.Active then [.activeIdentity row.identity] else []

/-- The keys of a new run. -/
def runKeys (row : RcaRun) : List Key :=
  .run row.id :: if ActiveRun row.status then [.activeRun row.incidentId] else []

/-- The unique keys a write takes, the rows it locks. -/
def Write.keys : Write → List Key
  | .insertDelivery row => [.delivery row.id]
  | .finishDelivery id _ _ => [.delivery id]
  | .insertDedupKey row => [.dedup row.sourceId row.dedupKey]
  | .insertEvent row => [.event row.id]
  | .upsertInstance row => [.alertInstance row.sourceId row.fingerprint]
  | .insertIncident row => row.keys
  | .setAlertState id _ _ => [.incident id]
  | .insertLink row => [.link row.incidentId row.alertEventId]
  | .insertRun row => runKeys row
  | .insertJob row => [.job row.id, .jobOfRun row.rcaRunId]
  | .setPayload id _ => [.job id]
  | .insertOutboxEvent row => [.outboxEvent row.id, .idempotency row.idempotencyKey]
  | .lockRow key => [key]

/-- What a transaction holds until it ends. -/
def heldKeys (writes : List Write) : List Key := writes.flatMap Write.keys

@[simp] theorem Tables.merge_nil (t : Tables) : t.merge [] = t := rfl

/-- Writes are merged one after the other. -/
theorem Tables.merge_append (t : Tables) (writes more : List Write) :
    t.merge (writes ++ more) = (t.merge writes).merge more := List.foldl_append ..

@[simp] theorem heldKeys_append (writes more : List Write) :
    heldKeys (writes ++ more) = heldKeys writes ++ heldKeys more := List.flatMap_append ..

end SreAgent.Ingestion
