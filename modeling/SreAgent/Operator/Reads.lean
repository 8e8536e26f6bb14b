import Mathlib
import SreAgent.Base.Keyset
import SreAgent.Operator.Cursor
import SreAgent.Operator.Tables
import SreAgent.Trace.Stored

/-!
# Operator reads

The six queries of the operator repository. A query is its joins, row by row, then its condition, its
order and its limit; a `LATERAL` subquery with `LIMIT 1` is the first of its ordered rows.
-/

namespace SreAgent.Operator
open Base Iso Ingestion Lifecycle

/-- `LEFT JOIN`: the joined rows, or one row of `NULL`s. -/
def leftJoin {α : Type*} : List α → List (Option α)
  | [] => [none]
  | rows => rows.map some

/-- `one_or_none`: no row is `OperatorResourceNotFound`, several are an error. -/
def oneOrNone {α β : Type*} (read : α → Except OperatorError β) : List α → Except OperatorError β
  | [] => .error .resourceNotFound
  | [row] => read row
  | _ => .error .raised

/-- `dict(value)`; other documents than objects are not taken. -/
def toDict : Json → Except OperatorError JsonObject
  | .obj d => .ok d
  | _ => .error .raised

/-- `body[key]`. -/
def item (d : JsonObject) (key : String) : Except OperatorError Json :=
  match JsonObject.get? d key with
  | some v => .ok v
  | none => .error .raised

/-! ## What is returned -/

/-- `_incident`. -/
structure IncidentItem where
  incident : IncidentRow
  number : String
  rcaStatus : Option RcaRunStatus
  acknowledged : Bool
  assignee : Option (Uuid × Option String)

structure IncidentDetail where
  item : IncidentItem
  description : String
  alertIds : List Uuid
  rcaRunIds : List Uuid

structure AlertDetail where
  id : Uuid
  sourceId : Uuid
  incidentId : Uuid
  fingerprint : String
  title : String
  severity : String
  state : AlertState
  classified : Bool
  scope : IncidentScope
  startsAt : Instant
  endsAt : Option Instant
  updatedAt : Instant
  provider : Option Provider
  folderCode : Option String
  alertName : Option String
  severityRaw : Option String
  issue : JsonObject
  normalizationStatus : NormalizationStatus
  normalizationRule : Option (Uuid × Int)
  normalizationWarnings : List Json
  labels : JsonObject
  annotations : JsonObject
  generatorUrl : Option String

structure RunItem where
  run : RunRow
  runNumber : Nat
  reportId : Option Uuid

structure ReportDetail where
  id : Uuid
  rcaRunId : Uuid
  incidentId : Uuid
  reportVersion : Int
  status : Json
  summary : String
  rootCause : Json
  confidence : Json
  impact : Json
  recommendations : Json
  hypotheses : Json
  claims : Json
  createdAt : Instant

/-- `items` and `next_cursor`. -/
abbrev Page (α : Type) := List α × Option String

namespace Database

variable (db : Database) (identity : OperatorIdentity)

/-! ## Joined rows -/

/-- `(updated_at, id)`, `(created_at, id)` and `(observed_at, id)`, the order of the lists. -/
def position (instant : Instant) (id : Uuid) : Lex (Instant × Fin (2 ^ 128)) := toLex (instant, id.toFin)

/-- The cursor condition: `NULL`, or the row comparison with the instant and the identifier of the cursor. -/
def afterCursor (cursor : Option (AwareDatetime × Uuid)) (instant : Instant) (id : Uuid) : Bool :=
  cursor.all fun (timestamp, cursorId) =>
    (instant.val : Int) < timestamp.instant ∨ (instant.val : Int) = timestamp.instant ∧
      id.toNat < cursorId.toNat

/-- `assignee.id = incident.assigned_to`. -/
def assignees (incident : IncidentRow) : List Subject :=
  db.subjects.filter fun subject => some subject.id = incident.assignedTo

/-- `latest_rca`. -/
def latestRca (incident : IncidentRow) : List RunRow :=
  (Keyset.descending (fun run : RunRow => position run.createdAt run.id)
    (db.runs.filter fun run => run.incidentId = incident.id)).take 1

/-- The joins of `list_incidents` and `get_incident`. -/
def joinedIncidents : List (IncidentRow × Option Subject × Option RunRow) :=
  db.incidents.flatMap fun incident => (leftJoin (db.assignees incident)).flatMap fun assignee =>
    (leftJoin (db.latestRca incident)).map fun run => (incident, assignee, run)

/-- `_incident(row)`. -/
def incidentItem : IncidentRow × Option Subject × Option RunRow → IncidentItem
  | (incident, assignee, run) =>
    ⟨incident, "INC-" ++ toString incident.incidentNumber, run.map fun run => run.content.status,
      incident.acknowledgedAt.isSome,
      incident.assignedTo.map fun id => (id, assignee.bind Subject.displayName)⟩

/-- `min(max(limit, 1), 100)`. -/
def boundedLimit (limit : Int) : Nat := (min (max limit 1) 100).toNat

/-- The rows of a page, the cursor of the last of them if one more was found. -/
def toPage {ρ α : Type} (limit : Nat) (found : List ρ) (show_ : ρ → α) (instant : ρ → Instant)
    (id : ρ → Uuid) : Page α :=
  let pageRows := found.take limit
  (pageRows.map show_,
    if limit < found.length then pageRows.getLast?.map fun row => encodeCursor (.utc (instant row)) (id row)
      else none)

/-- `list_incidents`. -/
def listIncidents (cursor : Option String) (limit : Int) : Except OperatorError (Page IncidentItem) := do
  let cursor ← decodeCursor cursor
  let found :=
    (Keyset.descending (fun row : IncidentRow × Option Subject × Option RunRow =>
      position row.1.updatedAt row.1.id)
    (db.joinedIncidents.filter fun row => db.authorized identity row.1 &&
      afterCursor cursor row.1.updatedAt row.1.id)).take
      (boundedLimit limit + 1)
  return toPage (boundedLimit limit) found incidentItem (fun row => row.1.updatedAt) (fun row => row.1.id)

/-- The instances of the events linked to an incident; `DISTINCT` orders them. -/
def alertIds (incidentId : Uuid) : List Uuid :=
  let ids := (db.links.filter fun link => link.incidentId = incidentId).flatMap fun link =>
    (db.events.filter fun event => event.id = link.alertEventId).flatMap fun event =>
      (db.instances.filter fun row => row.sourceId = event.sourceId ∧
        row.fingerprint = event.fingerprint).map AlertInstanceRow.id
  ids.dedup.insertionSort (· ≤ ·)

/-- The runs of an incident by their creation. -/
def rcaRunIds (incidentId : Uuid) : List Uuid :=
  ((db.runs.filter fun run => run.incidentId = incidentId).insertionSort fun a b => a.createdAt ≤
    b.createdAt).map RunRow.id

/-- `get_incident`. -/
def getIncident (incidentId : Uuid) : Except OperatorError IncidentDetail :=
  oneOrNone (fun row => .ok ⟨incidentItem row, row.1.title, db.alertIds row.1.id, db.rcaRunIds row.1.id⟩)
    (db.joinedIncidents.filter fun row => row.1.id = incidentId && db.authorized identity row.1)

/-- The incidents linked to an event of the source and the fingerprint of an instance. -/
def linkedIncidents (row : AlertInstanceRow) : List IncidentRow :=
  db.links.flatMap fun link =>
    (db.events.filter fun event => event.id = link.alertEventId ∧ event.sourceId = row.sourceId ∧
      event.fingerprint = row.fingerprint).flatMap
      fun _ => db.incidents.filter fun incident => incident.id = link.incidentId

/-- The subquery `incident` of `get_alert`: the linked incident updated last. -/
def latestIncident (row : AlertInstanceRow) : List IncidentRow :=
  (Keyset.descending (fun incident : IncidentRow => position incident.updatedAt incident.id)
    (db.linkedIncidents row)).take 1

/-- The issue shown where there is none. -/
def noIssue : JsonObject :=
  [("rawText", .str ""), ("source", .str "grafana.annotations.AlertValues"),
    ("contentType", .str "text/plain"), ("untrusted", .bool true)]

/-- The answer of `get_alert`. -/
def alertDetail : AlertInstanceRow × AlertEventRow × IncidentRow → Except OperatorError AlertDetail
  | (row, event, incident) => do
    let labels ← toDict event.content.labels
    let annotations ← toDict event.content.annotations
    return {
      id := row.id
      sourceId := row.sourceId
      incidentId := incident.id
      fingerprint := row.fingerprint
      title := match event.content.alertName with
        | none | some "" => row.fingerprint
        | some name => name
      severity := match event.content.severityCanonical with
        | none | some "" => "UNMAPPED"
        | some severity => severity
      state := row.state
      classified := event.content.normalizationStatus = .NORMALIZED
      scope := incident.scope
      startsAt := event.content.startsAt.getD row.firstSeenAt
      endsAt := event.content.endsAt
      updatedAt := row.lastSeenAt
      provider := event.content.provider
      folderCode := event.content.folderCode
      alertName := event.content.alertName
      severityRaw := event.content.severityRaw
      issue := match event.content.issue with
        | none | some [] => noIssue
        | some issue => issue
      normalizationStatus := event.content.normalizationStatus
      normalizationRule := event.content.normalizationRule
      normalizationWarnings := event.content.normalizationWarnings
      labels, annotations
      generatorUrl := event.content.generatorUrl }

/-- `get_alert`. -/
def getAlert (alertId : Uuid) : Except OperatorError AlertDetail :=
  let joined :=
    db.instances.flatMap fun row =>
      (db.events.filter fun event => event.id = row.latestEventId).flatMap fun event =>
    (db.latestIncident row).map fun incident => (row, event, incident)
  oneOrNone alertDetail
    ((joined.filter fun row => row.1.id = alertId && db.authorized identity row.2.2).take 1)

/-- `report` of `list_rca_runs`: the newest report of a run. -/
def latestReport (run : RunRow) : List ReportRow :=
  ((db.reports.filter fun report => report.rcaRunId = run.id).insertionSort fun a b => b.version ≤
    a.version).take 1

/-- The rows of `list_rca_runs` with their `row_number()`, which counts the rows the condition lets
through. -/
def numberedRuns (incidentId : Uuid) (cursor : Option (AwareDatetime × Uuid)) :
    List (RunRow × Nat × Option ReportRow) :=
  let joined := db.runs.flatMap fun run => (leftJoin (db.latestReport run)).map fun report => (run, report)
  let rows :=
    joined.filter fun row => row.1.incidentId = incidentId && afterCursor cursor row.1.createdAt row.1.id
  (rows.insertionSort fun a b => position a.1.createdAt a.1.id ≤ position b.1.createdAt b.1.id).zipIdx.map
    fun ((run, report), index) => (run, index + 1, report)

/-- `list_rca_runs`. -/
def listRcaRuns (incidentId : Uuid) (cursor : Option String) (limit : Int) :
    Except OperatorError (Page RunItem) := do
  let _ ← db.getIncident identity incidentId
  let cursor ← decodeCursor cursor
  let found :=
    (Keyset.descending (fun row : RunRow × Nat × Option ReportRow => position row.1.createdAt row.1.id)
    (db.numberedRuns incidentId cursor)).take (boundedLimit limit + 1)
  return toPage (boundedLimit limit) found
    (fun (run, number, report) => ⟨run, number, report.map ReportRow.id⟩)
    (fun row => row.1.createdAt) (fun row => row.1.id)

/-- The answer of `get_rca_report`. -/
def reportDetail : ReportRow × RunRow → Except OperatorError ReportDetail
  | (report, run) => do
    let body ← toDict report.content.report
    let status ← item body "status"
    let rootCause ← item body "rootCause"
    let impact ← item body "impact"
    return ⟨report.id, report.rcaRunId, run.incidentId, report.version, status, report.content.summary,
      rootCause,
      (JsonObject.get? body "confidence").getD .null, impact,
      (JsonObject.get? body "recommendations").getD (.arr []),
      (JsonObject.get? body "hypotheses").getD (.arr []), (JsonObject.get? body "claims").getD (.arr []),
      report.content.createdAt⟩

/-- `get_rca_report`. -/
def getRcaReport (rcaRunId : Uuid) : Except OperatorError ReportDetail :=
  let joined :=
    db.reports.flatMap fun report => (db.runs.filter fun run => run.id = report.rcaRunId).flatMap fun run =>
    (db.incidents.filter fun incident => incident.id = run.incidentId).map fun incident =>
      (report, run, incident)
  oneOrNone (fun row => reportDetail (row.1, row.2.1))
    (((joined.filter fun row => row.1.rcaRunId = rcaRunId && db.authorized identity row.2.2).insertionSort
      fun a b => b.1.version ≤ a.1.version).take 1)

/-- `get_trace_waterfall`; `none` is `{"trace": None}`. -/
def getTraceWaterfall (rt : Trace.Runtime) (rcaRunId : Uuid) :
    Except OperatorError (Option Trace.StoredTraceWaterfall) :=
  let joined :=
    db.runs.flatMap fun run =>
      (db.incidents.filter fun incident => incident.id = run.incidentId).map fun incident => (run, incident)
  oneOrNone (fun _ =>
    match Keyset.descending (fun row : EvidenceRow => position row.observedAt row.id)
        (db.evidence.filter fun row => row.rcaRunId = rcaRunId ∧ row.sourceAgent = "TRACE") with
    | [] => .ok none
    | evidence :: _ =>
      match Trace.parseTraceWaterfall rt evidence.structuredData with
      | .ok trace => .ok trace
      | .error _ => .error .raised)
    (joined.filter fun row => row.1.id = rcaRunId && db.authorized identity row.2)

end Database

end SreAgent.Operator
