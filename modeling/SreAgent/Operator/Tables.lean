import SreAgent.Base.Datetime
import SreAgent.Ingestion.Tables
import SreAgent.Operator.Identity

/-!
# Tables the operator reads

The rows of the twelve tables the operator queries join, with the columns they select; a `TIMESTAMPTZ`
is an instant of the years 1 to 9999. `WellFormed` are the primary keys, unique keys and foreign keys of
the migrations that the joins meet.
-/

namespace SreAgent.Operator
open Base Iso Ingestion Lifecycle

structure Subject where
  id : Uuid
  externalId : String
  displayName : Option String

structure ScopeGrant where
  subjectId : Uuid
  scope : IncidentScope

structure IncidentRow where
  id : Uuid
  incidentNumber : Int
  title : String
  severity : String
  status : IncidentStatus
  alertState : AlertState
  provider : Option Provider
  folderCode : Option String
  alertName : Option String
  scope : IncidentScope
  acknowledgedAt : Option Instant
  acknowledgedBy : Option Uuid
  assignedTo : Option Uuid
  openedAt : Instant
  updatedAt : Instant
  resolvedAt : Option Instant
  version : Int

/-- The columns of an alert event that are shown; `generatorUrl` is `raw_payload ->> 'generatorURL'`. -/
structure AlertContent where
  labels : Json
  annotations : Json
  startsAt : Option Instant
  endsAt : Option Instant
  provider : Option Provider
  folderCode : Option String
  alertName : Option String
  severityRaw : Option String
  severityCanonical : Option String
  issue : Option JsonObject
  normalizationStatus : NormalizationStatus
  normalizationRule : Option (Uuid × Int)
  normalizationWarnings : List Json
  generatorUrl : Option String

structure AlertEventRow where
  id : Uuid
  sourceId : Uuid
  fingerprint : String
  content : AlertContent

structure AlertInstanceRow where
  id : Uuid
  sourceId : Uuid
  fingerprint : String
  latestEventId : Uuid
  state : AlertState
  firstSeenAt : Instant
  lastSeenAt : Instant
  resolvedAt : Option Instant

/-- The columns of a run besides its keys and its creation. -/
structure RunContent where
  status : RcaRunStatus
  startedAt : Option Instant
  completedAt : Option Instant
  updatedAt : Instant
  failureCode : Option LifecycleFailureCode

structure RunRow where
  id : Uuid
  incidentId : Uuid
  createdAt : Instant
  content : RunContent

/-- The columns of a report besides its keys. -/
structure ReportContent where
  summary : String
  report : Json
  createdAt : Instant

structure ReportRow where
  id : Uuid
  rcaRunId : Uuid
  version : Int
  content : ReportContent

structure EvidenceRow where
  id : Uuid
  rcaRunId : Uuid
  sourceAgent : String
  observedAt : Instant
  structuredData : Json

structure Database where
  subjects : List Subject
  grants : List ScopeGrant
  incidents : List IncidentRow
  links : List IncidentAlert
  events : List AlertEventRow
  instances : List AlertInstanceRow
  runs : List RunRow
  reports : List ReportRow
  evidence : List EvidenceRow

namespace Database

variable (db : Database)

/-- The keys of the schema. -/
structure WellFormed : Prop where
  subjects : Table.Keyed Subject.id db.subjects
  incidents : Table.Keyed IncidentRow.id db.incidents
  events : Table.Keyed AlertEventRow.id db.events
  instances : Table.Keyed AlertInstanceRow.id db.instances
  runs : Table.Keyed RunRow.id db.runs
  reports : Table.Keyed ReportRow.id db.reports
  reportVersions : Table.Keyed (fun row : ReportRow => (row.rcaRunId, row.version)) db.reports
  evidence : Table.Keyed EvidenceRow.id db.evidence
  linkIncident : ∀ link ∈ db.links, ∃ incident ∈ db.incidents, incident.id = link.incidentId
  linkEvent : ∀ link ∈ db.links, ∃ event ∈ db.events, event.id = link.alertEventId
  latestEvent : ∀ row ∈ db.instances, ∃ event ∈ db.events, event.id = row.latestEventId
  runIncident : ∀ run ∈ db.runs, ∃ incident ∈ db.incidents, incident.id = run.incidentId
  reportRun : ∀ report ∈ db.reports, ∃ run ∈ db.runs, run.id = report.rcaRunId

/-- `=` of two columns that may be `NULL`, where it decides a condition. -/
def sqlEq (a b : Option Uuid) : Bool := a.isSome && a = b

/-- A grant covers the scope of an incident. -/
def ScopeGrant.covers (grant : ScopeGrant) (scope : IncidentScope) : Bool :=
  sqlEq grant.scope.teamId scope.teamId || sqlEq grant.scope.projectId scope.projectId ||
    sqlEq grant.scope.environmentId scope.environmentId || sqlEq grant.scope.serviceId scope.serviceId

/-- `_AUTHORIZED_INCIDENT`. -/
def authorized (identity : OperatorIdentity) (incident : IncidentRow) : Bool :=
  identity.globalAccess ||
    db.subjects.any fun subject => db.grants.any fun grant =>
      grant.subjectId = subject.id && subject.externalId = identity.externalId &&
        ScopeGrant.covers grant incident.scope

end Database

end SreAgent.Operator
