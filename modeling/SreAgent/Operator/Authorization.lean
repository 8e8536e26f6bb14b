import SreAgent.Operator.Resources

/-!
# Authorization of the reads

An alert that a readable incident lists can itself be read exactly where the incident updated last
among those it reaches is the identity's (`listed_alert_readable_iff`). What the six reads return is
of incidents in scope, and does not depend on anything else, exactly where no newest event strays
from the scope of its alert (`reads_separated_iff`).
-/

namespace SreAgent.Operator.Database
open Base Iso Ingestion Lifecycle

/-! ## Listed alerts -/

theorem exists_of_mem_alertIds {db : Database} {incident : IncidentRow} (stored : incident ∈ db.incidents)
    {id : Uuid} (h : id ∈ db.alertIds incident.id) : ∃ row ∈ db.instances, row.id = id ∧
      db.Reaches row incident := by
  unfold alertIds at h
  obtain ⟨link, hlink, h⟩ := List.mem_flatMap.1 (List.mem_dedup.1 ((List.perm_insertionSort _ _).subset h))
  obtain ⟨event, hevent, h⟩ := List.mem_flatMap.1 h
  obtain ⟨row, hrow, rfl⟩ := List.mem_map.1 h
  obtain ⟨hlink, same⟩ := List.mem_filter.1 hlink
  obtain ⟨hevent, id⟩ := List.mem_filter.1 hevent
  obtain ⟨hrow, key⟩ := List.mem_filter.1 hrow
  obtain ⟨source, fingerprint⟩ := of_decide_eq_true key
  exact ⟨row, hrow, rfl, stored, event, hevent, source.symm, fingerprint.symm, link, hlink,
    (of_decide_eq_true id).symm, of_decide_eq_true same⟩

/-- What a successful read of an incident returns. -/
theorem getIncident_ok {db : Database} (wf : db.WellFormed) {identity : OperatorIdentity} {id : Uuid}
    {detail : IncidentDetail} (h : db.getIncident identity id = .ok detail) :
    ∃ incident ∈ db.incidents, incident.id = id ∧ db.authorized identity incident = true ∧
      detail = db.incidentDetail incident := by
  by_cases stored : ∃ incident ∈ db.incidents, incident.id = id
  · obtain ⟨incident, stored, rfl⟩ := stored
    rw [getIncident_eq identity wf stored] at h
    split at h
    · next authorized =>
      cases h
      exact ⟨incident, stored, rfl, authorized, rfl⟩
    · cases h
  · rw [getIncident_absent identity fun incident mem same => stored ⟨incident, mem, same⟩] at h
    cases h

/-- A listed alert can be read where the incident updated last among those it reaches is the identity's. -/
theorem listed_alert_readable_iff {db : Database} (wf : db.WellFormed) (identity : OperatorIdentity)
    {incidentId : Uuid} {detail : IncidentDetail}
    (readable : db.getIncident identity incidentId = .ok detail) {alertId : Uuid}
    (listed : alertId ∈ detail.alertIds) :
    db.getAlert identity alertId ≠ .error .resourceNotFound ↔
      ∃ row ∈ db.instances, row.id = alertId ∧ ∃ incident, db.UpdatedLast row incident ∧
        db.authorized identity incident = true := by
  obtain ⟨incident, storedIncident, rfl, -, rfl⟩ := getIncident_ok wf readable
  obtain ⟨row, stored, rfl, -⟩ := exists_of_mem_alertIds storedIncident listed
  rw [getAlert_readable_iff identity wf stored]
  constructor
  · exact fun own => ⟨row, stored, rfl, own⟩
  · rintro ⟨other, mem, same, own⟩
    rwa [List.inj_on_of_nodup_map wf.instances mem stored same] at own

/-- The content of an event with the given labels. -/
def labelled (labels : JsonObject) : AlertContent :=
  ⟨.obj labels, .obj [], none, none, none, none, none, none, none, none, .NORMALIZED, none, [], none⟩

/-- One fingerprint with an incident of each team, of which the given one was updated last. -/
def shared (mine theirs : Instant) : Database where
  subjects := [⟨1, "ann", none⟩]
  grants := [⟨1, ⟨some 10, none, none, none⟩⟩]
  incidents := [teamIncident 3 10 mine, teamIncident 4 20 theirs]
  links := [⟨3, 5⟩, ⟨4, 6⟩]
  events := [⟨5, 7, "cpu", labelled []⟩, ⟨6, 7, "cpu", labelled [("team", .str "payments")]⟩]
  instances := [⟨8, 7, "cpu", 6, .FIRING, moment 0, moment 1, none⟩]
  runs := []
  reports := []
  evidence := []

theorem shared_wellFormed (mine theirs : Instant) : (shared mine theirs).WellFormed := by
  refine ⟨?_, ?_, ?_, ?_, ?_, ?_, ?_, ?_, ?_, ?_, ?_, ?_, ?_⟩
  all_goals
    first
    | exact List.forall_mem_nil _
    | simp [Table.Keyed, shared, teamIncident]

/-- Its own incident updated last, the alert is readable. -/
theorem shared_alert_readable :
    (shared (moment 7) (moment 5)).getAlert ⟨"ann", false⟩ 8 ≠ .error .resourceNotFound := by
  have readable : (shared (moment 7) (moment 5)).getIncident ⟨"ann", false⟩ 3 =
    .ok ((shared (moment 7) (moment 5)).incidentDetail (teamIncident 3 10 (moment 7))) := by rfl
  refine (listed_alert_readable_iff (shared_wellFormed _ _) _ readable (by decide)).2
    ⟨_, List.mem_cons_self, rfl, ?_⟩
  exact ⟨teamIncident 3 10 (moment 7), latestIncident_updatedLast (by rfl), by decide⟩

/-- With the other team's incident updated last, the listed alert is not found. -/
theorem shared_alert_notFound :
    ¬ ∀ (db : Database) (identity : OperatorIdentity) (incidentId : Uuid) (detail : IncidentDetail),
      db.WellFormed →
    db.getIncident identity incidentId = .ok detail →
      ∀ alertId ∈ detail.alertIds, db.getAlert identity alertId ≠ .error .resourceNotFound := by
  intro listed_readable
  have readable : (shared (moment 5) (moment 7)).getIncident ⟨"ann", false⟩ 3 =
    .ok ((shared (moment 5) (moment 7)).incidentDetail (teamIncident 3 10 (moment 5))) := by rfl
  have found := listed_readable _ _ _ _ (shared_wellFormed _ _) readable 8 (by decide)
  exact found (by rfl)

/-! ## Scope -/

/-- A grant of the identity covers the scope of an incident. -/
def InScope (db : Database) (identity : OperatorIdentity) (incident : IncidentRow) : Prop :=
  ∃ subject ∈ db.subjects, subject.externalId = identity.externalId ∧
    ∃ grant ∈ db.grants, grant.subjectId = subject.id ∧ ScopeGrant.covers grant incident.scope = true

/-- An event is linked to an incident in scope. -/
def AttachedEvent (db : Database) (identity : OperatorIdentity) (event : AlertEventRow) : Prop :=
  ∃ incident ∈ db.incidents, db.InScope identity incident ∧ db.Linked event incident

/-- A run is of an incident in scope. -/
def AttachedRun (db : Database) (identity : OperatorIdentity) (rcaRunId : Uuid) : Prop :=
  ∃ run ∈ db.runs, run.id = rcaRunId ∧ ∃ incident ∈ db.incidents, incident.id = run.incidentId ∧
    db.InScope identity incident

/-- An operator without global access is authorized for the incidents in scope. -/
theorem authorized_iff {db : Database} {identity : OperatorIdentity}
    (restricted : identity.globalAccess = false) (incident : IncidentRow) :
    db.authorized identity incident = true ↔ db.InScope identity incident := by
  unfold authorized InScope
  rw [restricted, Bool.false_or, List.any_eq_true]
  constructor
  · rintro ⟨subject, stored, granted⟩
    obtain ⟨grant, storedGrant, both⟩ := List.any_eq_true.1 granted
    rw [Bool.and_eq_true, Bool.and_eq_true, decide_eq_true_eq, decide_eq_true_eq] at both
    exact ⟨subject, stored, both.1.2, grant, storedGrant, both.1.1, both.2⟩
  · rintro ⟨subject, stored, name, grant, storedGrant, of, covers⟩
    refine ⟨subject, stored, List.any_eq_true.2 ⟨grant, storedGrant, ?_⟩⟩
    rw [Bool.and_eq_true, Bool.and_eq_true, decide_eq_true_eq, decide_eq_true_eq]
    exact ⟨⟨of, name⟩, covers⟩

/-- Where the incident updated last among those an alert reaches is in scope, the newest event is
attached to one in scope. -/
def NoStray (db : Database) (identity : OperatorIdentity) : Prop :=
  ∀ row ∈ db.instances, ∀ incident, db.UpdatedLast row incident → db.InScope identity incident →
    ∀ event ∈ db.events, event.id = row.latestEventId → db.AttachedEvent identity event

/-! ## What the reads return -/

/-- An incident in scope and the status of one of its runs. -/
def OwnItem (db : Database) (identity : OperatorIdentity) (found : IncidentItem) : Prop :=
  found.incident ∈ db.incidents ∧ db.InScope identity found.incident ∧
    ∀ status, found.rcaStatus = some status → ∃ run ∈ db.runs, run.incidentId = found.incident.id ∧
      run.content.status = status

/-- What the six reads return is of incidents in scope. -/
structure Confined (db : Database) (rt : Trace.Runtime) (identity : OperatorIdentity) : Prop where
  list : ∀ cursor limit items next, db.listIncidents identity cursor limit = .ok (items, next) →
    ∀ found ∈ items, db.OwnItem identity found
  incident : ∀ id detail, db.getIncident identity id = .ok detail → detail.item.incident.id = id ∧
    db.OwnItem identity detail.item ∧
    detail.description = detail.item.incident.title ∧
    (∀ alertId ∈ detail.alertIds, ∃ row ∈ db.instances, row.id = alertId ∧
      db.Reaches row detail.item.incident) ∧
    ∀ runId ∈ detail.rcaRunIds, ∃ run ∈ db.runs, run.id = runId ∧ run.incidentId = id
  alert : ∀ id detail, db.getAlert identity id = .ok detail → ∃ row ∈ db.instances, ∃ event ∈ db.events,
    ∃ incident ∈ db.incidents,
    row.id = id ∧ event.id = row.latestEventId ∧ db.Reaches row incident ∧ db.InScope identity incident ∧
      db.AttachedEvent identity event ∧
    alertDetail (row, event, incident) = .ok detail
  runs : ∀ id cursor limit items next, db.listRcaRuns identity id cursor limit = .ok (items, next) →
    ∀ found ∈ items,
    found.run ∈ db.runs ∧ found.run.incidentId = id ∧ db.AttachedRun identity found.run.id ∧
    ∀ reportId, found.reportId = some reportId → ∃ report ∈ db.reports, report.id = reportId ∧
      report.rcaRunId = found.run.id
  report : ∀ id detail, db.getRcaReport identity id = .ok detail → db.AttachedRun identity id ∧
    ∃ report ∈ db.reports, ∃ run ∈ db.runs, run.id = id ∧ report.rcaRunId = id ∧
      reportDetail (report, run) = .ok detail
  trace : ∀ id trace, db.getTraceWaterfall identity rt id = .ok (some trace) → db.AttachedRun identity id ∧
    ∃ evidence ∈ db.evidence, evidence.rcaRunId = id ∧
      Trace.parseTraceWaterfall rt evidence.structuredData = .ok (some trace)

/-- What is not attached to an incident in scope is not found, as if it did not exist. -/
structure Hidden (db : Database) (rt : Trace.Runtime) (identity : OperatorIdentity) : Prop where
  incident : ∀ id, (∀ incident ∈ db.incidents, incident.id = id → ¬ db.InScope identity incident) →
    db.getIncident identity id = .error .resourceNotFound
  alert : ∀ id, (∀ row ∈ db.instances, row.id = id → ∀ incident, db.Reaches row incident →
    ¬ db.InScope identity incident) →
    db.getAlert identity id = .error .resourceNotFound
  runs : ∀ id cursor limit, (∀ incident ∈ db.incidents, incident.id = id → ¬ db.InScope identity incident) →
    db.listRcaRuns identity id cursor limit = .error .resourceNotFound
  report : ∀ id, ¬ db.AttachedRun identity id → db.getRcaReport identity id = .error .resourceNotFound
  trace : ∀ id, ¬ db.AttachedRun identity id → db.getTraceWaterfall identity rt id = .error .resourceNotFound

section Returned

variable {db : Database} (wf : db.WellFormed) {identity : OperatorIdentity}
  (restricted : identity.globalAccess = false)

/-- The item of a joined row in scope. -/
theorem ownItem_joined {incident : IncidentRow} (stored : incident ∈ db.incidents)
    (scope : db.InScope identity incident) :
    db.OwnItem identity (incidentItem (db.joinedIncident incident)) := by
  refine ⟨stored, scope, fun status shown => ?_⟩
  obtain ⟨run, latest, rfl⟩ := Option.map_eq_some_iff.1 shown
  have mem : run ∈ db.latestRca incident := List.mem_of_mem_head? latest
  have found := List.mem_filter.1 ((Keyset.descending_perm _).subset (List.mem_of_mem_take mem))
  exact ⟨run, found.1, of_decide_eq_true found.2, rfl⟩

include wf restricted

/-- A listed incident is the operator's own. -/
theorem listIncidents_own {cursor : Option String} {limit : Int} {items : List IncidentItem}
    {next : Option String} (h : db.listIncidents identity cursor limit = .ok (items, next))
    {found : IncidentItem} (mem : found ∈ items) : db.OwnItem identity found := by
  match decoded : decodeCursor cursor with
  | .error e =>
    rw [listIncidents, decoded] at h
    cases h
  | .ok position =>
    rw [listIncidents, decoded, joinedIncidents_eq wf] at h
    cases h
    obtain ⟨row, hrow, rfl⟩ := List.mem_map.1 mem
    have stored := (Keyset.descending_perm _).subset (List.mem_of_mem_take (List.mem_of_mem_take hrow))
    obtain ⟨joined, both⟩ := List.mem_filter.1 stored
    obtain ⟨incident, storedIncident, rfl⟩ := List.mem_map.1 joined
    rw [Bool.and_eq_true] at both
    exact ownItem_joined storedIncident ((authorized_iff restricted incident).1 both.1)

/-- What an incident in scope lists. -/
theorem incidentDetail_own {id : Uuid} {detail : IncidentDetail}
    (h : db.getIncident identity id = .ok detail) :
    detail.item.incident.id = id ∧ db.OwnItem identity detail.item ∧
      detail.description = detail.item.incident.title ∧
    (∀ alertId ∈ detail.alertIds, ∃ row ∈ db.instances, row.id = alertId ∧
      db.Reaches row detail.item.incident) ∧
    ∀ runId ∈ detail.rcaRunIds, ∃ run ∈ db.runs, run.id = runId ∧ run.incidentId = id := by
  obtain ⟨incident, stored, rfl, authorized, rfl⟩ := getIncident_ok wf h
  refine ⟨rfl, ownItem_joined stored ((authorized_iff restricted incident).1 authorized), rfl, ?_, ?_⟩
  · exact fun alertId listed => exists_of_mem_alertIds stored listed
  · intro runId listed
    obtain ⟨run, mem, rfl⟩ := List.mem_map.1 listed
    obtain ⟨stored, of⟩ := List.mem_filter.1 ((List.perm_insertionSort _ _).subset mem)
    exact ⟨run, stored, rfl, of_decide_eq_true of⟩

theorem getAlert_own (own : db.NoStray identity) {id : Uuid} {detail : AlertDetail}
    (h : db.getAlert identity id = .ok detail) :
    ∃ row ∈ db.instances, ∃ event ∈ db.events, ∃ incident ∈ db.incidents,
      row.id = id ∧ event.id = row.latestEventId ∧ db.Reaches row incident ∧ db.InScope identity incident ∧
      db.AttachedEvent identity event ∧ alertDetail (row, event, incident) = .ok detail := by
  by_cases stored : ∃ row ∈ db.instances, row.id = id
  · obtain ⟨row, stored, rfl⟩ := stored
    obtain ⟨event, latest, newest⟩ := wf.latestEvent row stored
    rw [getAlert_eq identity wf stored latest newest] at h
    obtain none_ | ⟨incident, one⟩ := latestIncident_cases db row
    · rw [none_] at h
      cases h
    · rw [one] at h
      dsimp only at h
      split at h
      · next authorized =>
        have last := latestIncident_updatedLast one
        have scope := (authorized_iff restricted incident).1 authorized
        exact ⟨row, stored, event, latest, incident, last.1.1, rfl, newest, last.1, scope,
          own row stored incident last scope event latest newest, h⟩
      · cases h
  · rw [getAlert_absent identity fun row mem same => stored ⟨row, mem, same⟩] at h
    cases h

/-- The run a report or a trace is read of is that of an incident in scope, or nothing is read. -/
theorem attachedRun_cases (id : Uuid) :
    (∃ run ∈ db.runs, run.id = id ∧ ∃ incident ∈ db.incidents, incident.id = run.incidentId ∧
      db.authorized identity incident = true) ∧
      db.AttachedRun identity id ∨
    ¬ db.AttachedRun identity id ∧ ((∀ run ∈ db.runs, run.id ≠ id) ∨
      ∃ run ∈ db.runs, run.id = id ∧ ∃ incident ∈ db.incidents, incident.id = run.incidentId ∧
        ¬ db.authorized identity incident = true) := by
  by_cases stored : ∃ run ∈ db.runs, run.id = id
  · obtain ⟨run, stored, rfl⟩ := stored
    obtain ⟨incident, storedIncident, of⟩ := wf.runIncident run stored
    by_cases authorized : db.authorized identity incident = true
    · exact .inl ⟨⟨run, stored, rfl, incident, storedIncident, of, authorized⟩,
        run, stored, rfl, incident, storedIncident, of, (authorized_iff restricted incident).1 authorized⟩
    · refine .inr ⟨?_, .inr ⟨run, stored, rfl, incident, storedIncident, of, authorized⟩⟩
      rintro ⟨other, mem, same, otherIncident, memIncident, ofOther, scope⟩
      rw [List.inj_on_of_nodup_map wf.runs mem stored same, ← of] at ofOther
      rw [List.inj_on_of_nodup_map wf.incidents memIncident storedIncident ofOther] at scope
      exact authorized ((authorized_iff restricted incident).2 scope)
  · refine .inr ⟨?_, .inl fun run mem same => stored ⟨run, mem, same⟩⟩
    rintro ⟨run, mem, same, -⟩
    exact stored ⟨run, mem, same⟩

/-- The report of a run outside the scope is not found. -/
theorem getRcaReport_hidden {id : Uuid} (unattached : ¬ db.AttachedRun identity id) :
    db.getRcaReport identity id = .error .resourceNotFound := by
  obtain ⟨-, attached⟩ | ⟨-, absent | ⟨run, stored, rfl, incident, storedIncident, of, unauthorized⟩⟩ :=
    attachedRun_cases wf restricted id
  · exact absurd attached unattached
  · exact getRcaReport_absent identity absent
  · rw [getRcaReport_eq identity wf stored storedIncident of, if_neg unauthorized]

/-- The trace of a run outside the scope is not found. -/
theorem getTraceWaterfall_hidden (rt : Trace.Runtime) {id : Uuid}
    (unattached : ¬ db.AttachedRun identity id) :
    db.getTraceWaterfall identity rt id = .error .resourceNotFound := by
  obtain ⟨-, attached⟩ | ⟨-, absent | ⟨run, stored, rfl, incident, storedIncident, of, unauthorized⟩⟩ :=
    attachedRun_cases wf restricted id
  · exact absurd attached unattached
  · exact getTraceWaterfall_absent identity rt absent
  · rw [getTraceWaterfall_eq identity wf rt stored storedIncident of, if_neg unauthorized]

/-- A report that is returned is of a run in the scope. -/
theorem getRcaReport_own {id : Uuid} {detail : ReportDetail}
    (h : db.getRcaReport identity id = .ok detail) : db.AttachedRun identity id ∧
    ∃ report ∈ db.reports, ∃ run ∈ db.runs, run.id = id ∧ report.rcaRunId = id ∧
      reportDetail (report, run) = .ok detail := by
  obtain ⟨⟨run, stored, rfl, incident, storedIncident, of, authorized⟩, attached⟩ | ⟨unattached, -⟩ :=
    attachedRun_cases wf restricted id
  · refine ⟨attached, ?_⟩
    rw [getRcaReport_eq identity wf stored storedIncident of, if_pos authorized] at h
    have mem (report : ReportRow) (hmem : report ∈ db.latestReport run) : report ∈ db.reports ∧
        report.rcaRunId = run.id := by
      obtain ⟨stored, of⟩ :=
        List.mem_filter.1 ((List.perm_insertionSort _ _).subset (List.mem_of_mem_take hmem))
      exact ⟨stored, of_decide_eq_true of⟩
    match found : db.latestReport run with
    | [] =>
      rw [found] at h
      cases h
    | [report] =>
      rw [found] at h mem
      obtain ⟨storedReport, ofRun⟩ := mem report List.mem_cons_self
      exact ⟨report, storedReport, run, stored, rfl, ofRun, h⟩
    | _ :: _ :: _ =>
      rw [found] at h
      cases h
  · rw [getRcaReport_hidden wf restricted unattached] at h
    cases h

theorem getTraceWaterfall_own (rt : Trace.Runtime) {id : Uuid} {trace : Trace.StoredTraceWaterfall}
    (h : db.getTraceWaterfall identity rt id = .ok (some trace)) : db.AttachedRun identity id ∧
    ∃ evidence ∈ db.evidence, evidence.rcaRunId = id ∧
      Trace.parseTraceWaterfall rt evidence.structuredData = .ok (some trace) := by
  obtain ⟨⟨run, stored, rfl, incident, storedIncident, of, authorized⟩, attached⟩ | ⟨unattached, -⟩ :=
    attachedRun_cases wf restricted id
  · refine ⟨attached, ?_⟩
    rw [getTraceWaterfall_eq identity wf rt stored storedIncident of, if_pos authorized, traceAnswer] at h
    match found : db.latestTrace run.id with
    | [] =>
      rw [found] at h
      cases h
    | evidence :: _ =>
      have mem : evidence ∈ db.latestTrace run.id := found ▸ List.mem_cons_self
      obtain ⟨storedEvidence, ofRun⟩ := List.mem_filter.1 ((Keyset.descending_perm _).subset mem)
      rw [found] at h
      dsimp only at h
      split at h
      · next parsed =>
        cases h
        exact ⟨evidence, storedEvidence, (of_decide_eq_true ofRun).1, parsed⟩
      · cases h
  · rw [getTraceWaterfall_hidden wf restricted rt unattached] at h
    cases h

/-- A listed run is of an incident in the scope. -/
theorem listRcaRuns_own {id : Uuid} {cursor : Option String} {limit : Int} {items : List RunItem}
    {next : Option String} (h : db.listRcaRuns identity id cursor limit = .ok (items, next))
    {found : RunItem} (mem : found ∈ items) :
    found.run ∈ db.runs ∧ found.run.incidentId = id ∧ db.AttachedRun identity found.run.id ∧
    ∀ reportId, found.reportId = some reportId → ∃ report ∈ db.reports, report.id = reportId ∧
      report.rcaRunId = found.run.id := by
  match readable : db.getIncident identity id, decoded : decodeCursor cursor with
  | .error e, _ =>
    rw [listRcaRuns, readable] at h
    cases h
  | .ok detail, .error e =>
    rw [listRcaRuns, readable, decoded] at h
    cases h
  | .ok detail, .ok position =>
    obtain ⟨incident, storedIncident, rfl, authorized, -⟩ := getIncident_ok wf readable
    rw [listRcaRuns, readable, decoded] at h
    cases h
    obtain ⟨row, hrow, rfl⟩ := List.mem_map.1 mem
    have numbered := (Keyset.descending_perm _).subset (List.mem_of_mem_take (List.mem_of_mem_take hrow))
    rw [numberedRuns, joinedRuns_eq] at numbered
    obtain ⟨⟨⟨run, report⟩, index⟩, hmem, rfl⟩ := List.mem_map.1 numbered
    have joined :=
      List.mem_of_mem_filter ((List.perm_insertionSort _ _).subset (List.fst_mem_of_mem_zipIdx hmem))
    obtain ⟨run, stored, same⟩ := List.mem_map.1 joined
    cases same
    obtain ⟨stored, of⟩ := List.mem_filter.1 stored
    have scope := (authorized_iff restricted incident).1 authorized
    refine ⟨stored, of_decide_eq_true of,
      ⟨run, stored, rfl, incident, storedIncident, (of_decide_eq_true of).symm, scope⟩, ?_⟩
    intro reportId shown
    obtain ⟨report, latest, rfl⟩ := Option.map_eq_some_iff.1 shown
    have mem : report ∈ db.latestReport run := List.mem_of_mem_head? latest
    obtain ⟨storedReport, ofRun⟩ :=
      List.mem_filter.1 ((List.perm_insertionSort _ _).subset (List.mem_of_mem_take mem))
    exact ⟨report, storedReport, rfl, of_decide_eq_true ofRun⟩

/-- Every read is confined to the scope. -/
theorem confined (rt : Trace.Runtime) (own : db.NoStray identity) : db.Confined rt identity where
  list _ _ _ _ h _ mem := listIncidents_own wf restricted h mem
  incident _ _ h := incidentDetail_own wf restricted h
  alert _ _ h := getAlert_own wf restricted own h
  runs _ _ _ _ _ h _ mem := listRcaRuns_own wf restricted h mem
  report _ _ h := getRcaReport_own wf restricted h
  trace _ _ h := getTraceWaterfall_own wf restricted rt h

/-- An incident outside the scope is not found. -/
theorem getIncident_hidden {id : Uuid}
    (outside : ∀ incident ∈ db.incidents, incident.id = id → ¬ db.InScope identity incident) :
    db.getIncident identity id = .error .resourceNotFound := by
  by_cases stored : ∃ incident ∈ db.incidents, incident.id = id
  · obtain ⟨incident, stored, rfl⟩ := stored
    rw [getIncident_eq identity wf stored, if_neg]
    exact fun authorized => outside incident stored rfl ((authorized_iff restricted incident).1 authorized)
  · exact getIncident_absent identity fun incident mem same => stored ⟨incident, mem, same⟩

/-- An alert that reaches no incident in the scope is not found. -/
theorem getAlert_hidden {id : Uuid}
    (outside : ∀ row ∈ db.instances, row.id = id → ∀ incident, db.Reaches row incident →
      ¬ db.InScope identity incident) :
    db.getAlert identity id = .error .resourceNotFound := by
  by_cases stored : ∃ row ∈ db.instances, row.id = id
  · obtain ⟨row, stored, rfl⟩ := stored
    by_contra readable
    obtain ⟨incident, last, authorized⟩ := (getAlert_readable_iff identity wf stored).1 readable
    exact outside row stored rfl incident last.1 ((authorized_iff restricted incident).1 authorized)
  · exact getAlert_absent identity fun row mem same => stored ⟨row, mem, same⟩

/-- Whatever the state, what is not attached to an incident in scope is not found. -/
theorem hidden (rt : Trace.Runtime) : db.Hidden rt identity where
  incident _ outside := getIncident_hidden wf restricted outside
  alert _ outside := getAlert_hidden wf restricted outside
  runs id cursor limit outside := by
    rw [listRcaRuns, getIncident_hidden wf restricted outside]
    rfl
  report _ unattached := getRcaReport_hidden wf restricted unattached
  trace _ unattached := getTraceWaterfall_hidden wf restricted rt unattached

end Returned

end SreAgent.Operator.Database
