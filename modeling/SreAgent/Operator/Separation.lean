import SreAgent.Operator.Authorization
import SreAgent.Trace.Agreement

/-!
# Two states an operator cannot tell apart

States that differ only in the content of events, runs, reports and evidence attached to no incident in
scope give the same reads exactly where no newest event strays from the scope of its alert
(`reads_separated_iff`).
-/

namespace SreAgent.Operator.Database
open Base Iso Ingestion Lifecycle

/-! ## Rows with the same keys -/

section Same

variable {α β : Type*} {R : α → α → Prop} {l l' : List α}

/-- Rows that agree on a condition, and are equal where it holds. -/
theorem filter_same (rows : List.Forall₂ R l l') {p : α → Bool} (agree : ∀ a b, R a b → p b = p a)
    (same : ∀ a ∈ l, ∀ b, R a b → p a = true → b = a) : l'.filter p = l.filter p := by
  induction rows with
  | nil => rfl
  | @cons a b l l' hab _ ih =>
    have rest := ih fun a mem => same a (List.mem_cons_of_mem _ mem)
    by_cases ha : p a = true
    · rw [List.filter_cons_of_pos ha, same a List.mem_cons_self b hab ha, List.filter_cons_of_pos ha, rest]
    · rw [List.filter_cons_of_neg ha, List.filter_cons_of_neg (by rwa [agree a b hab]), rest]

/-- What is joined to rows that agree on it and on a condition. -/
theorem flatMap_same (rows : List.Forall₂ R l l') {p : α → Bool} (agree : ∀ a b, R a b → p b = p a)
    {f : α → List β} (same : ∀ a b, R a b → f b = f a) :
    (l'.filter p).flatMap f = (l.filter p).flatMap f := by
  induction rows with
  | nil => rfl
  | @cons a b l l' hab _ ih =>
    by_cases ha : p a = true
    · rw [List.filter_cons_of_pos ha, List.filter_cons_of_pos (by rwa [agree a b hab]), List.flatMap_cons,
        List.flatMap_cons, same a b hab, ih]
    · rw [List.filter_cons_of_neg ha, List.filter_cons_of_neg (by rwa [agree a b hab]), ih]

/-- A row and its counterpart. -/
theorem exists_counterpart (rows : List.Forall₂ R l l') {a : α} (mem : a ∈ l) : ∃ b ∈ l', R a b := by
  induction rows with
  | nil => exact absurd mem List.not_mem_nil
  | @cons a' b l l' hab _ ih =>
    rcases List.mem_cons.1 mem with rfl | mem
    · exact ⟨b, List.mem_cons_self, hab⟩
    · obtain ⟨b, memb, hb⟩ := ih mem
      exact ⟨b, List.mem_cons_of_mem _ memb, hb⟩

theorem exists_original (rows : List.Forall₂ R l l') {b : α} (mem : b ∈ l') : ∃ a ∈ l, R a b := by
  induction rows with
  | nil => exact absurd mem List.not_mem_nil
  | @cons a b' l l' hab _ ih =>
    rcases List.mem_cons.1 mem with rfl | mem
    · exact ⟨a, List.mem_cons_self, hab⟩
    · obtain ⟨a, mema, ha⟩ := ih mem
      exact ⟨a, List.mem_cons_of_mem _ mema, ha⟩

end Same

/-- Another content for the events, runs, reports and evidence attached to no incident in scope. -/
structure SameBut (db : Database) (identity : OperatorIdentity) (events : List AlertEventRow)
    (runs : List RunRow) (reports : List ReportRow) (evidence : List EvidenceRow) : Prop where
  events : db.events.Forall₂ (fun a b => b.id = a.id ∧ b.sourceId = a.sourceId ∧
    b.fingerprint = a.fingerprint ∧
    (db.AttachedEvent identity a → b = a)) events
  runs : db.runs.Forall₂ (fun a b => b.id = a.id ∧ b.incidentId = a.incidentId ∧
    (db.AttachedRun identity a.id → b = a)) runs
  reports : db.reports.Forall₂ (fun a b => b.id = a.id ∧ b.rcaRunId = a.rcaRunId ∧
    (db.AttachedRun identity a.rcaRunId → b = a)) reports
  evidence : db.evidence.Forall₂ (fun a b => b.id = a.id ∧ b.rcaRunId = a.rcaRunId ∧
    (db.AttachedRun identity a.rcaRunId → b = a)) evidence

/-- The six reads of an identity answer the same. -/
structure SameReads (db db' : Database) (rt : Trace.Runtime) (identity : OperatorIdentity) : Prop where
  list : db'.listIncidents identity = db.listIncidents identity
  incident : db'.getIncident identity = db.getIncident identity
  alert : db'.getAlert identity = db.getAlert identity
  runs : db'.listRcaRuns identity = db.listRcaRuns identity
  report : db'.getRcaReport identity = db.getRcaReport identity
  trace : db'.getTraceWaterfall identity rt = db.getTraceWaterfall identity rt

/-- States that differ only in what is attached to no incident in scope give the identity the same answers. -/
def Noninterfering (db : Database) (rt : Trace.Runtime) (identity : OperatorIdentity) : Prop :=
  ∀ events runs reports evidence, db.SameBut identity events runs reports evidence →
    WellFormed { db with events, runs, reports, evidence } →
    SameReads db { db with events, runs, reports, evidence } rt identity

section SameBut

variable {db : Database} (wf : db.WellFormed) {identity : OperatorIdentity}
  (restricted : identity.globalAccess = false)
variable {events : List AlertEventRow} {runs : List RunRow} {reports : List ReportRow}
  {evidence : List EvidenceRow}
  (same : db.SameBut identity events runs reports evidence)

/-- Authorization reads none of the tables that differ. -/
theorem authorized_same (db : Database) (identity : OperatorIdentity) (events : List AlertEventRow)
    (runs : List RunRow) (reports : List ReportRow) (evidence : List EvidenceRow) (incident : IncidentRow) :
    authorized { db with events, runs, reports, evidence } identity incident =
      db.authorized identity incident := rfl

/-- The runs of an incident in scope are attached. -/
theorem attachedRun_of_authorized {incident : IncidentRow} (restricted : identity.globalAccess = false)
    (stored : incident ∈ db.incidents) (authorized : db.authorized identity incident = true) {run : RunRow}
    (mem : run ∈ db.runs) (of : run.incidentId = incident.id) :
    db.AttachedRun identity run.id :=
  ⟨run, mem, rfl, incident, stored, of.symm, (authorized_iff restricted incident).1 authorized⟩

include same in
/-- Which incidents an instance reaches does not depend on the content of events. -/
theorem linkedIncidents_same (row : AlertInstanceRow) :
    linkedIncidents { db with events, runs, reports, evidence } row = db.linkedIncidents row := by
  unfold linkedIncidents
  refine List.flatMap_congr fun link _ => ?_
  apply flatMap_same same.events
  · rintro a b ⟨id, source, fingerprint, -⟩
    rw [id, source, fingerprint]
  · exact fun _ _ _ => rfl

include same in
/-- Which alerts an incident lists does not depend on the content of events. -/
theorem alertIds_same (incidentId : Uuid) :
    alertIds { db with events, runs, reports, evidence } incidentId = db.alertIds incidentId := by
  unfold alertIds
  dsimp only
  congr 2
  refine List.flatMap_congr fun link _ => ?_
  apply flatMap_same same.events
  · rintro a b ⟨id, -⟩
    rw [id]
  · rintro a b ⟨-, source, fingerprint, -⟩
    rw [source, fingerprint]

include restricted same in
/-- The runs of an incident in scope. -/
theorem runs_same {incident : IncidentRow} (stored : incident ∈ db.incidents)
    (authorized : db.authorized identity incident = true) :
    (runs.filter fun run => run.incidentId = incident.id) = db.runs.filter fun run => run.incidentId =
      incident.id := by
  apply filter_same same.runs
  · rintro a b ⟨-, incidentId, -⟩
    rw [incidentId]
  · rintro a mem b ⟨-, -, attached⟩ of
    exact attached (attachedRun_of_authorized restricted stored authorized mem (of_decide_eq_true of))

include same in
/-- The newest report of a run of an incident in scope. -/
theorem latestReport_same {run : RunRow} (attached : db.AttachedRun identity run.id) :
    latestReport { db with events, runs, reports, evidence } run = db.latestReport run := by
  have rows : (reports.filter fun report => report.rcaRunId = run.id) = db.reports.filter fun report =>
      report.rcaRunId = run.id := by
    apply filter_same same.reports
    · rintro a b ⟨-, rcaRunId, -⟩
      rw [rcaRunId]
    · rintro a - b ⟨-, -, equal⟩ of
      exact equal (of_decide_eq_true of ▸ attached)
  unfold latestReport
  dsimp only
  rw [rows]

include same in
/-- The newest trace of a run of an incident in scope. -/
theorem traceAnswer_same (rt : Trace.Runtime) {id : Uuid} (attached : db.AttachedRun identity id) :
    traceAnswer { db with events, runs, reports, evidence } rt id = db.traceAnswer rt id := by
  have sameTraces : (fun row : EvidenceRow => decide (row.rcaRunId = id ∧ row.sourceAgent = "TRACE")) =
      fun row => decide (row.sourceAgent = "TRACE") && decide (row.rcaRunId = id) := by
    funext row
    rw [Bool.decide_and, Bool.and_comm]
  have rows : (evidence.filter fun row => row.rcaRunId = id) = db.evidence.filter fun row => row.rcaRunId =
      id := by
    apply filter_same same.evidence
    · rintro a b ⟨-, rcaRunId, -⟩
      rw [rcaRunId]
    · rintro a - b ⟨-, -, equal⟩ of
      exact equal (of_decide_eq_true of ▸ attached)
  unfold traceAnswer latestTrace
  dsimp only
  rw [sameTraces, ← List.filter_filter, ← List.filter_filter, rows]

include restricted same in
/-- The joined row of an incident in scope. -/
theorem joinedIncident_same {incident : IncidentRow} (stored : incident ∈ db.incidents)
    (authorized : db.authorized identity incident = true) :
    joinedIncident { db with events, runs, reports, evidence } incident = db.joinedIncident incident := by
  unfold joinedIncident latestRca
  dsimp only
  rw [runs_same restricted same stored authorized]
  rfl

include wf restricted same in
theorem listIncidents_same (wf' : WellFormed { db with events, runs, reports, evidence }) :
    listIncidents { db with events, runs, reports, evidence } identity = db.listIncidents identity := by
  funext cursor limit
  have rows (cursor : Option (AwareDatetime × Uuid)) :
      ((joinedIncidents { db with events, runs, reports, evidence }).filter fun row =>
        db.authorized identity row.1 && afterCursor cursor row.1.updatedAt row.1.id) =
      db.joinedIncidents.filter fun row => db.authorized identity row.1 &&
        afterCursor cursor row.1.updatedAt row.1.id := by
    rw [joinedIncidents_eq wf, joinedIncidents_eq wf', List.filter_map, List.filter_map]
    refine List.map_congr_left fun incident mem => ?_
    obtain ⟨stored, both⟩ := List.mem_filter.1 mem
    have authorized : db.authorized identity incident = true := (Bool.and_eq_true _ _ |>.mp both).1
    exact joinedIncident_same restricted same stored authorized
  unfold listIncidents
  cases decodeCursor cursor with
  | error e => rfl
  | ok position =>
    change Except.ok (toPage _ _ _ _ _) = Except.ok (toPage _ _ _ _ _)
    rw [← rows]
    rfl

include wf restricted same in
theorem getIncident_same (wf' : WellFormed { db with events, runs, reports, evidence }) :
    getIncident { db with events, runs, reports, evidence } identity = db.getIncident identity := by
  funext id
  by_cases stored : ∃ incident ∈ db.incidents, incident.id = id
  · obtain ⟨incident, stored, rfl⟩ := stored
    rw [getIncident_eq identity wf stored, getIncident_eq identity wf' stored, authorized_same]
    by_cases authorized : db.authorized identity incident = true
    · rw [if_pos authorized, if_pos authorized]
      unfold incidentDetail rcaRunIds
      rw [joinedIncident_same restricted same stored authorized, alertIds_same same,
        runs_same restricted same stored authorized]
    · rw [if_neg authorized, if_neg authorized]
  · rw [getIncident_absent identity fun incident mem equal => stored ⟨incident, mem, equal⟩,
      getIncident_absent identity]
    exact fun incident mem equal => stored ⟨incident, mem, equal⟩

include wf restricted same in
theorem getAlert_same (wf' : WellFormed { db with events, runs, reports, evidence })
    (own : db.NoStray identity) :
    getAlert { db with events, runs, reports, evidence } identity = db.getAlert identity := by
  funext id
  by_cases stored : ∃ row ∈ db.instances, row.id = id
  · obtain ⟨row, stored, rfl⟩ := stored
    obtain ⟨event, latest, newest⟩ := wf.latestEvent row stored
    obtain ⟨event', latest', key, -, -, equal⟩ := exists_counterpart same.events latest
    have linked : latestIncident { db with events, runs, reports, evidence } row = db.latestIncident row := by
      unfold latestIncident
      rw [linkedIncidents_same same]
    rw [getAlert_eq identity wf stored latest newest,
      getAlert_eq identity wf' stored latest' (key.trans newest), linked]
    obtain none_ | ⟨incident, one⟩ := latestIncident_cases db row
    · rw [none_]
    · rw [one]
      dsimp only
      rw [authorized_same]
      by_cases authorized : db.authorized identity incident = true
      · have scope := (authorized_iff restricted incident).1 authorized
        rw [equal (own row stored incident (latestIncident_updatedLast one) scope event latest newest)]
      · rw [if_neg authorized, if_neg authorized]
  · rw [getAlert_absent identity fun row mem equal => stored ⟨row, mem, equal⟩, getAlert_absent identity]
    exact fun row mem equal => stored ⟨row, mem, equal⟩

include wf restricted same in
theorem listRcaRuns_same (wf' : WellFormed { db with events, runs, reports, evidence }) :
    listRcaRuns { db with events, runs, reports, evidence } identity = db.listRcaRuns identity := by
  funext id cursor limit
  unfold listRcaRuns
  rw [getIncident_same wf restricted same wf']
  cases readable : db.getIncident identity id with
  | error e => rfl
  | ok detail =>
    obtain ⟨incident, stored, rfl, authorized, -⟩ := getIncident_ok wf readable
    have joined : joinedRuns { db with events, runs, reports, evidence } incident.id =
        db.joinedRuns incident.id := by
      unfold joinedRuns
      dsimp only
      rw [runs_same restricted same stored authorized]
      refine List.map_congr_left fun run mem => ?_
      obtain ⟨mem, of⟩ := List.mem_filter.1 mem
      rw [latestReport_same same
        (attachedRun_of_authorized restricted stored authorized mem (of_decide_eq_true of))]
    have numbered (cursor : Option (AwareDatetime × Uuid)) :
        numberedRuns { db with events, runs, reports, evidence } incident.id cursor =
          db.numberedRuns incident.id cursor := by
      rw [numberedRuns, numberedRuns, joinedRuns_eq, joinedRuns_eq, joined]
    cases decodeCursor cursor with
    | error e => rfl
    | ok position =>
      change Except.ok (toPage _ _ _ _ _) = Except.ok (toPage _ _ _ _ _)
      rw [numbered]

include restricted same in
/-- A run and its counterpart, where one is read. -/
theorem counterpart_run {id : Uuid} (attached : db.AttachedRun identity id) : ∃ run ∈ db.runs, run ∈ runs ∧
      run.id = id ∧
    ∃ incident ∈ db.incidents, incident.id = run.incidentId ∧ db.authorized identity incident = true := by
  obtain ⟨run, stored, rfl, incident, storedIncident, of, scope⟩ := attached
  obtain ⟨run', stored', -, -, equal⟩ := exists_counterpart same.runs stored
  rw [equal ⟨run, stored, rfl, incident, storedIncident, of, scope⟩] at stored'
  exact ⟨run, stored, stored', rfl, incident, storedIncident, of,
    (authorized_iff restricted incident).2 scope⟩

include same in
/-- Runs are attached in both states or in neither. -/
theorem attachedRun_same (id : Uuid) : AttachedRun { db with events, runs, reports, evidence } identity id ↔
      db.AttachedRun identity id := by
  constructor
  · rintro ⟨run, stored, rfl, incident, storedIncident, of, scope⟩
    obtain ⟨run', stored', key, ofIncident, -⟩ := exists_original same.runs stored
    exact ⟨run', stored', key.symm, incident, storedIncident, of.trans ofIncident, scope⟩
  · rintro ⟨run, stored, rfl, incident, storedIncident, of, scope⟩
    obtain ⟨run', stored', key, ofIncident, -⟩ := exists_counterpart same.runs stored
    exact ⟨run', stored', key, incident, storedIncident, of.trans ofIncident.symm, scope⟩

include wf restricted same in
theorem getRcaReport_same (wf' : WellFormed { db with events, runs, reports, evidence }) :
    getRcaReport { db with events, runs, reports, evidence } identity = db.getRcaReport identity := by
  funext id
  by_cases attached : db.AttachedRun identity id
  · obtain ⟨run, stored, stored', rfl, incident, storedIncident, of, authorized⟩ :=
      counterpart_run restricted same attached
    rw [getRcaReport_eq identity wf stored storedIncident of,
      getRcaReport_eq identity wf' stored' storedIncident of, authorized_same,
      latestReport_same same attached]
  · rw [getRcaReport_hidden wf restricted attached,
      getRcaReport_hidden wf' restricted fun h => attached ((attachedRun_same same id).1 h)]

include wf restricted same in
theorem getTraceWaterfall_same (rt : Trace.Runtime)
    (wf' : WellFormed { db with events, runs, reports, evidence }) :
    getTraceWaterfall { db with events, runs, reports, evidence } identity rt =
      db.getTraceWaterfall identity rt := by
  funext id
  by_cases attached : db.AttachedRun identity id
  · obtain ⟨run, stored, stored', rfl, incident, storedIncident, of, authorized⟩ :=
      counterpart_run restricted same attached
    rw [getTraceWaterfall_eq identity wf rt stored storedIncident of,
      getTraceWaterfall_eq identity wf' rt stored' storedIncident of,
      authorized_same, traceAnswer_same same rt attached]
  · rw [getTraceWaterfall_hidden wf restricted rt attached,
      getTraceWaterfall_hidden wf' restricted rt fun h => attached ((attachedRun_same same id).1 h)]

include wf restricted in
/-- No read depends on rows outside the scope. -/
theorem noninterfering (rt : Trace.Runtime) (own : db.NoStray identity) : db.Noninterfering rt identity := by
  intro events runs reports evidence same wf'
  exact {
    list := listIncidents_same wf restricted same wf'
    incident := getIncident_same wf restricted same wf'
    alert := getAlert_same wf restricted same wf' own
    runs := listRcaRuns_same wf restricted same wf'
    report := getRcaReport_same wf restricted same wf'
    trace := getTraceWaterfall_same wf restricted same rt wf' }

end SameBut

/-! ## Stray events -/

section Stray

variable {db : Database} (wf : db.WellFormed) {identity : OperatorIdentity} {event : AlertEventRow}
  (labels : JsonObject)

/-- An event with other labels. -/
def relabel (event : AlertEventRow) (labels : JsonObject) (other : AlertEventRow) : AlertEventRow :=
  if other.id = event.id then { other with content := labelled labels } else other

/-- Relabelling an event keeps its keys. -/
theorem relabel_keys (other : AlertEventRow) : (relabel event labels other).id = other.id ∧
    (relabel event labels other).sourceId = other.sourceId ∧ (relabel event labels other).fingerprint =
      other.fingerprint := by
  unfold relabel
  split <;> exact ⟨rfl, rfl, rfl⟩

include wf

theorem relabel_wellFormed : WellFormed { db with events := db.events.map (relabel event labels) } := by
  have ids : (db.events.map (relabel event labels)).map AlertEventRow.id =
      db.events.map AlertEventRow.id := by
    rw [List.map_map]
    exact List.map_congr_left fun other _ => (relabel_keys labels other).1
  have found {id : Uuid} (h : ∃ other ∈ db.events, other.id = id) :
      ∃ other ∈ db.events.map (relabel event labels), other.id = id := by
    obtain ⟨other, mem, rfl⟩ := h
    exact ⟨relabel event labels other, List.mem_map_of_mem mem, (relabel_keys labels other).1⟩
  exact { wf with
    events := by
      rw [Table.Keyed, ids]
      exact wf.events
    linkEvent := fun link mem => found (wf.linkEvent link mem)
    latestEvent := fun row mem => found (wf.latestEvent row mem) }

theorem relabel_sameBut (stored : event ∈ db.events) (unattached : ¬ db.AttachedEvent identity event) :
    db.SameBut identity (db.events.map (relabel event labels)) db.runs db.reports db.evidence where
  events := by
    rw [List.forall₂_map_right_iff, List.forall₂_same]
    intro other mem
    have keys : (relabel event labels other).id = other.id ∧ (relabel event labels other).sourceId =
      other.sourceId ∧
        (relabel event labels other).fingerprint = other.fingerprint := relabel_keys labels other
    obtain ⟨id, source, fingerprint⟩ := keys
    refine ⟨id, source, fingerprint, fun attached => ?_⟩
    unfold relabel
    split
    · next same =>
      rw [List.inj_on_of_nodup_map wf.events mem stored same] at attached
      exact absurd attached unattached
    · rfl
  runs := List.forall₂_same.2 fun _ _ => ⟨rfl, rfl, fun _ => rfl⟩
  reports := List.forall₂_same.2 fun _ _ => ⟨rfl, rfl, fun _ => rfl⟩
  evidence := List.forall₂_same.2 fun _ _ => ⟨rfl, rfl, fun _ => rfl⟩

/-- The labels of a stray newest event are shown. -/
theorem relabel_shown (restricted : identity.globalAccess = false) {row : AlertInstanceRow}
    (stored : row ∈ db.instances) {incident : IncidentRow} (last : db.UpdatedLast row incident)
    (scope : db.InScope identity incident) (latest : event ∈ db.events)
    (newest : event.id = row.latestEventId) (unattached : ¬ db.AttachedEvent identity event) :
    ∃ detail, getAlert { db with events := db.events.map (relabel event labels) } identity row.id =
      .ok detail ∧ detail.labels = labels := by
  have same := relabel_sameBut wf labels latest unattached
  have mem : relabel event labels event ∈ db.events.map (relabel event labels) := List.mem_map_of_mem latest
  have linked : latestIncident { db with events := db.events.map (relabel event labels) } row =
      [incident] := by
    have lists := linkedIncidents_same same row
    unfold latestIncident
    rw [lists]
    exact (latestIncident_eq wf).2 last
  rw [getAlert_eq identity (relabel_wellFormed wf labels) stored mem
    ((relabel_keys labels event).1.trans newest), linked]
  dsimp only
  rw [authorized_same db identity _ db.runs db.reports db.evidence,
    if_pos ((authorized_iff restricted incident).2 scope), relabel, if_pos rfl]
  exact ⟨_, rfl, rfl⟩

end Stray

/-- The reads do not cross authorization exactly where no newest event strays. -/
theorem reads_separated_iff {db : Database} (wf : db.WellFormed) (rt : Trace.Runtime)
    {identity : OperatorIdentity} (restricted : identity.globalAccess = false) :
    (db.Confined rt identity ∧ db.Hidden rt identity ∧ db.Noninterfering rt identity) ↔
      db.NoStray identity := by
  constructor
  · rintro ⟨-, -, same⟩ row stored incident last scope event latest newest
    by_contra unattached
    have answer (labels : JsonObject) : ∃ detail, db.getAlert identity row.id = .ok detail ∧
        detail.labels = labels := by
      rw [← (same _ _ _ _ (relabel_sameBut wf labels latest unattached) (relabel_wellFormed wf labels)).alert]
      exact relabel_shown wf labels restricted stored last scope latest newest unattached
    obtain ⟨detail, shown, labels⟩ := answer []
    obtain ⟨detail', shown', labels'⟩ := answer [("team", .null)]
    rw [shown] at shown'
    cases shown'
    exact absurd (labels.symm.trans labels') (List.cons_ne_nil _ _).symm
  · exact fun own => ⟨confined wf restricted rt own, hidden wf restricted rt,
      noninterfering wf restricted rt own⟩

/-- Both events linked to the team's own incident. -/
def sharedOwned : Database := { shared (moment 7) (moment 5) with links := [⟨3, 5⟩, ⟨3, 6⟩, ⟨4, 6⟩] }

theorem sharedOwned_separated : sharedOwned.Confined Trace.isoRuntime ⟨"ann", false⟩ ∧
      sharedOwned.Hidden Trace.isoRuntime ⟨"ann", false⟩ ∧
    sharedOwned.Noninterfering Trace.isoRuntime ⟨"ann", false⟩ := by
  have wf : sharedOwned.WellFormed := { shared_wellFormed (moment 7) (moment 5) with
    linkIncident := by simp [sharedOwned, shared, teamIncident]
    linkEvent := by simp [sharedOwned, shared] }
  refine (reads_separated_iff wf Trace.isoRuntime rfl).2 ?_
  intro row mem incident _ _ event _ newest
  rw [List.mem_singleton.1 mem] at newest
  refine ⟨teamIncident 3 10 (moment 7), List.mem_cons_self, (authorized_iff rfl _).1 (by decide), ⟨3, 6⟩,
    ?_, newest.symm, rfl⟩
  exact List.mem_cons_of_mem _ List.mem_cons_self

/-- With the own incident updated last, the labels of the event of the other team are returned. -/
theorem shared_not_confined : ∃ (db : Database) (identity : OperatorIdentity), db.WellFormed ∧
      identity.globalAccess = false ∧
    ∀ rt, ¬ db.Confined rt identity := by
  refine ⟨shared (moment 7) (moment 5), ⟨"ann", false⟩, shared_wellFormed _ _, rfl, fun rt confined => ?_⟩
  obtain ⟨detail, shown⟩ : ∃ detail, (shared (moment 7) (moment 5)).getAlert ⟨"ann", false⟩ 8 =
      .ok detail := ⟨_, rfl⟩
  obtain ⟨row, hrow, event, -, -, -, -, newest, -, -,
      ⟨incident, stored, scope, link, hlink, ofEvent, ofIncident⟩, -⟩ :=
    confined.alert 8 detail shown
  rw [List.mem_singleton.1 hrow] at newest
  rcases List.mem_pair.1 stored with rfl | rfl
  · rcases List.mem_pair.1 hlink with rfl | rfl
    · exact absurd (ofEvent.trans newest) (by decide)
    · exact absurd ofIncident (by decide)
  · exact absurd ((authorized_iff rfl _).2 scope) (by decide)

end SreAgent.Operator.Database
