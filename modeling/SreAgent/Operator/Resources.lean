import SreAgent.Operator.Pages

/-!
# Single resources

What the reads of one resource come to where it is stored, and that they raise
`OperatorResourceNotFound` where it is not.
-/

namespace SreAgent.Operator.Database
open Base Iso Ingestion Lifecycle

/-- Of the rows joined to each row, those of one key are the ones joined to the rows of that key. -/
theorem filter_flatMap {α β κ : Type*} [DecidableEq κ] {key : α → κ} {k : κ} {rows : List α}
    {join : α → List β} {source : β → α} (of : ∀ a b, b ∈ join a → source b = a) (p : β → Bool) :
    ((rows.flatMap join).filter fun b => key (source b) = k && p b) =
      (rows.filter fun a => key a = k).flatMap fun a => (join a).filter p := by
  induction rows with
  | nil => rfl
  | cons a rows ih =>
    rw [List.flatMap_cons, List.filter_append, ih]
    by_cases same : key a = k
    · rw [List.filter_cons, if_pos (decide_eq_true same), List.flatMap_cons]
      congr 1
      refine List.filter_congr fun b hb => ?_
      rw [of a b hb, decide_eq_true same, Bool.true_and]
    · rw [List.filter_cons, if_neg (by rwa [decide_eq_true_eq])]
      have none_ : ((join a).filter fun b => key (source b) = k && p b) = [] := by
        refine List.filter_eq_nil_iff.2 fun b hb both => ?_
        rw [Bool.and_eq_true, decide_eq_true_eq, of a b hb] at both
        exact same both.1
      rw [none_, List.nil_append]

/-- Joined to the only row of its key. -/
theorem filter_flatMap_keyed {α β κ : Type*} [DecidableEq κ] {key : α → κ} {rows : List α}
    (keyed : Table.Keyed key rows) {row : α} (h : row ∈ rows) {join : α → List β} {source : β → α}
    (of : ∀ a b, b ∈ join a → source b = a) (p : β → Bool) :
    ((rows.flatMap join).filter fun b => key (source b) = key row && p b) = (join row).filter p := by
  rw [filter_flatMap of, filter_key keyed h, List.flatMap_singleton]

/-- No joined row has the key. -/
theorem filter_flatMap_absent {α β κ : Type*} [DecidableEq κ] {key : α → κ} {rows : List α} {k : κ}
    (h : ∀ row ∈ rows, key row ≠ k) {join : α → List β} {source : β → α}
    (of : ∀ a b, b ∈ join a → source b = a) (p : β → Bool) :
    ((rows.flatMap join).filter fun b => key (source b) = k && p b) = [] := by
  have none_ : (rows.filter fun row => key row = k) = [] :=
    List.filter_eq_nil_iff.2 fun row hrow same => h row hrow (of_decide_eq_true same)
  rw [filter_flatMap of, none_, List.flatMap_nil]

section Reads

variable {db : Database} (identity : OperatorIdentity)

/-! ## Incidents -/

/-- The answer of `get_incident`. -/
def incidentDetail (db : Database) (incident : IncidentRow) : IncidentDetail :=
  ⟨incidentItem (db.joinedIncident incident), incident.title, db.alertIds incident.id,
    db.rcaRunIds incident.id⟩

/-- An incident that is not stored is not found. -/
theorem getIncident_absent {id : Uuid} (h : ∀ incident ∈ db.incidents, incident.id ≠ id) :
    db.getIncident identity id = .error .resourceNotFound := by
  have of (incident : IncidentRow) (row : IncidentRow × Option Subject × Option RunRow)
      (hrow : row ∈ (leftJoin (db.assignees incident)).flatMap fun assignee =>
        (leftJoin (db.latestRca incident)).map fun run => (incident, assignee, run)) : Prod.fst row =
          incident := by
    obtain ⟨assignee, -, hrow⟩ := List.mem_flatMap.1 hrow
    obtain ⟨run, -, rfl⟩ := List.mem_map.1 hrow
    rfl
  have none_ := filter_flatMap_absent h of fun row => db.authorized identity row.1
  rw [getIncident, joinedIncidents, none_]
  rfl

/-- A stored incident is read exactly if the operator is authorized for it. -/
theorem getIncident_eq (wf : db.WellFormed) {incident : IncidentRow} (stored : incident ∈ db.incidents) :
    db.getIncident identity incident.id =
    if db.authorized identity incident =
      true then .ok (db.incidentDetail incident) else .error .resourceNotFound := by
  have one : (db.joinedIncidents.filter fun row => row.1.id = incident.id && db.authorized identity row.1) =
      [db.joinedIncident incident].filter fun row => db.authorized identity row.1 := by
    rw [joinedIncidents_eq wf, List.filter_map]
    have alone :
      (db.incidents.filter ((fun row => row.1.id = incident.id && db.authorized identity row.1) ∘
          db.joinedIncident)) =
        (db.incidents.filter fun row => row.id = incident.id).filter (db.authorized identity) := by
      rw [List.filter_filter]
      exact List.filter_congr fun row _ => Bool.and_comm _ _
    rw [alone, filter_key wf.incidents stored, ← List.map_singleton, List.filter_map]
    rfl
  rw [getIncident, one]
  split
  · next authorized =>
    rw [List.filter_cons, if_pos (show db.authorized identity (db.joinedIncident incident).1 = true
      from authorized)]
    rfl
  · next unauthorized =>
    rw [List.filter_cons, if_neg (show ¬ db.authorized identity (db.joinedIncident incident).1 = true
      from unauthorized)]
    rfl

/-! ## Alerts -/

/-- An event is linked to an incident. -/
def Linked (db : Database) (event : AlertEventRow) (incident : IncidentRow) : Prop :=
  ∃ link ∈ db.links, link.alertEventId = event.id ∧ link.incidentId = incident.id

/-- An incident has an event of the source and the fingerprint of an instance. -/
def Reaches (db : Database) (row : AlertInstanceRow) (incident : IncidentRow) : Prop :=
  incident ∈ db.incidents ∧ ∃ event ∈ db.events, event.sourceId = row.sourceId ∧
    event.fingerprint = row.fingerprint ∧ db.Linked event incident

/-- Of the incidents an instance reaches, the one updated last; identifiers decide between those
updated at once. -/
def UpdatedLast (db : Database) (row : AlertInstanceRow) (incident : IncidentRow) : Prop :=
  db.Reaches row incident ∧ ∀ other, db.Reaches row other →
    position other.updatedAt other.id ≤ position incident.updatedAt incident.id

/-- The linked incidents are those the instance reaches. -/
theorem mem_linkedIncidents {row : AlertInstanceRow} {incident : IncidentRow} :
    incident ∈ db.linkedIncidents row ↔ db.Reaches row incident := by
  unfold linkedIncidents
  constructor
  · intro h
    obtain ⟨link, hlink, h⟩ := List.mem_flatMap.1 h
    obtain ⟨event, hevent, h⟩ := List.mem_flatMap.1 h
    obtain ⟨stored, same⟩ := List.mem_filter.1 h
    obtain ⟨hevent, key⟩ := List.mem_filter.1 hevent
    obtain ⟨id, source, fingerprint⟩ := of_decide_eq_true key
    exact ⟨stored, event, hevent, source, fingerprint, link, hlink, id.symm, (of_decide_eq_true same).symm⟩
  · rintro ⟨stored, event, hevent, source, fingerprint, link, hlink, id, same⟩
    apply List.mem_flatMap.2 ⟨link, hlink, _⟩
    apply List.mem_flatMap.2 ⟨event,
      List.mem_filter.2 ⟨hevent, decide_eq_true ⟨id.symm, source, fingerprint⟩⟩, _⟩
    exact List.mem_filter.2 ⟨stored, decide_eq_true same.symm⟩

/-- The subquery finds one incident or none. -/
theorem latestIncident_cases (db : Database) (row : AlertInstanceRow) : db.latestIncident row = [] ∨
      ∃ incident, db.latestIncident row = [incident] := by
  unfold latestIncident
  generalize Keyset.descending (fun incident : IncidentRow => position incident.updatedAt incident.id)
    (db.linkedIncidents row) = found
  cases found with
  | nil => exact .inl rfl
  | cons incident found => exact .inr ⟨incident, rfl⟩

/-- Without a latest incident the instance reaches none. -/
theorem latestIncident_nil {row : AlertInstanceRow} (h : db.latestIncident row = [])
    (incident : IncidentRow) : ¬ db.Reaches row incident := by
  intro reaches
  have none_ : Keyset.descending (fun incident : IncidentRow => position incident.updatedAt incident.id)
      (db.linkedIncidents row) = [] :=
    (List.take_eq_nil_iff.1 h).resolve_left Nat.one_ne_zero
  have mem : incident ∈ Keyset.descending
      (fun incident : IncidentRow => position incident.updatedAt incident.id) (db.linkedIncidents row) :=
    (Keyset.descending_perm _).symm.subset (mem_linkedIncidents.2 reaches)
  rw [none_] at mem
  exact List.not_mem_nil mem

/-- The latest incident is the one updated last. -/
theorem latestIncident_updatedLast {row : AlertInstanceRow} {incident : IncidentRow}
    (h : db.latestIncident row = [incident]) :
    db.UpdatedLast row incident := by
  unfold latestIncident at h
  cases found : Keyset.descending (fun incident : IncidentRow => position incident.updatedAt incident.id)
    (db.linkedIncidents row) with
  | nil =>
    rw [found] at h
    cases h
  | cons first rest =>
    rw [found] at h
    cases h
    obtain ⟨mem, last⟩ := Keyset.head_descending found
    exact ⟨mem_linkedIncidents.1 mem, fun other reaches => last other (mem_linkedIncidents.2 reaches)⟩

/-- At most one incident is updated last. -/
theorem UpdatedLast.unique (wf : db.WellFormed) {row : AlertInstanceRow} {a b : IncidentRow}
    (ha : db.UpdatedLast row a) (hb : db.UpdatedLast row b) : a = b := by
  have same : position a.updatedAt a.id = position b.updatedAt b.id := le_antisymm (hb.2 a ha.1) (ha.2 b hb.1)
  have ids : a.id = b.id := congrArg (fun k : Lex (Instant × Fin (2 ^ 128)) => BitVec.ofFin (ofLex k).2) same
  exact List.inj_on_of_nodup_map wf.incidents ha.1.1 hb.1.1 ids

theorem latestIncident_eq (wf : db.WellFormed) {row : AlertInstanceRow} {incident : IncidentRow} :
    db.latestIncident row = [incident] ↔ db.UpdatedLast row incident := by
  constructor
  · exact latestIncident_updatedLast
  · intro last
    obtain none_ | ⟨other, one⟩ := latestIncident_cases db row
    · exact absurd last.1 (latestIncident_nil none_ incident)
    · rw [one, (latestIncident_updatedLast one).unique wf last]

/-- The incidents joined to an instance come after it and its newest event. -/
theorem alertJoin_fst (db : Database) (row : AlertInstanceRow)
    (found : AlertInstanceRow × AlertEventRow × IncidentRow)
    (h : found ∈ (db.events.filter fun event => event.id = row.latestEventId).flatMap fun event =>
      (db.latestIncident row).map fun incident => (row, event, incident)) : Prod.fst found = row := by
  obtain ⟨event, -, h⟩ := List.mem_flatMap.1 h
  obtain ⟨incident, -, rfl⟩ := List.mem_map.1 h
  rfl

theorem getAlert_absent {id : Uuid} (h : ∀ row ∈ db.instances, row.id ≠ id) :
    db.getAlert identity id = .error .resourceNotFound := by
  have none_ := filter_flatMap_absent h (alertJoin_fst db) fun found => db.authorized identity found.2.2
  rw [getAlert, none_]
  rfl

/-- The joined rows of a stored instance. -/
theorem alertRows_eq (wf : db.WellFormed) {row : AlertInstanceRow} (stored : row ∈ db.instances)
    {event : AlertEventRow} (latest : event ∈ db.events) (id : event.id = row.latestEventId) :
    ((db.instances.flatMap fun row => (db.events.filter fun event => event.id = row.latestEventId).flatMap
        fun event =>
      (db.latestIncident row).map fun incident => (row, event, incident)).filter fun found =>
        found.1.id = row.id && db.authorized identity found.2.2) =
    ((db.latestIncident row).map fun incident => (row, event, incident)).filter fun found =>
      db.authorized identity found.2.2 := by
  have newest : (db.events.filter fun e => e.id = row.latestEventId) = [event] :=
    id ▸ filter_key wf.events latest
  rw [filter_flatMap_keyed wf.instances stored (alertJoin_fst db), newest, List.flatMap_singleton]

/-- The answer of `get_alert` for a stored instance, its newest event and the subquery's incident. -/
theorem getAlert_eq (wf : db.WellFormed) {row : AlertInstanceRow} (stored : row ∈ db.instances)
    {event : AlertEventRow} (latest : event ∈ db.events) (id : event.id = row.latestEventId) :
    db.getAlert identity row.id =
    match db.latestIncident row with
    | [] => .error .resourceNotFound
    | incident :: _ =>
      if db.authorized identity incident = true then alertDetail (row, event, incident)
        else .error .resourceNotFound := by
  unfold getAlert
  dsimp only
  rw [alertRows_eq identity wf stored latest id]
  obtain none_ | ⟨incident, one⟩ := latestIncident_cases db row
  · rw [none_]
    rfl
  · rw [one, List.map_singleton, List.filter_cons]
    dsimp only
    split
    · rfl
    · rfl

theorem bind_ne_error {ε α β : Type} {e : ε} {x : Except ε α} {f : α → Except ε β} (hx : x ≠ .error e)
    (hf : ∀ a, f a ≠ .error e) :
    x >>= f ≠ .error e := by
  cases x with
  | error e' => exact fun h => hx (congrArg Except.error (Except.error.inj h))
  | ok a => exact hf a

theorem toDict_ne_notFound (v : Json) : toDict v ≠ .error .resourceNotFound := by
  cases v <;> exact fun h => nomatch h

/-- A stored alert may fail to be shown, but then as an error of the document. -/
theorem alertDetail_ne_notFound (found : AlertInstanceRow × AlertEventRow × IncidentRow) :
    alertDetail found ≠ .error .resourceNotFound := by
  unfold alertDetail
  apply bind_ne_error (toDict_ne_notFound _)
  intro labels
  apply bind_ne_error (toDict_ne_notFound _)
  intro annotations h
  exact nomatch h

/-- An alert can be read where the incident updated last is the identity's. -/
theorem getAlert_readable_iff (wf : db.WellFormed) {row : AlertInstanceRow} (stored : row ∈ db.instances) :
    db.getAlert identity row.id ≠ .error .resourceNotFound ↔
      ∃ incident, db.UpdatedLast row incident ∧ db.authorized identity incident = true := by
  obtain ⟨event, latest, id⟩ := wf.latestEvent row stored
  rw [getAlert_eq identity wf stored latest id]
  obtain none_ | ⟨incident, one⟩ := latestIncident_cases db row
  · rw [none_]
    constructor
    · exact fun h => absurd rfl h
    · rintro ⟨incident, last, -⟩
      exact absurd last.1 (latestIncident_nil none_ incident)
  · rw [one]
    dsimp only
    constructor
    · intro readable
      refine ⟨incident, latestIncident_updatedLast one, ?_⟩
      by_contra unauthorized
      rw [if_neg unauthorized] at readable
      exact readable rfl
    · rintro ⟨other, last, authorized⟩
      rw [last.unique wf (latestIncident_updatedLast one)] at authorized
      rw [if_pos authorized]
      exact alertDetail_ne_notFound _

/-! ## Reports -/

theorem reportJoin_fst (db : Database) (report : ReportRow) (found : ReportRow × RunRow × IncidentRow)
    (h : found ∈ (db.runs.filter fun run => run.id = report.rcaRunId).flatMap fun run =>
      (db.incidents.filter fun incident => incident.id = run.incidentId).map fun incident =>
        (report, run, incident)) :
    Prod.fst found = report := by
  obtain ⟨run, -, h⟩ := List.mem_flatMap.1 h
  obtain ⟨incident, -, rfl⟩ := List.mem_map.1 h
  rfl

theorem getRcaReport_absent {id : Uuid} (h : ∀ run ∈ db.runs, run.id ≠ id) :
    db.getRcaReport identity id = .error .resourceNotFound := by
  have none_ : (db.reports.filter fun report => report.rcaRunId = id).flatMap (fun report =>
      ((db.runs.filter fun run => run.id = report.rcaRunId).flatMap fun run =>
        (db.incidents.filter fun incident => incident.id = run.incidentId).map fun incident =>
          (report, run, incident)).filter
          fun row => db.authorized identity row.2.2) = [] := by
    refine List.flatMap_eq_nil_iff.2 fun report mem => ?_
    have of : report.rcaRunId = id := of_decide_eq_true (List.mem_filter.1 mem).2
    have noRun : (db.runs.filter fun run => run.id = report.rcaRunId) = [] :=
      List.filter_eq_nil_iff.2 fun run hrun same => h run hrun ((of_decide_eq_true same).trans of)
    rw [noRun]
    rfl
  rw [getRcaReport, filter_flatMap (reportJoin_fst db), none_]
  rfl

/-- The answer of `get_rca_report` for a stored run and its incident. -/
theorem getRcaReport_eq (wf : db.WellFormed) {run : RunRow} (stored : run ∈ db.runs) {incident : IncidentRow}
    (storedIncident : incident ∈ db.incidents) (id : incident.id = run.incidentId) :
    db.getRcaReport identity run.id =
    if db.authorized identity incident = true then oneOrNone (fun report => reportDetail (report, run))
    (db.latestReport run)
    else .error .resourceNotFound := by
  have one : ∀ report ∈ db.reports.filter (fun report => report.rcaRunId = run.id),
      ((db.runs.filter fun r => r.id = report.rcaRunId).flatMap fun r =>
        (db.incidents.filter fun i => i.id = r.incidentId).map fun i => (report, r, i)) =
          [(report, run, incident)] := by
    intro report mem
    have of : report.rcaRunId = run.id := of_decide_eq_true (List.mem_filter.1 mem).2
    rw [of, filter_key wf.runs stored, List.flatMap_singleton, ← id, filter_key wf.incidents storedIncident]
    rfl
  unfold getRcaReport
  dsimp only
  rw [filter_flatMap (reportJoin_fst db)]
  split
  · next authorized =>
    have rows : ((db.reports.filter fun report => report.rcaRunId = run.id).flatMap fun report =>
        ((db.runs.filter fun r => r.id = report.rcaRunId).flatMap fun r =>
          (db.incidents.filter fun i => i.id = r.incidentId).map fun i => (report, r, i)).filter fun row =>
            db.authorized identity row.2.2) =
        (db.reports.filter fun report => report.rcaRunId = run.id).map fun report =>
          (report, run, incident) := by
      rw [← List.flatMap_pure_eq_map]
      refine List.flatMap_congr fun report mem => ?_
      rw [one report mem, List.filter_cons,
        if_pos (show db.authorized identity (report, run, incident).2.2 = true from authorized)]
      rfl
    have sorted := List.map_insertionSort (fun a b : ReportRow => b.version ≤ a.version)
      (fun a b : ReportRow × RunRow × IncidentRow => b.1.version ≤ a.1.version)
        (fun report => (report, run, incident))
      (db.reports.filter fun report => report.rcaRunId = run.id) fun _ _ _ _ => Iff.rfl
    rw [rows, ← sorted, ← List.map_take]
    unfold latestReport
    generalize ((db.reports.filter fun report => report.rcaRunId = run.id).insertionSort fun a b =>
      b.version ≤ a.version).take 1 = found
    match found with
    | [] => rfl
    | [_] => rfl
    | _ :: _ :: _ => rfl
  · next unauthorized =>
    have none_ : ((db.reports.filter fun report => report.rcaRunId = run.id).flatMap fun report =>
        ((db.runs.filter fun r => r.id = report.rcaRunId).flatMap fun r =>
          (db.incidents.filter fun i => i.id = r.incidentId).map fun i => (report, r, i)).filter fun row =>
            db.authorized identity row.2.2) =
        [] := by
      refine List.flatMap_eq_nil_iff.2 fun report mem => ?_
      rw [one report mem, List.filter_cons,
        if_neg (show ¬ db.authorized identity (report, run, incident).2.2 = true from unauthorized)]
      rfl
    rw [none_]
    rfl

/-! ## Traces -/

theorem traceJoin_fst (db : Database) (run : RunRow) (found : RunRow × IncidentRow)
    (h : found ∈ (db.incidents.filter fun incident => incident.id = run.incidentId).map fun incident =>
      (run, incident)) :
    Prod.fst found = run := by
  obtain ⟨incident, -, rfl⟩ := List.mem_map.1 h
  rfl

/-- The newest trace of a run. -/
def latestTrace (db : Database) (rcaRunId : Uuid) : List EvidenceRow :=
  Keyset.descending (fun row : EvidenceRow => position row.observedAt row.id)
    (db.evidence.filter fun row => row.rcaRunId = rcaRunId ∧ row.sourceAgent = "TRACE")

/-- What is shown of the newest trace of a run. -/
def traceAnswer (db : Database) (rt : Trace.Runtime) (rcaRunId : Uuid) :
    Except OperatorError (Option Trace.StoredTraceWaterfall) :=
  match db.latestTrace rcaRunId with
  | [] => .ok none
  | evidence :: _ =>
    match Trace.parseTraceWaterfall rt evidence.structuredData with
    | .ok trace => .ok trace
    | .error _ => .error .raised

theorem getTraceWaterfall_absent (rt : Trace.Runtime) {id : Uuid} (h : ∀ run ∈ db.runs, run.id ≠ id) :
    db.getTraceWaterfall identity rt id = .error .resourceNotFound := by
  have none_ := filter_flatMap_absent h (traceJoin_fst db) fun row => db.authorized identity row.2
  rw [getTraceWaterfall, none_]
  rfl

/-- The answer of `get_trace_waterfall` for a stored run and its incident. -/
theorem getTraceWaterfall_eq (wf : db.WellFormed) (rt : Trace.Runtime) {run : RunRow}
    (stored : run ∈ db.runs) {incident : IncidentRow} (storedIncident : incident ∈ db.incidents)
    (id : incident.id = run.incidentId) : db.getTraceWaterfall identity rt run.id =
    if db.authorized identity incident =
      true then db.traceAnswer rt run.id else .error .resourceNotFound := by
  unfold getTraceWaterfall
  dsimp only
  rw [filter_flatMap_keyed wf.runs stored (traceJoin_fst db), ← id, filter_key wf.incidents storedIncident,
    List.map_singleton, List.filter_cons]
  by_cases authorized : db.authorized identity incident = true
  · rw [if_pos authorized, if_pos authorized]
    rfl
  · rw [if_neg authorized, if_neg authorized]
    rfl

end Reads

end SreAgent.Operator.Database
