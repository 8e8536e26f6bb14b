import SreAgent.Ingestion.Execute

/-!
# What ingestion adds

Identifiers, references and statuses of the rows, without the columns that are updated in place: on
these every transaction only adds (`skeleton_merge`). `Consistent old` says that incidents, runs,
jobs and outbox events correspond one to one, the `old` incidents apart. Two consistent sets of rows
without a common key are consistent together, so a transaction may be looked at alone.
-/

namespace SreAgent.Ingestion
open Base Outbox Lifecycle Pubsub

/-- An incident, its identity and whether it is active. -/
structure IncidentRef where
  id : Uuid
  identity : IdentityRef
  status : IncidentStatus
  deriving DecidableEq

structure RunRef where
  id : Uuid
  incidentId : Uuid
  deriving DecidableEq

structure JobRef where
  id : Uuid
  runId : Uuid
  deriving DecidableEq

/-- An outbox event, without the columns of its delivery. -/
structure OutboxRef where
  id : Uuid
  eventType : String
  payload : Json
  idempotencyKey : String

structure Skeleton where
  incidents : List IncidentRef
  runs : List RunRef
  jobs : List JobRef
  outboxEvents : List OutboxRef
  events : List AlertEvent
  links : List IncidentAlert
  dedupKeys : List IngestionDedupKey
  deliveries : List Uuid

namespace Skeleton

def empty : Skeleton := ⟨[], [], [], [], [], [], [], []⟩

instance : Append Skeleton where
  append a b :=
    ⟨a.incidents ++ b.incidents, a.runs ++ b.runs, a.jobs ++ b.jobs, a.outboxEvents ++ b.outboxEvents,
    a.events ++ b.events, a.links ++ b.links, a.dedupKeys ++ b.dedupKeys, a.deliveries ++ b.deliveries⟩

variable (a b c : Skeleton)

@[simp] theorem append_incidents : (a ++ b).incidents = a.incidents ++ b.incidents := rfl
@[simp] theorem append_runs : (a ++ b).runs = a.runs ++ b.runs := rfl
@[simp] theorem append_jobs : (a ++ b).jobs = a.jobs ++ b.jobs := rfl
@[simp] theorem append_outboxEvents : (a ++ b).outboxEvents = a.outboxEvents ++ b.outboxEvents := rfl
@[simp] theorem append_events : (a ++ b).events = a.events ++ b.events := rfl
@[simp] theorem append_links : (a ++ b).links = a.links ++ b.links := rfl
@[simp] theorem append_dedupKeys : (a ++ b).dedupKeys = a.dedupKeys ++ b.dedupKeys := rfl
@[simp] theorem append_deliveries : (a ++ b).deliveries = a.deliveries ++ b.deliveries := rfl

@[simp] theorem append_empty : a ++ empty = a := by
  show Skeleton.mk _ _ _ _ _ _ _ _ = a
  simp [empty]

@[simp] theorem empty_append : empty ++ a = a := rfl

theorem append_assoc : a ++ b ++ c = a ++ (b ++ c) := by
  show Skeleton.mk _ _ _ _ _ _ _ _ = Skeleton.mk _ _ _ _ _ _ _ _
  simp

end Skeleton

def Incident.ref (row : Incident) : IncidentRef := ⟨row.id, row.identity, row.status⟩

def runRef (row : RcaRun) : RunRef := ⟨row.id, row.incidentId⟩

def jobRef (row : WorkerJob) : JobRef := ⟨row.id, row.rcaRunId⟩

def outboxRef (row : OutboxEvent) : OutboxRef := ⟨row.id, row.eventType, row.payload, row.idempotencyKey⟩

/-- The rows of the tables. -/
def Tables.skeleton (t : Tables) : Skeleton :=
  ⟨t.incidents.map Incident.ref, t.runs.map runRef, t.jobs.map jobRef, t.outboxEvents.map outboxRef,
    t.events, t.links, t.dedupKeys, t.deliveries.map (·.id)⟩

section

variable (t : Tables)

@[simp] theorem Tables.skeleton_incidents : t.skeleton.incidents = t.incidents.map Incident.ref := rfl
@[simp] theorem Tables.skeleton_runs : t.skeleton.runs = t.runs.map runRef := rfl
@[simp] theorem Tables.skeleton_jobs : t.skeleton.jobs = t.jobs.map jobRef := rfl
@[simp] theorem Tables.skeleton_outboxEvents : t.skeleton.outboxEvents = t.outboxEvents.map outboxRef := rfl
@[simp] theorem Tables.skeleton_events : t.skeleton.events = t.events := rfl
@[simp] theorem Tables.skeleton_links : t.skeleton.links = t.links := rfl
@[simp] theorem Tables.skeleton_dedupKeys : t.skeleton.dedupKeys = t.dedupKeys := rfl
@[simp] theorem Tables.skeleton_deliveries : t.skeleton.deliveries = t.deliveries.map (·.id) := rfl

end

/-- The rows a write adds. -/
def Write.adds : Write → Skeleton
  | .insertDelivery row => { Skeleton.empty with deliveries := [row.id] }
  | .insertDedupKey row => { Skeleton.empty with dedupKeys := [row] }
  | .insertEvent row => { Skeleton.empty with events := [row] }
  | .insertIncident row => { Skeleton.empty with incidents := [row.ref] }
  | .insertLink row => { Skeleton.empty with links := [row] }
  | .insertRun row => { Skeleton.empty with runs := [runRef row] }
  | .insertJob row => { Skeleton.empty with jobs := [jobRef row] }
  | .insertOutboxEvent row => { Skeleton.empty with outboxEvents := [outboxRef row] }
  | _ => .empty

/-- The rows a transaction adds. -/
def added : List Write → Skeleton
  | [] => .empty
  | write :: rest => write.adds ++ added rest

@[simp] theorem added_nil : added [] = .empty := rfl

@[simp] theorem added_cons (write : Write) (rest : List Write) :
    added (write :: rest) = write.adds ++ added rest := rfl

@[simp] theorem added_append (writes more : List Write) :
    added (writes ++ more) = added writes ++ added more := by
  induction writes with
  | nil => rfl
  | cons write rest ih => rw [List.cons_append, added_cons, added_cons, ih, Skeleton.append_assoc]

/-- A write adds its rows to the skeleton. -/
theorem skeleton_apply (t : Tables) (write : Write) :
    (write.apply t).skeleton = t.skeleton ++ write.adds := by
  cases write with
  | finishDelivery id status processedAt =>
    have same : ∀ r : WebhookDelivery, (r.finish status processedAt).id = r.id := fun _ => rfl
    simp [Write.apply, Tables.skeleton, Write.adds, Table.map_updateWhere same]
  | setAlertState id state updatedAt =>
    have same : ∀ r : Incident, (r.setAlertState state updatedAt).ref = r.ref := fun _ => rfl
    simp [Write.apply, Tables.skeleton, Write.adds, Table.map_updateWhere same]
  | setPayload id payload =>
    have same : ∀ r : WorkerJob, jobRef { r with payload } = jobRef r := fun _ => rfl
    simp [Write.apply, Tables.skeleton, Write.adds, Table.map_updateWhere same]
  | insertDelivery row | insertDedupKey row | insertEvent row | insertIncident row | insertLink row
  | insertRun row | insertJob row | insertOutboxEvent row =>
    simp only [Write.apply, Tables.skeleton, Write.adds, List.map_append, List.map_cons, List.map_nil]
    show Skeleton.mk _ _ _ _ _ _ _ _ = Skeleton.mk _ _ _ _ _ _ _ _
    simp [Skeleton.empty]
  | _ => simp only [Write.apply, Tables.skeleton, Write.adds, Skeleton.append_empty]

/-- On the skeleton a transaction only adds. -/
theorem skeleton_merge (t : Tables) (writes : List Write) :
    (t.merge writes).skeleton = t.skeleton ++ added writes := by
  induction writes generalizing t with
  | nil => exact (Skeleton.append_empty _).symm
  | cons write rest ih =>
    have : t.merge (write :: rest) = (write.apply t).merge rest := rfl
    rw [this, ih, skeleton_apply, added_cons, Skeleton.append_assoc]

/-! ## Unique keys -/

def IncidentRef.keys (r : IncidentRef) : List Key :=
  .incident r.id :: if r.status.Active then [.activeIdentity r.identity] else []

/-- The unique keys of the rows. -/
def Skeleton.keys (s : Skeleton) : List Key :=
  s.incidents.flatMap IncidentRef.keys ++ s.runs.map (fun r => .run r.id) ++
    s.jobs.flatMap (fun r => [.job r.id, .jobOfRun r.runId]) ++
    s.outboxEvents.flatMap (fun r => [.outboxEvent r.id, .idempotency r.idempotencyKey]) ++
    s.events.map (fun r => .event r.id) ++ s.dedupKeys.map (fun r => .dedup r.sourceId r.dedupKey) ++
    s.deliveries.map Key.delivery

/-- An incident holds its identifier, and its identity while it is active. -/
theorem IncidentRef.mem_keys {r : IncidentRef} {k : Key} :
    k ∈ r.keys ↔ k = .incident r.id ∨ r.status.Active ∧ k = .activeIdentity r.identity := by
  unfold keys
  split <;> simp [*]

section Keys

variable {s : Skeleton} {id : Uuid}

@[simp] theorem Skeleton.incident_mem_keys : Key.incident id ∈ s.keys ↔ ∃ r ∈ s.incidents, r.id = id := by
  simp [keys, IncidentRef.mem_keys, eq_comm]

@[simp] theorem Skeleton.activeIdentity_mem_keys {identity : IdentityRef} :
    Key.activeIdentity identity ∈ s.keys ↔ ∃ r ∈ s.incidents, r.status.Active ∧ r.identity = identity := by
  simp [keys, IncidentRef.mem_keys, eq_comm]

@[simp] theorem Skeleton.run_mem_keys : Key.run id ∈ s.keys ↔ ∃ r ∈ s.runs, r.id = id := by
  simp [keys, IncidentRef.mem_keys]

@[simp] theorem Skeleton.job_mem_keys : Key.job id ∈ s.keys ↔ ∃ r ∈ s.jobs, r.id = id := by
  simp [keys, IncidentRef.mem_keys, eq_comm]

@[simp] theorem Skeleton.jobOfRun_mem_keys : Key.jobOfRun id ∈ s.keys ↔ ∃ r ∈ s.jobs, r.runId = id := by
  simp [keys, IncidentRef.mem_keys, eq_comm]

@[simp] theorem Skeleton.outboxEvent_mem_keys : Key.outboxEvent id ∈ s.keys ↔
      ∃ r ∈ s.outboxEvents, r.id = id := by
  simp [keys, IncidentRef.mem_keys, eq_comm]

@[simp] theorem Skeleton.idempotency_mem_keys {key : String} :
    Key.idempotency key ∈ s.keys ↔ ∃ r ∈ s.outboxEvents, r.idempotencyKey = key := by
  simp [keys, IncidentRef.mem_keys, eq_comm]

@[simp] theorem Skeleton.event_mem_keys : Key.event id ∈ s.keys ↔ ∃ r ∈ s.events, r.id = id := by
  simp [keys, IncidentRef.mem_keys]

@[simp] theorem Skeleton.dedup_mem_keys {key : String} :
    Key.dedup id key ∈ s.keys ↔ ∃ r ∈ s.dedupKeys, r.sourceId = id ∧ r.dedupKey = key := by
  simp [keys, IncidentRef.mem_keys]

@[simp] theorem Skeleton.delivery_mem_keys : Key.delivery id ∈ s.keys ↔ id ∈ s.deliveries := by
  simp [keys, IncidentRef.mem_keys]

end Keys

theorem Skeleton.mem_keys_append {a b : Skeleton} {k : Key} : k ∈ (a ++ b).keys ↔
      k ∈ a.keys ∨ k ∈ b.keys := by
  simp only [keys, append_incidents, append_runs, append_jobs, append_outboxEvents, append_events,
    append_dedupKeys, append_deliveries, List.flatMap_append, List.map_append, List.mem_append]
  tauto

/-- The keys of two skeletons are the keys of both. -/
theorem Skeleton.keys_append_perm (a b : Skeleton) : (a ++ b).keys.Perm (a.keys ++ b.keys) := by
  classical
  rw [List.perm_iff_count]
  intro k
  simp only [keys, append_incidents, append_runs, append_jobs, append_outboxEvents, append_events,
    append_dedupKeys, append_deliveries, List.flatMap_append, List.map_append, List.count_append]
  omega

/-- Every key of an added row is held. -/
theorem keys_added {writes : List Write} {k : Key} (h : k ∈ (added writes).keys) : k ∈ heldKeys writes := by
  induction writes with
  | nil => cases h
  | cons write rest ih =>
    rw [added_cons, Skeleton.mem_keys_append] at h
    rw [heldKeys, List.flatMap_cons, List.mem_append]
    refine h.imp (fun h => ?_) ih
    cases write with
    | insertRun row =>
      have : k = .run row.id := by simpa [Write.adds, Skeleton.keys, Skeleton.empty, runRef] using h
      simp [this, Write.keys, runKeys]
    | insertDelivery row | insertDedupKey row | insertEvent row | insertIncident row | insertJob row
    | insertOutboxEvent row =>
      simpa [Write.adds, Skeleton.keys, Skeleton.empty, Write.keys, Incident.keys, IncidentRef.keys,
        Incident.ref, jobRef, outboxRef] using h
    | _ => simp [Write.adds, Skeleton.keys, Skeleton.empty] at h

/-- Rows of two sets without a common key. -/
theorem Skeleton.nodup_append {a b : Skeleton} (ha : a.keys.Nodup) (hb : b.keys.Nodup)
    (apart : ∀ k ∈ a.keys, k ∉ b.keys) :
    (a ++ b).keys.Nodup := by
  rw [(keys_append_perm a b).nodup_iff, List.nodup_append]
  exact ⟨ha, hb, fun k hk k' hk' same => apart k hk (same ▸ hk')⟩

/-- Skeletons with unique keys together have unique keys each, and none in common. -/
theorem Skeleton.nodup_of_append {a b : Skeleton} (h : (a ++ b).keys.Nodup) :
    a.keys.Nodup ∧ b.keys.Nodup ∧ ∀ k ∈ a.keys, k ∉ b.keys := by
  rw [(keys_append_perm a b).nodup_iff, List.nodup_append] at h
  exact ⟨h.1, h.2.1, fun k hk hk' => h.2.2 k hk k hk' rfl⟩

/-! ## Correspondence -/

/-- The message an outbox event carries, as the publisher sends it and the worker reads it. -/
def OutboxRef.Carries (e : OutboxRef) (m : RcaJobMessage) : Prop :=
  e.eventType = "RCA_RUN_REQUESTED" ∧ RcaJobMessage.fromMapping e.payload = some m ∧
    ∀ i, RcaJobMessage.Readable i → RcaJobMessage.fromBytes i m.toBytes = some m

/-- The incident has one run, one job and one outbox event, and the event says so. -/
def Skeleton.Worked (s : Skeleton) (incidentId : Uuid) : Prop :=
  ∃ run job event, s.runs.filter (fun r => r.incidentId = incidentId) = [run] ∧
    s.jobs.filter (fun j => j.runId = run.id) = [job] ∧
    s.outboxEvents.filter (fun e => e.idempotencyKey = idempotencyKey run.id) = [event] ∧
    event.Carries ⟨job.id, run.id, incidentId⟩

/-- No key twice and no dangling reference. -/
structure Skeleton.WellFormed (s : Skeleton) : Prop where
  keys : s.keys.Nodup
  runIncident : ∀ run ∈ s.runs, run.incidentId ∈ s.incidents.map (·.id)
  jobRun : ∀ job ∈ s.jobs, job.runId ∈ s.runs.map (·.id)
  eventRun : ∀ event ∈ s.outboxEvents, event.idempotencyKey ∈ s.runs.map fun run => idempotencyKey run.id
  linkEvent : ∀ link ∈ s.links, link.alertEventId ∈ s.events.map (·.id)

/-- Every incident that is not an old one has its work. -/
structure Skeleton.Consistent (old : List Uuid) (s : Skeleton) : Prop extends s.WellFormed where
  worked : ∀ incident ∈ s.incidents, incident.id ∉ old → s.Worked incident.id

/-- Tables in which the incidents that are not old ones have their work. -/
def Tables.Consistent (old : List Uuid) (t : Tables) : Prop := t.skeleton.Consistent old

/-- The idempotency key of a run is its own. -/
theorem idempotencyKey_injective {a b : Uuid} (h : idempotencyKey a = idempotencyKey b) : a = b := by
  have texts : a.text = b.text := by
    simpa [idempotencyKey, String.ext_iff] using h
  exact Uuid.text_injective texts

namespace Skeleton

variable {a b : Skeleton} {id : Uuid}

/-- What is done for an incident is not touched by rows that share no key with it. -/
theorem Worked.append (hb : b.WellFormed) (apart : ∀ k ∈ a.keys, k ∉ b.keys)
    (hid : id ∈ a.incidents.map (·.id)) (worked : a.Worked id) : (a ++ b).Worked id ∧ (b ++ a).Worked id := by
  obtain ⟨run, job, event, hrun, hjob, hevent, carries⟩ := worked
  have runHere : run ∈ a.runs := (List.mem_filter.1 (hrun ▸ List.mem_cons_self : run ∈ a.runs.filter _)).1
  have noRun : b.runs.filter (fun r => r.incidentId = id) = [] := by
    rw [List.filter_eq_nil_iff]
    intro r hr same
    have inB : id ∈ b.incidents.map (·.id) := by
      rw [← of_decide_eq_true same]
      exact hb.runIncident r hr
    exact apart _ (incident_mem_keys.2 (List.mem_map.1 hid)) (incident_mem_keys.2 (List.mem_map.1 inB))
  have runKey : Key.run run.id ∈ a.keys := run_mem_keys.2 ⟨run, runHere, rfl⟩
  have noJob : b.jobs.filter (fun j => j.runId = run.id) = [] := by
    rw [List.filter_eq_nil_iff]
    intro j hj same
    refine apart _ runKey (run_mem_keys.2 (List.mem_map.1 ?_))
    rw [← of_decide_eq_true same]
    exact hb.jobRun j hj
  have noEvent : b.outboxEvents.filter (fun e => e.idempotencyKey = idempotencyKey run.id) = [] := by
    rw [List.filter_eq_nil_iff]
    intro e he same
    obtain ⟨r, hr, hkey⟩ := List.mem_map.1 (hb.eventRun e he)
    have sameRun : r.id = run.id := idempotencyKey_injective (hkey.trans (of_decide_eq_true same))
    exact apart _ runKey (run_mem_keys.2 ⟨r, hr, sameRun⟩)
  constructor
  · refine ⟨run, job, event, ?_, ?_, ?_, carries⟩
    · rw [append_runs, List.filter_append, hrun, noRun, List.append_nil]
    · rw [append_jobs, List.filter_append, hjob, noJob, List.append_nil]
    · rw [append_outboxEvents, List.filter_append, hevent, noEvent, List.append_nil]
  · refine ⟨run, job, event, ?_, ?_, ?_, carries⟩
    · rw [append_runs, List.filter_append, hrun, noRun, List.nil_append]
    · rw [append_jobs, List.filter_append, hjob, noJob, List.nil_append]
    · rw [append_outboxEvents, List.filter_append, hevent, noEvent, List.nil_append]

/-- Well-formed skeletons without a common key are well formed together. -/
theorem WellFormed.append (ha : a.WellFormed) (hb : b.WellFormed) (apart : ∀ k ∈ a.keys, k ∉ b.keys) :
    (a ++ b).WellFormed where
  keys := nodup_append ha.keys hb.keys apart
  runIncident run hrun := by
    rw [append_incidents, List.map_append, List.mem_append]
    exact (List.mem_append.1 hrun).imp (ha.runIncident run) (hb.runIncident run)
  jobRun job hjob := by
    rw [append_runs, List.map_append, List.mem_append]
    exact (List.mem_append.1 hjob).imp (ha.jobRun job) (hb.jobRun job)
  eventRun event hevent := by
    rw [append_runs, List.map_append, List.mem_append]
    exact (List.mem_append.1 hevent).imp (ha.eventRun event) (hb.eventRun event)
  linkEvent link hlink := by
    rw [append_events, List.map_append, List.mem_append]
    exact (List.mem_append.1 hlink).imp (ha.linkEvent link) (hb.linkEvent link)

/-- Consistent rows without a common key are consistent together. -/
theorem Consistent.append {old : List Uuid} (ha : a.Consistent old) (hb : b.Consistent old)
    (apart : ∀ k ∈ a.keys, k ∉ b.keys) :
    (a ++ b).Consistent old where
  toWellFormed := ha.toWellFormed.append hb.toWellFormed apart
  worked incident hincident fresh := by
    rcases List.mem_append.1 hincident with h | h
    · exact (Worked.append hb.toWellFormed apart (List.mem_map_of_mem h) (ha.worked incident h fresh)).1
    · exact (Worked.append ha.toWellFormed (fun k hk hk' => apart k hk' hk) (List.mem_map_of_mem h)
        (hb.worked incident h fresh)).2

theorem wellFormed_empty : empty.WellFormed := ⟨List.nodup_nil, nofun, nofun, nofun, nofun⟩

theorem consistent_empty {old : List Uuid} : empty.Consistent old := ⟨wellFormed_empty, nofun⟩

end Skeleton

end SreAgent.Ingestion
