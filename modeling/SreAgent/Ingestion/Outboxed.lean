import SreAgent.Base.Sha256
import SreAgent.Ingestion.Turns

/-!
# The transactional outbox of ingestion

Calls of `execute` interleave statement by statement. In every reachable state the committed tables
hold one active incident for an identity and the work of every incident opened since the start;
the events a call has claimed have a row each, and a firing one is linked to the active incident of
its identity; a call that raised has changed nothing; and a call that committed hands on the outbox
events it created.
-/

namespace SreAgent.Ingestion
open Base Transaction Alerts Outbox Lifecycle Pubsub

/-- The server of ingestion, started on some tables. -/
def ingestion (b : Backend) (maxBodyBytes : Nat) (publishing : Bool) (start : Tables) :
    System (Server Stmt Call IngestionResult Tables (List Write) Uuid) (Label Call Uuid) :=
  server sql (execute b maxBodyBytes) (handedEvents publishing) (· = start)

/-- What the end of a call leaves true: its writes and what it saw are in the tables. -/
def Settled (b : Backend) (maxBodyBytes : Nat) (call : Call) (result : IngestionResult) (own : List Write)
    (store : Tables) :
    Prop :=
  Executed b maxBodyBytes call store.skeleton result own ∧ (added own).Within store.skeleton

variable {b : Backend} {maxBodyBytes : Nat} {publishing : Bool} {old : List Uuid} {start : Tables}

/-- `execute` keeps the tables consistent and ends as specified, whatever happens in between. -/
theorem execute_verified :
    Verified sql (execute b maxBodyBytes) (Tables.Consistent old) (Ended b maxBodyBytes old)
    (Settled b maxBodyBytes) where
  start _ _ inv := execute_spec inv
  commit call result store own inv ended := by
    have merged : (sql.merge store own).skeleton = seen store own := skeleton_view store own
    constructor
    · show (sql.merge store own).skeleton.Consistent old
      rw [merged]
      exact inv.append ended.consistent (Skeleton.nodup_of_append ended.fresh).2.2
    · rw [Settled, merged]
      exact ⟨ended.executed.mono (Skeleton.within_append _ _), Skeleton.within_append_right _ _⟩
  keep call result own store other settled _ _ := by
    have grown : store.skeleton.Within (sql.merge store other).skeleton := by
      rw [show (sql.merge store other).skeleton = seen store other from skeleton_view store other]
      exact Skeleton.within_append _ _
    exact ⟨settled.1.mono grown, settled.2.trans grown⟩

/-- The incidents before the start. -/
def Tables.oldIncidents (t : Tables) : List Uuid := t.incidents.map (·.id)

/-- Tables with unique keys and references that resolve are consistent to start with. -/
theorem consistent_start (h : start.skeleton.WellFormed) : start.Consistent start.oldIncidents where
  toWellFormed := h
  worked incident hincident new := by
    obtain ⟨row, hrow, rfl⟩ := List.mem_map.1 hincident
    exact absurd (List.mem_map_of_mem hrow) new

/-- What holds of the committed tables and of every call, in every reachable state. -/
theorem ingestion_sound (wf : start.skeleton.WellFormed)
    {s : Server Stmt Call IngestionResult Tables (List Write) Uuid}
    (h : (ingestion b maxBodyBytes publishing start).Reachable s) :
    Sound sql (handedEvents publishing) (Tables.Consistent start.oldIncidents)
    (Ended b maxBodyBytes start.oldIncidents)
      (Settled b maxBodyBytes) s :=
  execute_verified.reachable_sound (fun store (same : store = start) => same.symm ▸ consistent_start wf) h

/-! ## The claims of a call -/

/-- The row of an event of a delivery, with what identifies the event and with the columns its
identity is made of. -/
structure CanonicalAlertEvent.StoredAs (event : CanonicalAlertEvent) (deliveryId : Uuid)
    (row : AlertEvent) : Prop where
  deliveryId : row.deliveryId = deliveryId
  sourceId : row.sourceId = event.sourceId
  fingerprint : row.fingerprint = event.fingerprint
  alertState : row.alertState = event.status
  startsAt : row.startsAt = event.startsAt
  endsAt : row.endsAt = event.endsAt
  labels : dumpsFields event.labels = some row.labels
  folderCode : row.folderCode = event.folderCode
  alertName : row.alertName = event.alertName

/-- The row of an event is linked to the active incident of the event's identity. -/
def Tables.Linked (b : Backend) (t : Tables) (event : CanonicalAlertEvent) (row : AlertEvent) : Prop :=
  ∃ identity incident, makeIncidentIdentityV2 b.toHashing event.sourceId event.folderCode event.alertName
    event.fingerprint =
      some identity ∧ incident ∈ t.incidents ∧ incident.identity = (identity.version, identity.key) ∧
        incident.status.Active ∧
    ⟨incident.id, row.id⟩ ∈ t.links

/-- The events a delivery has claimed, each with its key and its row, which is linked if the event fires. -/
structure Tables.Claims (b : Backend) (t : Tables) (deliveryId : Uuid) (claimed : List CanonicalAlertEvent)
    (new : Skeleton) : Prop where
  keys : new.dedupKeys = claimed.map fun event => ⟨event.sourceId, event.dedupKey, deliveryId⟩
  rows : List.Forall₂ (fun event row => event.StoredAs deliveryId row ∧ row ∈ t.events ∧
    (event.status = .FIRING → t.Linked b event row))
    claimed new.events

/-- Claims of two parts are the claims of the whole. -/
theorem Tables.Claims.append {t : Tables} {deliveryId : Uuid} {claimed more : List CanonicalAlertEvent}
    {new newer : Skeleton} (h : t.Claims b deliveryId claimed new) (h' : t.Claims b deliveryId more newer) :
    t.Claims b deliveryId (claimed ++ more) (new ++ newer) where
  keys := by rw [Skeleton.append_dedupKeys, h.keys, h'.keys, List.map_append]
  rows := List.rel_append h.rows h'.rows

section

variable {call : Call} {deliveryId : Uuid} {alert : CanonicalAlertEvent × Json}
  {alerts : List (CanonicalAlertEvent × Json)}
  {writes : List Write} {progress after : Progress} {t : Tables} {v : Skeleton}

/-- What is filed for a firing event links it to an active incident. -/
theorem Filed.linked {event : CanonicalAlertEvent} {identity : IncidentIdentity} {eventId : Uuid}
    {incidentId outboxEventId : Option Uuid}
    (h : Filed call event identity eventId t.skeleton writes incidentId outboxEventId)
    (within : (added writes).Within t.skeleton) (firing : event.status = .FIRING) :
    ∃ incident ∈ t.incidents, incident.identity = (identity.version, identity.key) ∧ incident.status.Active ∧
      ⟨incident.id, eventId⟩ ∈ t.links := by
  cases h with
  | @created reopenedFrom incidentId =>
    have here : ((incidentValues call event identity reopenedFrom).row incidentId).ref ∈
        t.skeleton.incidents :=
      within.incidents (by simp [Write.adds, Skeleton.empty])
    obtain ⟨incident, hincident, same⟩ := List.mem_map.1 here
    have link : ⟨incidentId, eventId⟩ ∈ t.links :=
      within.links (by simp [workWrites, Write.adds, Skeleton.empty])
    have id : incident.id = incidentId := congrArg IncidentRef.id same
    have identity := congrArg IncidentRef.identity same
    have status : incident.status = .OPEN := congrArg IncidentRef.status same
    exact ⟨incident, hincident, identity, .inl status, id ▸ link⟩
  | @reused incidentId _ active =>
    obtain ⟨r, hr, rfl, sameIdentity, isActive⟩ := active
    obtain ⟨incident, hincident, rfl⟩ := List.mem_map.1 hr
    have link : ⟨incident.ref.id, eventId⟩ ∈ t.links := within.links (by simp [Write.adds, Skeleton.empty])
    exact ⟨incident, hincident, sameIdentity, isActive, link⟩
  | resolved resolved => exact absurd (firing.symm.trans resolved) (by decide)
  | unknown resolved => exact absurd (firing.symm.trans resolved) (by decide)

/-- What is filed for an event holds neither a key nor a row of an event. -/
theorem Filed.no_claim {event : CanonicalAlertEvent} {identity : IncidentIdentity} {eventId : Uuid}
    {incidentId outboxEventId : Option Uuid}
    (h : Filed call event identity eventId v writes incidentId outboxEventId) :
    (added writes).dedupKeys = [] ∧ (added writes).events = [] := by
  cases h <;> simp [workWrites, Write.adds, Skeleton.empty]

/-- A turn claims its event, or nothing. -/
theorem Turn.claimed_events (h : Turn b call deliveryId v alert writes progress after)
    (mine : alert.1.sourceId = call.sourceId) (seen : v.Within t.skeleton)
    (within : (added writes).Within t.skeleton) :
    ∃ claimed, claimed.Sublist [alert.1] ∧ t.Claims b deliveryId claimed (added writes) := by
  cases h with
  | duplicate => exact ⟨[], List.nil_sublist _, rfl, .nil⟩
  | @claimed event rawAlert _ identity labels eventId writes incidentId outboxEventId identified serialised
    filed =>
    rw [added_append] at within
    have filedWithin := (Skeleton.within_append_right _ _).trans within
    obtain ⟨noKeys, noEvents⟩ := filed.no_claim
    have here : claimedRow call deliveryId event rawAlert identity labels eventId ∈ t.events :=
      within.events (by simp [claimWrites, Write.adds, Skeleton.empty])
    have linked : event.status = .FIRING →
        t.Linked b event (claimedRow call deliveryId event rawAlert identity labels eventId) := by
      intro firing
      obtain ⟨incident, hincident, sameIdentity, active, link⟩ :=
        (filed.mono (seen.append ((Skeleton.within_append _ _).trans within))).linked filedWithin firing
      exact ⟨identity, incident, mine ▸ identified, hincident, sameIdentity, active, link⟩
    refine ⟨[event], List.Sublist.refl _, ?_, ?_⟩
    · rw [added_append, Skeleton.append_dedupKeys, noKeys]
      simp [claimWrites, Write.adds, Skeleton.empty, ← mine]
    · rw [added_append, Skeleton.append_events, noEvents]
      simp only [claimWrites, added_cons, Write.adds, Skeleton.empty, added_nil, Skeleton.append_events,
        List.nil_append, List.append_nil]
      exact .cons ⟨⟨rfl, rfl, rfl, rfl, rfl, rfl, serialised, rfl, rfl⟩, here, linked⟩ .nil

/-- The turns claim some of their events, in order. -/
theorem Turns.claimed_events (h : Turns b call deliveryId v alerts writes progress after)
    (mine : ∀ alert ∈ alerts, alert.1.sourceId = call.sourceId) (seen : v.Within t.skeleton)
    (within : (added writes).Within t.skeleton) :
    ∃ claimed, claimed.Sublist (alerts.map Prod.fst) ∧ t.Claims b deliveryId claimed (added writes) := by
  induction h with
  | nil => exact ⟨[], List.nil_sublist _, rfl, .nil⟩
  | @cons _ alert alerts writes more _ _ _ turn _ ih =>
    rw [added_append] at within ⊢
    have first := (Skeleton.within_append _ _).trans within
    obtain ⟨here, sub, claims⟩ := turn.claimed_events (mine alert List.mem_cons_self) seen first
    obtain ⟨later, sub', claims'⟩ := ih (fun a ha => mine a (List.mem_cons_of_mem _ ha)) (seen.append first)
      ((Skeleton.within_append_right _ _).trans within)
    exact ⟨here ++ later, sub.append sub', claims.append claims'⟩

/-- The outbox events of a turn. -/
theorem Turn.outboxEventIds (h : Turn b call deliveryId v alert writes progress after) :
    after.outboxEventIds = progress.outboxEventIds ++ (added writes).outboxEvents.map (·.id) := by
  cases h with
  | duplicate => simp [Skeleton.empty]
  | claimed _ _ filed =>
    cases filed <;> simp [Progress.add, claimWrites, workWrites, Write.adds, Skeleton.empty, outboxRef,
      newOutboxEvent]

/-- The identifiers that a call returns are those of the outbox events it adds. -/
theorem Turns.outboxEventIds (h : Turns b call deliveryId v alerts writes progress after) :
    after.outboxEventIds = progress.outboxEventIds ++ (added writes).outboxEvents.map (·.id) := by
  induction h with
  | nil => simp [Skeleton.empty]
  | cons turn _ ih =>
    rw [ih, turn.outboxEventIds, added_append, Skeleton.append_outboxEvents, List.map_append,
      List.append_assoc]

end

/-! ## Every run -/

/-- The incident has one run, one job and one outbox event, which carries them. -/
def Tables.Worked (t : Tables) (incidentId : Uuid) : Prop :=
  ∃ run job event, t.runs.filter (fun r => r.incidentId = incidentId) = [run] ∧
    t.jobs.filter (fun j => j.rcaRunId = run.id) = [job] ∧
    t.outboxEvents.filter (fun e => e.idempotencyKey = idempotencyKey run.id) = [event] ∧
    (outboxRef event).Carries ⟨job.id, run.id, incidentId⟩

/-- One row among the images is the image of one row. -/
theorem filter_map_singleton {α β : Type} {f : α → β} {p : β → Bool} {rows : List α} {x : β}
    (h : (rows.map f).filter p = [x]) :
    ∃ y, rows.filter (p ∘ f) = [y] ∧ f y = x := by
  rw [List.filter_map, List.map_eq_singleton_iff] at h
  exact h

/-- Work that the keys show is work of the tables. -/
theorem Tables.worked_of_skeleton {t : Tables} {incidentId : Uuid} (h : t.skeleton.Worked incidentId) :
    t.Worked incidentId := by
  obtain ⟨_, _, _, runs, jobs, outboxEvents, carries⟩ := h
  obtain ⟨run, hrun, rfl⟩ := filter_map_singleton runs
  obtain ⟨job, hjob, rfl⟩ := filter_map_singleton jobs
  obtain ⟨event, hevent, rfl⟩ := filter_map_singleton outboxEvents
  exact ⟨run, job, event, hrun, hjob, hevent, carries⟩

/-- The alerts of a call, as they are normalised. -/
def Call.events (b : Backend) (maxBodyBytes : Nat) (call : Call) : List CanonicalAlertEvent :=
  match parseGrafanaBody b call.rawBody maxBodyBytes with
  | .valid webhook => normalizeAlerts b.toHashing call.sourceId call.rawBody webhook call.engine
  | _ => []

/-- What holds in every reachable state of a server of ingestion. -/
structure Outboxed (b : Backend) (maxBodyBytes : Nat) (publishing : Bool) (start : Tables)
    (s : Server Stmt Call IngestionResult Tables (List Write) Uuid) : Prop where
  /-- An identity has at most one active incident. -/
  oneActive : ∀ identity, (s.store.incidents.filter fun r => r.identity = identity ∧
    r.status.Active).length ≤ 1
  /-- An incident opened since the start has its work. -/
  worked : ∀ incident ∈ s.store.incidents, incident.id ∉ start.oldIncidents → s.store.Worked incident.id
  /-- The keys and the events a committed call has written are those of some of its alerts, and each
  of these that fires is linked to the active incident of its identity. -/
  claimed : ∀ (i : Nat) call result own performed todo,
    s.sessions[i]? = some (call, Session.committed result own performed todo) →
    ∃ claimed, claimed.Sublist (call.events b maxBodyBytes) ∧
      s.store.Claims b result.deliveryId claimed (added own)
  /-- A committed call hands on the outbox events it created, in order. -/
  handed : ∀ (i : Nat) call result own performed todo,
    s.sessions[i]? = some (call, Session.committed result own performed todo) →
    result.outboxEventIds = (added own).outboxEvents.map (·.id) ∧
      performed ++ todo = handedEvents publishing result
  /-- Only a commit changes the tables: a call that raises leaves them as they are. -/
  rolledBack : ∀ a t, (ingestion b maxBodyBytes publishing start).step s a = some t → (∀ i, a ≠ .commit i) →
    t.store = s.store
  /-- A call that raised neither commits nor publishes later. -/
  ended : ∀ (i : Nat) call a t, s.sessions[i]? = some (call, Session.aborted) →
    (ingestion b maxBodyBytes publishing start).step s a = some t →
      t.sessions[i]? = some (call, Session.aborted)

theorem rawAlerts_length {call : Call} {document : Json} {count : Nat} {items : List Json}
    (h : rawAlerts b call.rawBody count = some (document, items)) : items.length = count := by
  unfold rawAlerts at h
  split at h
  · split at h
    · split at h
      · next same =>
        cases h
        exact same
      · cases h
    · cases h
  · cases h

/-- What a call that came to its end has claimed. -/
theorem Executed.claimed_events {call : Call} {result : IngestionResult} {own : List Write} {t : Tables}
    (h : Executed b maxBodyBytes call t.skeleton result own) (within : (added own).Within t.skeleton) :
    ∃ claimed, claimed.Sublist (call.events b maxBodyBytes) ∧
      t.Claims b result.deliveryId claimed (added own) := by
  cases h with
  | @intro webhook document items deliveryId writes progress parsed loaded stored counted turns =>
    have events :
      ((normalizeAlerts b.toHashing call.sourceId call.rawBody webhook call.engine).zip items).map Prod.fst =
        call.events b maxBodyBytes := by
      rw [Call.events, parsed]
      exact List.map_fst_zip (by simp [normalizeAlerts, rawAlerts_length loaded])
    have source :
      ∀ alert ∈ (normalizeAlerts b.toHashing call.sourceId call.rawBody webhook call.engine).zip items,
        alert.1.sourceId = call.sourceId := by
      intro alert ha
      obtain ⟨grafana, -, same⟩ := List.mem_map.1 (List.of_mem_zip ha).1
      rw [← same]
      rfl
    obtain ⟨claimed, sub, keys, rows⟩ :=
      turns.claimed_events source (within_start within) (within_loop within)
    refine ⟨claimed, events ▸ sub, ?_, ?_⟩
    · simpa [Write.adds, Skeleton.empty, Progress.result] using keys
    · simpa [Write.adds, Skeleton.empty, Progress.result] using rows

/-- Two active incidents of one identity would share its key. -/
theorem Tables.one_active {t : Tables} (nodup : t.skeleton.keys.Nodup) (identity : IdentityRef) :
    (t.incidents.filter fun r => r.identity = identity ∧ r.status.Active).length ≤ 1 := by
  have incidents : (t.skeleton.incidents.flatMap IncidentRef.keys).Nodup := by
    simp only [Skeleton.keys, List.append_assoc] at nodup
    exact (List.nodup_append.1 nodup).1
  rw [Tables.skeleton_incidents, List.flatMap_map] at incidents
  have apart := ((List.nodup_flatMap.1 incidents).2).filter fun r => r.identity = identity ∧ r.status.Active
  have here : ∀ r ∈ t.incidents.filter (fun r => r.identity = identity ∧ r.status.Active),
      Key.activeIdentity identity ∈ r.ref.keys := by
    intro r hr
    have found : r.identity = identity ∧ r.status.Active := by simpa using (List.mem_filter.1 hr).2
    exact IncidentRef.mem_keys.2 (.inr ⟨found.2, congrArg _ found.1.symm⟩)
  generalize t.incidents.filter (fun r => r.identity = identity ∧ r.status.Active) = active at apart here ⊢
  cases active with
  | nil => simp
  | cons first active =>
    cases active with
    | nil => simp
    | cons second rest =>
      exact absurd (here second (by simp))
        ((List.pairwise_cons.1 apart).1 second (by simp) (here first (by simp)))

/-- A backend with SHA-256, whose readers take what the samples hold. -/
def sampleBackend : Backend where
  hexdigest := Sha256.hexdigest
  floatText _ := "0.0"
  digits := Sha256.hexdigest_digits
  maxDigits := 4300
  maxDepth := 1000
  readFloat _ := .finite 0
  readJson bs := (JsonBytes.loads ⟨4300, 200, fun _ => .finite 0⟩ bs).toOption.bind Json.text?
  readDatetime
    | .str s =>
      if h : IsoTime.read s < 315537897600000000 then some ⟨IsoTime.read s, some 0, by omega⟩ else none
    | _ => none
  readInt
    | .int n => some n
    | _ => none
  isUrl s := "http".toList <+: s.toList

/-- An alert with some labels, and the instant it starts at. -/
def sampleAlertAt (startsAt : Nat) (status fingerprint : String) (labels : JsonObject) : Json :=
  .obj [("status", .str status), ("labels", .obj labels), ("annotations", .obj []),
    ("startsAt", .str (IsoTime.text startsAt)), ("endsAt", .str (IsoTime.text 0)), ("values", .obj []),
    ("generatorURL", .str "http://grafana"), ("fingerprint", .str fingerprint)]

/-- An alert with some labels. -/
def sampleAlert (status fingerprint : String) (labels : JsonObject) : Json :=
  sampleAlertAt 63922608000000000 status fingerprint labels

/-- The labels of one folder and alert name. -/
def sampleLabels : JsonObject := [("alertname", .str "High CPU"), ("folder", .str "SHOP")]

/-- A call with a webhook of some alerts. -/
def sampleCall (receivedAt : Timestamp) (alerts : List Json) : Call where
  sourceId := 1
  tokenId := "token"
  rawBody :=
    (JsonText.render ⟨true, true, fun _ => ""⟩
      (.obj [("status", .str "firing"), ("alerts", .arr alerts)])).flatMap
    String.utf8EncodeChar
  receivedAt := receivedAt
  engine := ⟨[]⟩
  scope _ := ⟨none, none, none, none⟩

/-- The next statements of a call, with fresh identifiers for what they insert. -/
def answers (i first count : Nat) : List (Label Call Uuid) :=
  (List.range' first count).map fun id => .answer i (BitVec.ofNat 128 id)

/-- A minute after the samples start. -/
def nextMinute : Nat := 63922608060000000

/-- Two calls with firing alerts of one identity: the first, which has two alerts of one fingerprint,
is committed and published, the second fails. -/
def failedRun : List (Label Call Uuid) :=
  [.start
    (sampleCall 1 [sampleAlert "firing" "a" sampleLabels,
        sampleAlertAt nextMinute "firing" "a" sampleLabels]),
    .start (sampleCall 2 [sampleAlert "firing" "b" sampleLabels])] ++
    answers 0 100 10 ++ answers 1 200 2 ++ answers 0 110 18 ++ [.commit 0, .perform 0, .abort 1]

end SreAgent.Ingestion
