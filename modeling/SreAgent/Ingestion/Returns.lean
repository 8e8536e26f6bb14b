import SreAgent.Ingestion.Documents
import SreAgent.Ingestion.Replay

/-!
# When a call comes to its end

A call alone on the tables, with identifiers that no row has. The statements that file an event
never fail then, so the loop comes to its end exactly if every event that is not a duplicate can be
written (`returns_ingestAlerts`).
-/

namespace SreAgent.Ingestion
open Base Transaction Alerts Outbox Lifecycle Pubsub

/-- `uuid4` answers what no row is called, as long as a transaction has at most `n` writes. -/
def Unused (store : Tables) (n : Nat) (pick : List Write → Uuid) : Prop :=
  ∀ own : List Write, own.length ≤ n →
    ∀ kind ∈ [Key.delivery, Key.event, Key.incident, Key.run, Key.job, Key.outboxEvent],
      kind (pick own) ∉ (seen store own).keys

section

variable {store : Tables} {pick : List Write → Uuid} {n : Nat} {own : List Write} {id : Uuid} {α β : Type}
  {b : Backend} {call : Call}
  {deliveryId : Uuid} {event : CanonicalAlertEvent} {rawAlert : Json} {progress : Progress}

/-! ## Rows that are not there -/

theorem any_id {ρ : Type} {rows : List ρ} {p : ρ → Prop} [DecidablePred p] (h : ∀ r ∈ rows, ¬ p r) :
    (rows.any fun r => p r) = false := by
  simpa using h

/-- An identifier outside the keys is that of no event. -/
theorem event_free (free : Key.event id ∉ (seen store own).keys) :
    ∀ r ∈ (store.merge own).events, ¬ r.id = id := by
  rw [← skeleton_view] at free
  exact fun r hr same => free (Skeleton.event_mem_keys.2 ⟨r, hr, same⟩)

theorem incident_free (free : Key.incident id ∉ (seen store own).keys) :
    ∀ r ∈ (store.merge own).incidents, ¬ r.id = id := by
  rw [← skeleton_view] at free
  exact fun r hr same => free (Skeleton.incident_mem_keys.2 ⟨r.ref, List.mem_map_of_mem hr, same⟩)

theorem run_free (free : Key.run id ∉ (seen store own).keys) : ∀ r ∈ (store.merge own).runs, ¬ r.id = id := by
  rw [← skeleton_view] at free
  exact fun r hr same => free (Skeleton.run_mem_keys.2 ⟨runRef r, List.mem_map_of_mem hr, same⟩)

theorem job_free (free : Key.job id ∉ (seen store own).keys) : ∀ r ∈ (store.merge own).jobs, ¬ r.id = id := by
  rw [← skeleton_view] at free
  exact fun r hr same => free (Skeleton.job_mem_keys.2 ⟨jobRef r, List.mem_map_of_mem hr, same⟩)

theorem outboxEvent_free (free : Key.outboxEvent id ∉ (seen store own).keys) :
    ∀ r ∈ (store.merge own).outboxEvents, ¬ r.id = id := by
  rw [← skeleton_view] at free
  exact fun r hr same => free (Skeleton.outboxEvent_mem_keys.2 ⟨outboxRef r, List.mem_map_of_mem hr, same⟩)

theorem not_any {ρ : Type} {rows : List ρ} {p : ρ → Prop} [DecidablePred p] (h : ∀ r ∈ rows, ¬ p r) :
    ¬ (rows.any fun r => p r) = true := by
  simpa using h

/-! ## Filing returns -/

/-- A statement that runs goes on with its answer. -/
theorem returns_stmt {s : Stmt α} {next : α → Tx β} {a : α} {own' : List Write}
    (run : s.exec (store.merge own) own (pick own) = some (a, own')) :
    sql.Returns pick store (.call s next) own ↔ sql.Returns pick store (next a) own' :=
  Dialect.returns_call sql pick store run

/-- The work of an incident without runs is created. -/
theorem returns_createRcaWork {incidentId : Uuid} {availableAt : Timestamp} {f : RcaWorkCreation → Tx β}
    (jobRun : ∀ job ∈ (store.merge own).jobs, ∃ run ∈ (store.merge own).runs, run.id = job.rcaRunId)
    (eventRun : ∀ e ∈ (store.merge own).outboxEvents, ∃ run ∈ (store.merge own).runs,
      idempotencyKey run.id = e.idempotencyKey)
    (noRun : ∀ r ∈ (store.merge own).runs, r.incidentId ≠ incidentId) (unused : Unused store n pick)
    (room : own.length + 3 ≤ n) (next : ∀ a own', sql.Returns pick store (f a) own') :
    sql.Returns pick store (createRcaWork incidentId availableAt >>= f) own := by
  have newRunId := run_free (unused own (by omega) Key.run (by simp))
  let insertedRun := own ++ [.insertRun (newRun (pick own) incidentId availableAt)]
  have runInserted : (Stmt.insertRun (newRun (pick own) incidentId availableAt)).exec (store.merge own) own
    (pick own) =
      some (some (pick own), insertedRun) := by
    have conflict : ∀ r ∈ (store.merge own).runs,
        ¬ (r.id = pick own ∨
          (r.incidentId = incidentId ∧ ActiveRun r.status ∧ ActiveRun RcaRunStatus.QUEUED)) :=
      fun r hr => not_or.2 ⟨newRunId r hr, fun same => noRun r hr same.1⟩
    exact insertUnless_eq_some.2 (.inr ⟨any_id conflict, rfl, rfl, rfl⟩)
  let insertedJob := insertedRun ++ [.insertJob (newJob (pick insertedRun) (pick own) availableAt)]
  have jobs : (store.merge insertedRun).jobs = (store.merge own).jobs := by
    rw [Tables.merge_append]
    rfl
  have jobInserted : (Stmt.insertJob (newJob (pick insertedRun) (pick own) availableAt)).exec
    (store.merge insertedRun) insertedRun
      (pick insertedRun) = some (some (pick insertedRun), insertedJob) := by
    have conflict : ∀ j ∈ (store.merge insertedRun).jobs, ¬ j.rcaRunId = pick own := by
      intro j hj same
      rw [jobs] at hj
      obtain ⟨r, hr, hid⟩ := jobRun j hj
      exact newRunId r hr (hid.trans same)
    have taken := job_free (unused insertedRun (by simp [insertedRun]; omega) Key.job (by simp))
    exact insertUnless_eq_some.2 (.inr ⟨any_id conflict, any_id taken, rfl, rfl⟩)
  let written :=
    insertedJob ++ [.setPayload (pick insertedRun) (workPayload incidentId (pick own) (pick insertedRun))]
  have outboxEvents : (store.merge written).outboxEvents = (store.merge own).outboxEvents := by
    rw [Tables.merge_append, Tables.merge_append, Tables.merge_append]
    rfl
  have eventInserted : (Stmt.insertOutboxEvent (newOutboxEvent (pick written) incidentId (pick own)
      (workPayload incidentId (pick own) (pick insertedRun)) availableAt)).exec (store.merge written)
        written (pick written) =
      some (some (pick written),
        written ++ [.insertOutboxEvent (newOutboxEvent (pick written) incidentId (pick own)
        (workPayload incidentId (pick own) (pick insertedRun)) availableAt)]) := by
    have conflict : ∀ e ∈ (store.merge written).outboxEvents, ¬ e.idempotencyKey =
        idempotencyKey (pick own) := by
      intro e he same
      rw [outboxEvents] at he
      obtain ⟨r, hr, hkey⟩ := eventRun e he
      exact newRunId r hr (idempotencyKey_injective (hkey.trans same))
    have taken :=
      outboxEvent_free (unused written (by simp [written, insertedJob, insertedRun]; omega) Key.outboxEvent
        (by simp))
    exact insertUnless_eq_some.2 (.inr ⟨any_id conflict, any_id taken, rfl, rfl⟩)
  simp only [createRcaWork, Program.stmt_bind, Program.call_bind]
  refine (returns_stmt rfl).2 ((returns_stmt runInserted).2 ?_)
  refine (returns_stmt rfl).2 ((returns_stmt jobInserted).2 ?_)
  refine (returns_stmt rfl).2 ((returns_stmt rfl).2 ((returns_stmt eventInserted).2 ?_))
  exact next _ _

/-- Where an identity has an active incident, one is selected. -/
theorem active_ne_none {t : Tables} {identity : IdentityRef}
    (h : ∃ r ∈ t.incidents, r.identity = identity ∧ r.status.Active) :
    t.active identity ≠ none := by
  obtain ⟨r, hr, here⟩ := h
  intro none_
  rw [Tables.active, List.head?_eq_none_iff] at none_
  have found : r ∈ t.incidents.filter fun r => r.identity = identity ∧ r.status.Active :=
    List.mem_filter.2 ⟨hr, decide_eq_true here⟩
  have mem := (List.perm_insertionSort Incident.Newer _).mem_iff.2 found
  rw [none_] at mem
  cases mem

/-- An event can be filed. -/
theorem returns_fileEvent {identity : IncidentIdentity} {eventId : Uuid}
    {f : Option Uuid × Option Uuid → Tx β} (wf : (seen store own).WellFormed) (unused : Unused store n pick)
    (room : own.length + 5 ≤ n) (next : ∀ a own', sql.Returns pick store (f a) own') :
    sql.Returns pick store (fileEvent call event identity eventId >>= f) own := by
  cases hstatus : event.status with
  | RESOLVED =>
    simp only [fileEvent, hstatus, Program.stmt_bind, Program.call_bind]
    refine (returns_stmt rfl).2 ?_
    cases (store.merge own).latest (identity.version, identity.key) with
    | none => exact next _ _
    | some row => exact (returns_stmt rfl).2 ((returns_stmt rfl).2 (next _ _))
  | FIRING =>
    simp only [fileEvent, getOrCreateActive, hstatus, Program.stmt_bind, Program.call_bind,
      Program.bind_assoc]
    refine (returns_stmt rfl).2 ((returns_stmt rfl).2 ?_)
    let values :=
      incidentValues call event identity
        (((store.merge own).latestResolved (identity.version, identity.key)).map (·.id))
    by_cases known : ∃ r ∈ (store.merge own).incidents, r.identity = values.identity ∧ r.status.Active
    · have refused : (Stmt.insertIncident (values.row (pick own))).exec (store.merge own) own (pick own) =
          some (none, own) := by
        obtain ⟨r, hr, here⟩ := known
        exact insertUnless_eq_some.2 (.inl ⟨List.any_eq_true.2 ⟨r, hr, decide_eq_true here⟩, rfl, rfl⟩)
      refine (returns_stmt refused).2 ((returns_stmt rfl).2 ?_)
      cases hactive : (store.merge own).active values.identity with
      | none => exact absurd hactive (active_ne_none known)
      | some row => exact (returns_stmt rfl).2 ((returns_stmt rfl).2 (next _ _))
    · have free := incident_free (unused own (by omega) Key.incident (by simp))
      have inserted : (Stmt.insertIncident (values.row (pick own))).exec (store.merge own) own (pick own) =
          some (some (pick own), own ++ [.insertIncident (values.row (pick own))]) := by
        have conflict : ∀ r ∈ (store.merge own).incidents,
            ¬ (r.identity = values.identity ∧ r.status.Active) :=
          fun r hr here => known ⟨r, hr, here⟩
        exact insertUnless_eq_some.2 (.inr ⟨any_id conflict, any_id free, rfl, rfl⟩)
      let opened := own ++ [.insertIncident (values.row (pick own))]
      have linked : ∀ after, after = opened ∨ after = opened ++ [.insertLink ⟨pick own, eventId⟩] →
          sql.Returns pick store (createRcaWork (pick own) call.receivedAt >>=
            fun work => f (some (pick own), work.outboxEventId)) after := by
        intro after here
        have view : ∃ more, store.merge after = (store.merge own).merge more ∧ after.length ≤ own.length + 2 ∧
            ((store.merge own).merge more).runs = (store.merge own).runs ∧
              ((store.merge own).merge more).jobs = (store.merge own).jobs ∧
            ((store.merge own).merge more).outboxEvents = (store.merge own).outboxEvents := by
          rcases here with rfl | rfl
          · exact ⟨_, Tables.merge_append .., by simp [opened], rfl, rfl, rfl⟩
          · exact ⟨_, by rw [List.append_assoc, Tables.merge_append], by simp [opened], rfl, rfl, rfl⟩
        obtain ⟨more, merged, short, runs, jobs, outboxEvents⟩ := view
        rw [← skeleton_view] at wf
        refine returns_createRcaWork ?_ ?_ ?_ unused (by omega) fun _ _ => next _ _
        · rw [merged, runs, jobs]
          intro job hjob
          obtain ⟨r, hr, hid⟩ := List.mem_map.1 (wf.jobRun (jobRef job) (List.mem_map_of_mem hjob))
          obtain ⟨run, hrun, rfl⟩ := List.mem_map.1 hr
          exact ⟨run, hrun, hid⟩
        · rw [merged, runs, outboxEvents]
          intro e he
          obtain ⟨r, hr, hkey⟩ := List.mem_map.1 (wf.eventRun (outboxRef e) (List.mem_map_of_mem he))
          obtain ⟨run, hrun, rfl⟩ := List.mem_map.1 hr
          exact ⟨run, hrun, hkey⟩
        · rw [merged, runs]
          intro run hrun same
          obtain ⟨r, hr, hid⟩ := List.mem_map.1 (wf.runIncident (runRef run) (List.mem_map_of_mem hrun))
          obtain ⟨incident, hincident, rfl⟩ := List.mem_map.1 hr
          exact free incident hincident (hid.trans same)
      refine (returns_stmt inserted).2 ?_
      dsimp only
      refine (returns_stmt rfl).2 ?_
      rw [if_pos rfl, Program.bind_assoc]
      refine linked _ ?_
      split
      · exact .inl rfl
      · exact .inr rfl

/-! ## The loop returns -/

theorem returns_orRaise {a : α} {f : α → Tx β} : sql.Returns pick store (orRaise (some a) >>= f) own ↔
      sql.Returns pick store (f a) own :=
  Iff.rfl

theorem not_returns_orRaise {f : α → Tx β} : ¬ sql.Returns pick store (orRaise none >>= f) own :=
  Dialect.not_returns_raise _ _ _ _

/-- Fields are cast exactly if they can be stored. -/
theorem returns_castFields {fields : JsonObject} {f : JsonObject → Tx β} :
    sql.Returns pick store (castFields fields >>= f) own ↔
      storableFields fields = true ∧ sql.Returns pick store (f fields) own := by
  unfold castFields
  split
  · next stored => exact (and_iff_right stored).symm
  · next unstored => exact iff_of_false (Dialect.not_returns_raise _ _ _ _) fun h => unstored h.1

/-- A document is cast exactly if it can be stored. -/
theorem returns_castJsonb {document : Json} {f : Json → Tx β} :
    sql.Returns pick store (castJsonb document >>= f) own ↔
      storable document = true ∧ sql.Returns pick store (f document) own := by
  unfold castJsonb
  split
  · next stored => exact (and_iff_right stored).symm
  · next unstored => exact iff_of_false (Dialect.not_returns_raise _ _ _ _) fun h => unstored h.1

theorem returns_castOptional {fields : Option JsonObject} {f : Option JsonObject → Tx β} :
    sql.Returns pick store (castOptional fields >>= f) own ↔
      (∀ d, fields = some d → storableFields d = true) ∧ sql.Returns pick store (f fields) own := by
  cases fields with
  | none =>
    refine (and_iff_right ?_).symm
    nofun
  | some d =>
    simp only [Option.some.injEq, forall_eq']
    show sql.Returns pick store ((some <$> castFields d) >>= f) own ↔ _
    unfold castFields
    split
    · next stored => exact (and_iff_right stored).symm
    · next unstored => exact iff_of_false (Dialect.not_returns_raise _ _ _ _) fun h => unstored h.1

/-- The key of the alert is taken. -/
def Taken (keys : List IngestionDedupKey) (sourceId : Uuid) (dedupKey : String) : Prop :=
  ∃ r ∈ keys, r.sourceId = sourceId ∧ r.dedupKey = dedupKey

/-- An alert with an identity and clean texts is ingested exactly if it is a duplicate or its event
can be written. -/
theorem returns_ingestAlert {identity : IncidentIdentity}
    (identified : makeIncidentIdentityV2 b.toHashing call.sourceId event.folderCode event.alertName
      event.fingerprint = some identity) (clean : event.Clean) (raw : storable rawAlert = true)
    (wf : (seen store own).WellFormed) (unused : Unused store n pick) (room : own.length + 8 ≤ n) :
    sql.Returns pick store (ingestAlert b call deliveryId event rawAlert progress) own ↔
      Taken (store.merge own).dedupKeys call.sourceId event.dedupKey ∨ event.Writable := by
  rw [ingestAlert, identified, returns_orRaise]
  simp only [claimDedupKey, Program.stmt_bind]
  by_cases known : Taken (store.merge own).dedupKeys call.sourceId event.dedupKey
  · have taken : ((store.merge own).dedupKeys.any fun r => r.sourceId = call.sourceId ∧
        r.dedupKey = event.dedupKey) = true := by
      obtain ⟨r, hr, same⟩ := known
      exact List.any_eq_true.2 ⟨r, hr, decide_eq_true same⟩
    have refused : (Stmt.insertDedupKey ⟨call.sourceId, event.dedupKey, deliveryId⟩).exec (store.merge own)
      own (pick own) =
        some (false, own) := if_pos taken
    exact iff_of_true ((returns_stmt refused).2 (Dialect.returns_pure _ _ _ _ _)) (.inl known)
  · have free : ∀ r ∈ (store.merge own).dedupKeys,
        ¬ (r.sourceId = call.sourceId ∧ r.dedupKey = event.dedupKey) :=
      fun r hr same => known ⟨r, hr, same⟩
    let claimed := own ++ [.insertDedupKey ⟨call.sourceId, event.dedupKey, deliveryId⟩]
    have inserted : (Stmt.insertDedupKey ⟨call.sourceId, event.dedupKey, deliveryId⟩).exec (store.merge own)
      own (pick own) =
        some (true, claimed) := if_neg (not_any free)
    rw [returns_stmt inserted, if_neg (by simp), or_iff_right known]
    simp only [addEvent, upsertInstance, Program.stmt_bind, Program.call_bind, Program.bind_assoc]
    rw [returns_stmt rfl]
    have newEvent := event_free (unused claimed (by simp [claimed]; omega) Key.event (by simp))
    cases hdumps : dumpsFields event.labels with
    | none =>
      refine iff_of_false not_returns_orRaise fun writable => ?_
      obtain ⟨written, hwritten⟩ := writable.1
      cases hdumps.symm.trans hwritten
    | some labels =>
      have stored := clean.labels labels hdumps
      have issue : storableFields (issueDocument event.issue) = true := by
        have keys : noNul "rawText" ∧ noNul "source" ∧ noNul "contentType" ∧ noNul "untrusted" ∧
          noNul "grafana.annotations.AlertValues" ∧ noNul "text/plain" := by decide
        simp [issueDocument, storableFields, storable, clean.issue, keys]
      let documents : EventDocuments :=
        ⟨labels, textFields event.annotations, rawAlert, issueDocument event.issue,
        event.resource.map resourceDocument⟩
      let row :=
        event.row (pick claimed) deliveryId call.receivedAt documents (validationErrors event identity)
      let observed := claimed ++ [.insertEvent row]
      have eventInserted : (Stmt.insertEvent row).exec (store.merge claimed) claimed (pick claimed) =
          some ((), observed) :=
        if_neg (not_any newEvent)
      have rest : ∀ own', seen store own' = seen store own ++
        added [.insertDedupKey ⟨call.sourceId, event.dedupKey, deliveryId⟩, .insertEvent row] →
          own'.length ≤ own.length + 3 → ∀ f : Option Uuid × Option Uuid →
            Tx Progress, (∀ a own', sql.Returns pick store (f a) own') →
          sql.Returns pick store (fileEvent call event identity (pick claimed) >>= f) own' := by
        intro own' view short f next
        refine returns_fileEvent ?_ unused (by omega) next
        have dedupFree : Key.dedup call.sourceId event.dedupKey ∉ (seen store own).keys := by
          rw [← skeleton_view]
          intro taken
          obtain ⟨r, hr, same⟩ := Skeleton.dedup_mem_keys.1 taken
          exact free r hr same
        have eventFree : Key.event
            (pick claimed) ∉ (seen store own ++
              added [.insertDedupKey ⟨call.sourceId, event.dedupKey, deliveryId⟩]).keys := by
          rw [← seen_append]
          exact unused claimed (by simp [claimed]; omega) Key.event (by simp)
        rw [view]
        refine wf.add ?_ rfl rfl rfl fun _ mem => (by cases mem)
        have first :
            (seen store own ++
              (Write.insertDedupKey ⟨call.sourceId, event.dedupKey, deliveryId⟩).adds).keys.Nodup :=
          nodup_add wf.keys (by simp) (by simpa using dedupFree)
        simp only [added_cons, added_nil, Skeleton.append_empty] at eventFree ⊢
        rw [← Skeleton.append_assoc]
        refine nodup_add first (by simp) fun k hk => ?_
        rw [insertEvent_keys] at hk
        exact List.mem_singleton.1 hk ▸ eventFree
      have resource : (∀ d, event.resource.map resourceDocument = some d → storableFields d = true) ↔
          ∀ r, event.resource = some r → storableFields (resourceDocument r) = true := by
        simp
      rw [returns_orRaise, returns_castFields, and_iff_right stored, returns_castFields,
        and_iff_right clean.annotations,
        returns_castJsonb, and_iff_right raw, returns_castFields, and_iff_right issue, returns_castOptional,
        resource]
      refine Iff.trans (and_iff_left ?_) (and_iff_right ⟨labels, hdumps⟩).symm
      refine (returns_stmt eventInserted).2 ?_
      rw [Program.pure_bind, returns_castFields, plainFields_of_dumps hdumps, and_iff_right stored,
        returns_castFields, and_iff_right clean.annotations]
      refine (returns_stmt rfl).2 ?_
      refine rest _ ?_ (by simp [observed, claimed]) _ fun _ _ => Dialect.returns_pure _ _ _ _ _
      rw [seen_append, seen_append, seen_append]
      simp [Skeleton.append_assoc, Write.adds]

/-- Every event whose key is not taken, by a row or by an event before it, can be written. -/
def WritableEvents (keys : List IngestionDedupKey) (sourceId : Uuid)
    (events : List CanonicalAlertEvent) : Prop :=
  ∀ before event after, events = before ++ event :: after → ¬ Taken keys sourceId event.dedupKey →
    (∀ x ∈ before, x.dedupKey ≠ event.dedupKey) → event.Writable

/-- The first event is written unless it is a duplicate, and takes its key from the others. -/
theorem writableEvents_cons {keys keys' : List IngestionDedupKey} {sourceId : Uuid}
    {events : List CanonicalAlertEvent}
    (h : ∀ key, Taken keys' sourceId key ↔ Taken keys sourceId key ∨ key = event.dedupKey) :
    WritableEvents keys sourceId (event :: events) ↔
      (Taken keys sourceId event.dedupKey ∨ event.Writable) ∧ WritableEvents keys' sourceId events := by
  constructor
  · intro all
    constructor
    · by_cases taken : Taken keys sourceId event.dedupKey
      · exact .inl taken
      · exact .inr (all [] event events rfl taken fun _ h => absurd h List.not_mem_nil)
    · rintro before e after rfl free first
      rw [h, not_or] at free
      refine all (event :: before) e after rfl free.1 fun x hx => ?_
      rcases List.mem_cons.1 hx with rfl | hx
      · exact Ne.symm free.2
      · exact first x hx
  · rintro ⟨here, rest⟩ before e after split free first
    cases before with
    | nil =>
      cases split
      exact here.resolve_left free
    | cons x before =>
      cases split
      refine rest before e after rfl ?_ fun y hy => first y (List.mem_cons_of_mem _ hy)
      rw [h]
      exact not_or.2 ⟨free, Ne.symm (first _ List.mem_cons_self)⟩

section

variable {alert : CanonicalAlertEvent × Json} {alerts : List (CanonicalAlertEvent × Json)}
  {writes : List Write} {after : Progress}
  {v : Skeleton} {old : List Uuid}

/-- The turn of an alert takes ten writes at most. -/
theorem Turn.length_le (h : Turn b call deliveryId v alert writes progress after) : writes.length ≤ 10 := by
  cases h with
  | duplicate => simp
  | claimed _ _ filed => cases filed <;> simp [claimWrites, workWrites]

/-- A turn takes the key of its event, unless it is taken. -/
theorem Turn.dedupKeys (h : Turn b call deliveryId v alert writes progress after) :
    (added writes).dedupKeys = [] ∧ Taken v.dedupKeys call.sourceId alert.1.dedupKey ∨
      (added writes).dedupKeys = [⟨call.sourceId, alert.1.dedupKey, deliveryId⟩] := by
  cases h with
  | duplicate _ taken => exact .inl ⟨rfl, taken⟩
  | claimed _ _ filed =>
    right
    cases filed <;> simp [claimWrites, workWrites, Write.adds, Skeleton.empty]

/-- After a turn the keys are those before it and the one of its event. -/
theorem Turn.taken (h : Turn b call deliveryId (seen store own) alert writes progress after) (key : String) :
    Taken (store.merge (own ++ writes)).dedupKeys call.sourceId key ↔
      Taken (store.merge own).dedupKeys call.sourceId key ∨ key = alert.1.dedupKey := by
  rw [← Tables.skeleton_dedupKeys, ← Tables.skeleton_dedupKeys, skeleton_view, skeleton_view, seen_append,
    Skeleton.append_dedupKeys]
  rcases h.dedupKeys with ⟨none_, taken⟩ | one
  · rw [none_, List.append_nil]
    refine (or_iff_left_of_imp ?_).symm
    rintro rfl
    exact taken
  · rw [one]
    simp only [Taken, List.mem_append, List.mem_singleton, or_and_right, exists_or, exists_eq_left, true_and]
    exact or_congr_right eq_comm

/-- What a turn alone has written. -/
theorem turn_of_alone (inv : store.Consistent old) (fresh : (seen store own).keys.Nodup)
    (consistent : (added own).Consistent old) {own' : List Write}
    (run : sql.alone pick store (ingestAlert b call deliveryId event rawAlert progress) own =
      some (after, own')) :
    ∃ writes, own' = own ++ writes ∧ Turn b call deliveryId (seen store own)
    (event, rawAlert) writes progress after ∧
      (seen store own').keys.Nodup ∧ (added own').Consistent old := by
  let Q (after : Progress) (store : Tables) (own' : List Write) : Prop := ∃ writes, own' = own ++ writes ∧
    Turn b call deliveryId (seen store own) (event, rawAlert) writes progress after ∧
      (seen store own').keys.Nodup
  have spec : sql.wp (Tables.Consistent old) Q (ingestAlert b call deliveryId event rawAlert progress >>=
      Pure.pure) store own := by
    refine ingestAlert_spec lasting_true ⟨rfl, fresh, trivial⟩ consistent.toWellFormed fun store writes
      after here => ?_
    have lasting : Lasting fun v => True ∧
        Turn b call deliveryId (v ++ added own) (event, rawAlert) writes progress after :=
      lasting_true.and fun _ _ within h => h.mono (within.append_left _)
    exact Dialect.wp_pure (At.stable lasting) here fun store done => ⟨writes, rfl, done.fact.2, done.fresh⟩
  have run : sql.alone pick store (ingestAlert b call deliveryId event rawAlert progress >>= Pure.pure)
      own = some (after, own') := by
    rw [Dialect.alone_bind, run]
    rfl
  obtain ⟨writes, rfl, turn, nodup⟩ := Dialect.wp_alone inv spec run
  refine ⟨writes, rfl, turn, nodup, ?_⟩
  rw [seen, added_append] at nodup
  obtain ⟨-, ownNodup, apart⟩ := Skeleton.nodup_of_append (Skeleton.nodup_of_append nodup).2.1
  rw [added_append]
  exact consistent.append (turn.consistent ownNodup) apart

/-- Alerts are ingested exactly if those that are no duplicates can be written. -/
theorem returns_ingestAlerts (each : ∀ alert ∈ alerts,
      (∃ identity, makeIncidentIdentityV2 b.toHashing call.sourceId
      alert.1.folderCode alert.1.alertName alert.1.fingerprint = some identity) ∧ alert.1.Clean ∧
        storable alert.2 = true) (inv : store.Consistent old) (fresh : (seen store own).keys.Nodup)
      (consistent : (added own).Consistent old) (unused : Unused store n pick)
      (room : own.length + 10 * alerts.length ≤ n) :
    sql.Returns pick store (ingestAlerts b call deliveryId alerts progress) own ↔
      WritableEvents (store.merge own).dedupKeys call.sourceId (alerts.map (·.1)) := by
  induction alerts generalizing own progress with
  | nil => exact iff_of_true (Dialect.returns_pure _ _ _ _ _) fun before _ _ h => by simp at h
  | cons alert alerts ih =>
    obtain ⟨event, rawAlert⟩ := alert
    rw [List.length_cons] at room
    obtain ⟨⟨identity, identified⟩, clean, raw⟩ := each _ List.mem_cons_self
    have wf : (seen store own).WellFormed := seen_wellFormed inv consistent.toWellFormed fresh
    have turn : sql.Returns pick store (ingestAlert b call deliveryId event rawAlert progress) own ↔ _ :=
      returns_ingestAlert identified clean raw wf unused (by omega)
    have rest : ∀ after own', sql.alone pick store (ingestAlert b call deliveryId event rawAlert progress)
      own = some (after, own') →
        (∀ key, Taken (store.merge own').dedupKeys call.sourceId key ↔
          Taken (store.merge own).dedupKeys call.sourceId key ∨ key = event.dedupKey) ∧
        (sql.Returns pick store (ingestAlerts b call deliveryId alerts after) own' ↔
          WritableEvents (store.merge own').dedupKeys call.sourceId (alerts.map (·.1))) := by
      intro after own' run
      obtain ⟨writes, rfl, turn, nodup, consistent⟩ := turn_of_alone inv fresh consistent run
      have short := turn.length_le
      refine ⟨turn.taken, ih (fun a ha => each a (List.mem_cons_of_mem _ ha)) nodup consistent ?_⟩
      rw [List.length_append]
      omega
    rw [ingestAlerts, Dialect.returns_bind, List.map_cons]
    constructor
    · rintro ⟨after, own', run, returns⟩
      obtain ⟨taken, iff⟩ := rest after own' run
      exact (writableEvents_cons taken).2 ⟨turn.1 ⟨after, own', run⟩, iff.1 returns⟩
    · intro writable
      have here : Taken (store.merge own).dedupKeys call.sourceId event.dedupKey ∨ event.Writable := by
        by_cases taken : Taken (store.merge own).dedupKeys call.sourceId event.dedupKey
        · exact .inl taken
        · exact .inr (writable [] event _ rfl taken fun _ h => absurd h List.not_mem_nil)
      obtain ⟨after, own', run⟩ := turn.2 here
      obtain ⟨taken, iff⟩ := rest after own' run
      exact ⟨after, own', run, iff.2 ((writableEvents_cons taken).1 writable).2⟩

end

end

end SreAgent.Ingestion
