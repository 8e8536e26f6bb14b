import SreAgent.Ingestion.Skeleton

/-!
# The writes of a call

What each method of the repositories and each turn of the loop of `execute` writes, in whatever way
other calls commit meanwhile. A transaction under way is known by its writes and by facts of the
rows it has seen; others only add rows, none under a key it holds, so what it knows stays true
(`At.stable`).
-/

namespace SreAgent.Ingestion
open Base Transaction Alerts Outbox Lifecycle Pubsub

/-- The rows a transaction sees. -/
def seen (store : Tables) (own : List Write) : Skeleton := store.skeleton ++ added own

theorem skeleton_view (store : Tables) (own : List Write) : (store.merge own).skeleton = seen store own :=
  skeleton_merge store own

theorem seen_append (store : Tables) (own more : List Write) :
    seen store (own ++ more) = seen store own ++ added more := by
  rw [seen, added_append, ← Skeleton.append_assoc]
  rfl

/-- The same rows and more. -/
structure Skeleton.Within (a b : Skeleton) : Prop where
  incidents : a.incidents ⊆ b.incidents
  links : a.links ⊆ b.links
  dedupKeys : a.dedupKeys ⊆ b.dedupKeys
  events : a.events ⊆ b.events

theorem Skeleton.within_refl (a : Skeleton) : a.Within a :=
  ⟨fun _ h => h, fun _ h => h, fun _ h => h, fun _ h => h⟩

theorem Skeleton.within_append (a b : Skeleton) : a.Within (a ++ b) :=
  ⟨List.subset_append_left _ _, List.subset_append_left _ _, List.subset_append_left _ _,
    List.subset_append_left _ _⟩

theorem Skeleton.within_append_right (a b : Skeleton) : b.Within (a ++ b) :=
  ⟨List.subset_append_right _ _, List.subset_append_right _ _, List.subset_append_right _ _,
    List.subset_append_right _ _⟩

theorem Skeleton.Within.trans {a b c : Skeleton} (h : a.Within b) (h' : b.Within c) : a.Within c :=
  ⟨fun _ hx => h'.incidents (h.incidents hx), fun _ hx => h'.links (h.links hx),
    fun _ hx => h'.dedupKeys (h.dedupKeys hx), fun _ hx => h'.events (h.events hx)⟩

theorem Skeleton.Within.append {a b c : Skeleton} (ha : a.Within c) (hb : b.Within c) : (a ++ b).Within c :=
  ⟨List.append_subset.2 ⟨ha.incidents, hb.incidents⟩, List.append_subset.2 ⟨ha.links, hb.links⟩,
    List.append_subset.2 ⟨ha.dedupKeys, hb.dedupKeys⟩, List.append_subset.2 ⟨ha.events, hb.events⟩⟩

theorem Skeleton.Within.append_left {a b : Skeleton} (h : a.Within b) (c : Skeleton) :
    (a ++ c).Within (b ++ c) :=
  (h.trans (within_append b c)).append (within_append_right b c)

/-- A fact about the committed rows that more rows do not change. -/
def Lasting (F : Skeleton → Prop) : Prop := ∀ a b : Skeleton, a.Within b → F a → F b

theorem lasting_true : Lasting fun _ => True := fun _ _ _ h => h

/-- Two facts that last do so together. -/
theorem Lasting.and {F G : Skeleton → Prop} (hF : Lasting F) (hG : Lasting G) : Lasting fun v => F v ∧ G v :=
  fun a b within h => ⟨hF a b within h.1, hG a b within h.2⟩

/-- A fact that lasts does so after some writes. -/
theorem Lasting.after {F : Skeleton → Prop} (hF : Lasting F) (ws : List Write) :
    Lasting fun v => F (v ++ added ws) :=
  fun _ _ within h => hF _ _ (within.append_left _) h

/-- A transaction that has written `ws`, took no key twice and knows `F`. -/
structure At (F : Skeleton → Prop) (ws : List Write) (store : Tables) (own : List Write) : Prop where
  own : own = ws
  fresh : (seen store ws).keys.Nodup
  fact : F store.skeleton

variable {old : List Uuid} {F : Skeleton → Prop} {ws : List Write} {store : Tables} {own : List Write}

/-- What other transactions commit does not change where a transaction is. -/
theorem At.stable (lasting : Lasting F) : sql.Stable (Tables.Consistent old) (At F ws) := by
  rintro store own other ⟨rfl, fresh, fact⟩ apart - after
  have merged : seen (store.merge other) own = store.skeleton ++ added other ++ added own := by
    rw [seen, skeleton_merge]
  have after : (store.skeleton ++ added other).keys.Nodup := by
    rw [← skeleton_merge]
    exact after.keys
  obtain ⟨-, ownNodup, storeApart⟩ := Skeleton.nodup_of_append fresh
  refine ⟨rfl, ?_, ?_⟩
  · show (seen (store.merge other) own).keys.Nodup
    rw [merged]
    refine Skeleton.nodup_append after ownNodup fun k hk => ?_
    rcases Skeleton.mem_keys_append.1 hk with hk | hk
    · exact storeApart k hk
    · exact fun hk' => apart k (keys_added hk') (keys_added hk)
  · show F (store.merge other).skeleton
    rw [skeleton_merge]
    exact lasting _ _ (Skeleton.within_append _ _) fact

theorem At.weaken {G : Skeleton → Prop} (weaker : ∀ v, F v → G v) (h : At F ws store own) :
    At G ws store own :=
  ⟨h.own, h.fresh, weaker _ h.fact⟩

theorem lasting_incident (P : IncidentRef → Prop) : Lasting fun s => ∃ r ∈ s.incidents, P r :=
  fun _ _ within ⟨r, hr, h⟩ => ⟨r, within.incidents hr, h⟩

theorem lasting_dedup (row : IngestionDedupKey → Prop) : Lasting fun s => ∃ r ∈ s.dedupKeys, row r :=
  fun _ _ within ⟨r, hr, h⟩ => ⟨r, within.dedupKeys hr, h⟩

theorem mem_of_head?_insertionSort {ρ : Type} {rel : ρ → ρ → Prop} [DecidableRel rel] {rows : List ρ} {r : ρ}
    (h : (rows.insertionSort rel).head? = some r) : r ∈ rows :=
  (List.mem_insertionSort rel).1 (List.mem_of_head? h)

/-- The active incident of an identity is an active one of it. -/
theorem Tables.active_some {t : Tables} {identity : IdentityRef} {r : Incident}
    (h : t.active identity = some r) :
    r ∈ t.incidents ∧ r.identity = identity ∧ r.status.Active := by
  simpa using mem_of_head?_insertionSort h

theorem Tables.latest_some {t : Tables} {identity : IdentityRef} {r : Incident}
    (h : t.latest identity = some r) :
    r ∈ t.incidents ∧ r.identity = identity := by
  simpa using mem_of_head?_insertionSort h

/-! ## Fresh keys -/

section

variable {delivery : WebhookDelivery} {event : AlertEvent} {key : IngestionDedupKey} {incident : Incident}
  {link : IncidentAlert} {run : RcaRun} {job : WorkerJob}
  {outboxEvent : OutboxEvent}

@[simp] theorem insertDelivery_keys :
    (Write.insertDelivery delivery).adds.keys = [.delivery delivery.id] := by
  simp [Write.adds, Skeleton.keys, Skeleton.empty]

@[simp] theorem insertEvent_keys : (Write.insertEvent event).adds.keys = [.event event.id] := by
  simp [Write.adds, Skeleton.keys, Skeleton.empty]

@[simp] theorem insertDedupKey_keys :
    (Write.insertDedupKey key).adds.keys = [.dedup key.sourceId key.dedupKey] := by
  simp [Write.adds, Skeleton.keys, Skeleton.empty]

@[simp] theorem insertLink_keys : (Write.insertLink link).adds.keys = [] := by
  simp [Write.adds, Skeleton.keys, Skeleton.empty]

@[simp] theorem insertIncident_keys : (Write.insertIncident incident).adds.keys = incident.ref.keys := by
  simp [Write.adds, Skeleton.keys, Skeleton.empty]

@[simp] theorem insertRun_keys : (Write.insertRun run).adds.keys = [.run run.id] := by
  simp [Write.adds, Skeleton.keys, Skeleton.empty, runRef]

@[simp] theorem insertJob_keys : (Write.insertJob job).adds.keys = [.job job.id, .jobOfRun job.rcaRunId] := by
  simp [Write.adds, Skeleton.keys, Skeleton.empty, jobRef]

@[simp] theorem insertOutboxEvent_keys :
    (Write.insertOutboxEvent outboxEvent).adds.keys =
      [.outboxEvent outboxEvent.id, .idempotency outboxEvent.idempotencyKey] := by
  simp [Write.adds, Skeleton.keys, Skeleton.empty, outboxRef]

end

theorem IncidentRef.keys_nodup (r : IncidentRef) : r.keys.Nodup := by
  unfold keys
  split <;> simp

/-- One row of a key that is not taken. -/
theorem nodup_add {v : Skeleton} {write : Write} (h : v.keys.Nodup) (nodup : write.adds.keys.Nodup)
    (free : ∀ k ∈ write.adds.keys, k ∉ v.keys) : (v ++ write.adds).keys.Nodup :=
  Skeleton.nodup_append h nodup fun k hk hk' => free k hk' hk

/-- A statement takes no key twice. -/
theorem Stmt.fresh_exec {β : Type} (s : Stmt β) {own' : List Write} {c : Uuid} {b : β}
    (fresh : (seen store own).keys.Nodup) (h : s.exec (store.merge own) own c = some (b, own')) :
    (seen store own').keys.Nodup := by
  have view := skeleton_view store own
  generalize store.merge own = v at h view
  have unchanged : ∀ write : Write, write.adds = .empty → (seen store (own ++ [write])).keys.Nodup := by
    intro write same
    rw [seen_append, added_cons, same, added_nil, Skeleton.append_empty, Skeleton.append_empty]
    exact fresh
  have extend : ∀ write : Write, write.adds.keys.Nodup → (∀ k ∈ write.adds.keys, k ∉ v.skeleton.keys) →
      (seen store (own ++ [write])).keys.Nodup := by
    intro write nodup free
    rw [seen_append, added_cons, added_nil, Skeleton.append_empty]
    exact nodup_add fresh nodup (view ▸ free)
  cases s with
  | uuid4 | selectLatestResolved | selectJob | selectOutboxEvent =>
    cases h
    exact fresh
  | updateDelivery | upsertInstance | updateAlertState | updatePayload =>
    cases h
    exact unchanged _ rfl
  | selectActive identity | selectLatest identity | selectActiveRun incidentId =>
    cases h
    rw [seen_append]
    unfold lockFound
    split
    · rw [added_cons, added_nil]
      simpa [Write.adds] using fresh
    · simpa using fresh
  | insertLink row =>
    simp only [exec, Option.some.injEq, Prod.mk.injEq] at h
    obtain ⟨-, rfl⟩ := h
    split
    · exact fresh
    · exact extend _ (by simp) (by simp)
  | insertDelivery row =>
    simp only [exec] at h
    split at h
    · cases h
    · next free =>
      cases h
      refine extend _ (by simp) ?_
      simpa using free
  | insertEvent row =>
    simp only [exec] at h
    split at h
    · cases h
    · next free =>
      cases h
      refine extend _ (by simp) ?_
      simpa using free
  | insertDedupKey row =>
    simp only [exec] at h
    split at h
    · cases h
      exact fresh
    · next free =>
      cases h
      refine extend _ (by simp) ?_
      simpa using free
  | insertIncident row =>
    rcases insertUnless_eq_some.1 h with ⟨-, -, rfl⟩ | ⟨noConflict, free, -, rfl⟩
    · exact fresh
    · refine extend _ (by simpa using row.ref.keys_nodup) fun k hk => ?_
      rw [insertIncident_keys, IncidentRef.mem_keys] at hk
      rcases hk with rfl | ⟨-, rfl⟩
      · simpa [Incident.ref] using free
      · simp only [List.any_eq_false, decide_eq_true_eq, not_and] at noConflict
        simp only [Skeleton.activeIdentity_mem_keys, Tables.skeleton_incidents, List.mem_map, not_exists,
          not_and]
        rintro _ ⟨r, hr, rfl⟩ active same
        exact noConflict r hr same active
  | insertRun row =>
    rcases insertUnless_eq_some.1 h with ⟨-, -, rfl⟩ | ⟨noConflict, -, -, rfl⟩
    · exact fresh
    · refine extend _ (by simp) ?_
      simp only [List.any_eq_false, decide_eq_true_eq, not_or] at noConflict
      simpa [runRef] using fun r hr => (noConflict r hr).1
  | insertJob row =>
    rcases insertUnless_eq_some.1 h with ⟨-, -, rfl⟩ | ⟨noConflict, free, -, rfl⟩
    · exact fresh
    · refine extend _ (by simp) ?_
      simpa [jobRef] using ⟨by simpa using free, by simpa using noConflict⟩
  | insertOutboxEvent row =>
    rcases insertUnless_eq_some.1 h with ⟨-, -, rfl⟩ | ⟨noConflict, free, -, rfl⟩
    · exact fresh
    · refine extend _ (by simp) ?_
      simpa [outboxRef] using ⟨by simpa using free, by simpa using noConflict⟩

/-! ## Statements -/

section

variable {α β : Type} {Q : β → Tables → List Write → Prop}

/-- After more writes a transaction is behind them. -/
theorem At.append {more : List Write} (h : At F ws store own) (fresh : (seen store (ws ++ more)).keys.Nodup) :
    At F (ws ++ more) store (ws ++ more) := ⟨rfl, fresh, h.fact⟩

/-- The rule of a statement: it is run on any tables that may be committed meanwhile. -/
theorem wp_stmt {s : Stmt α} {next : α → Tx β} (lasting : Lasting F) (pre : At F ws store own)
    (step : ∀ store c a own', store.Consistent old → At F ws store ws →
      s.exec (store.merge ws) ws c = some (a, own') →
      (seen store own').keys.Nodup → sql.wp (Tables.Consistent old) Q (next a) store own') :
    sql.wp (Tables.Consistent old) Q (.call s next) store own := by
  refine Dialect.wp_call (At.stable lasting) pre fun store c a own' at_ inv hrun => ?_
  obtain rfl := at_.own
  exact step store c a own' inv at_ hrun (s.fresh_exec at_.fresh hrun)

/-- The rule of `uuid4`, which may answer anything. -/
theorem wp_uuid4 {next : Uuid → Tx β} (lasting : Lasting F) (pre : At F ws store own)
    (step : ∀ store id, At F ws store ws → sql.wp (Tables.Consistent old) Q (next id) store ws) :
    sql.wp (Tables.Consistent old) Q (.call .uuid4 next) store own := by
  refine wp_stmt lasting pre fun store c a own' _ at_ hrun _ => ?_
  cases hrun
  exact step store c at_

/-- A statement that always writes. -/
theorem wp_write {s : Stmt Unit} {write : Write} {next : Unit → Tx β} (lasting : Lasting F)
    (writes : ∀ view own c, s.exec view own c = some ((), own ++ [write])) (pre : At F ws store own)
    (step : ∀ store, At F (ws ++ [write]) store (ws ++ [write]) →
      sql.wp (Tables.Consistent old) Q (next ()) store (ws ++ [write])) :
    sql.wp (Tables.Consistent old) Q (.call s next) store own := by
  refine wp_stmt lasting pre fun store c a own' _ at_ hrun fresh => ?_
  rw [writes] at hrun
  cases hrun
  exact step store (at_.append fresh)

/-- The rule of a value that may be missing. -/
theorem wp_orRaise {o : Option α} {f : α → Tx β}
    (next : ∀ a, o = some a → sql.wp (Tables.Consistent old) Q (f a) store own) :
    sql.wp (Tables.Consistent old) Q (orRaise o >>= f) store own := by
  cases o with
  | none => trivial
  | some a => exact next a rfl

theorem wp_castJsonb {document : Json} {f : Json → Tx β}
    (next : storable document = true → sql.wp (Tables.Consistent old) Q (f document) store own) :
    sql.wp (Tables.Consistent old) Q (castJsonb document >>= f) store own := by
  unfold castJsonb
  split
  · next stored => exact next stored
  · trivial

theorem wp_castFields {fields : JsonObject} {f : JsonObject → Tx β}
    (next : sql.wp (Tables.Consistent old) Q (f fields) store own) :
    sql.wp (Tables.Consistent old) Q (castFields fields >>= f) store own := by
  unfold castFields
  split
  · exact next
  · trivial

theorem wp_castOptional {fields : Option JsonObject} {f : Option JsonObject → Tx β}
    (next : sql.wp (Tables.Consistent old) Q (f fields) store own) :
    sql.wp (Tables.Consistent old) Q (castOptional fields >>= f) store own := by
  cases fields with
  | none => exact next
  | some fields =>
    show sql.wp _ Q ((castFields fields >>= fun fields => pure (some fields)) >>= f) store own
    rw [Program.bind_assoc]
    exact wp_castFields next

/-- The rule of a number that has to fit its column. -/
theorem wp_int4 {n : Int} {f : Int → Tx β}
    (next : n < 2147483648 → sql.wp (Tables.Consistent old) Q (f n) store own) :
    sql.wp (Tables.Consistent old) Q (int4 n >>= f) store own := by
  unfold int4
  split
  · next small => exact next small
  · trivial

/-! ## Alerts -/

/-- The row of a new delivery. -/
def DeliveryValues.row (v : DeliveryValues) (id : Uuid) : WebhookDelivery where
  id := id
  receivedAt := v.receivedAt
  sourceId := v.sourceId
  tokenId := v.tokenId
  bodyHash := v.bodyHash
  rawBody := v.rawBody
  rawPayload := v.rawPayload
  truncatedAlerts := v.truncatedAlerts
  incomplete := v.incomplete
  status := .RECEIVED
  processedAt := none

/-- `create_delivery` inserts the delivery, whose payload can be stored and whose count fits. -/
theorem createDelivery_spec {v : DeliveryValues} {f : Uuid → Tx β} (lasting : Lasting F)
    (pre : At F ws store own)
    (next : ∀ store id, storable v.rawPayload = true → v.truncatedAlerts < 2147483648 →
      At F (ws ++ [.insertDelivery (v.row id)]) store (ws ++ [.insertDelivery (v.row id)]) →
      sql.wp (Tables.Consistent old) Q (f id) store (ws ++ [.insertDelivery (v.row id)])) :
    sql.wp (Tables.Consistent old) Q (createDelivery v >>= f) store own := by
  simp only [createDelivery, Program.stmt_bind, Program.call_bind, Program.bind_assoc]
  refine wp_uuid4 lasting pre fun store id pre => ?_
  refine wp_castJsonb fun stored => wp_int4 fun small => ?_
  refine wp_stmt lasting pre fun store c a own' _ at_ hrun fresh => ?_
  simp only [Stmt.exec] at hrun
  split at hrun
  · cases hrun
  · cases hrun
    exact next store id stored small (at_.append fresh)

/-- What `add_event` stores of an event whose labels were serialised. -/
def CanonicalAlertEvent.documents (event : CanonicalAlertEvent) (rawPayload : Json) (labels : JsonObject) :
    EventDocuments where
  labels := labels
  annotations := textFields event.annotations
  rawPayload := rawPayload
  issue := issueDocument event.issue
  resource := event.resource.map resourceDocument

/-- `add_event` inserts the event with its labels as they are written. -/
theorem addEvent_spec {deliveryId : Uuid} {receivedAt : Timestamp} {event : CanonicalAlertEvent}
    {rawPayload : Json} {errors : List AlertValidationError} {f : Uuid → Tx β} (lasting : Lasting F)
    (pre : At F ws store own) (next : ∀ store id labels, dumpsFields event.labels = some labels →
      At F (ws ++
        [.insertEvent (event.row id deliveryId receivedAt (event.documents rawPayload labels) errors)]) store
        (ws ++
          [.insertEvent (event.row id deliveryId receivedAt (event.documents rawPayload labels) errors)]) →
      sql.wp (Tables.Consistent old) Q (f id) store
        (ws ++
          [.insertEvent (event.row id deliveryId receivedAt (event.documents rawPayload labels) errors)])) :
    sql.wp (Tables.Consistent old) Q (addEvent deliveryId receivedAt event rawPayload errors >>=
      f) store own := by
  simp only [addEvent, Program.stmt_bind, Program.call_bind, Program.bind_assoc]
  refine wp_uuid4 lasting pre fun store id pre => ?_
  refine wp_orRaise fun labels hlabels => ?_
  refine wp_castFields (wp_castFields (wp_castJsonb fun _ => wp_castFields (wp_castOptional ?_)))
  refine wp_stmt lasting pre fun store c a own' _ at_ hrun fresh => ?_
  simp only [Stmt.exec] at hrun
  split at hrun
  · cases hrun
  · cases hrun
    exact next store id labels hlabels (at_.append fresh)

/-- `upsert_instance` writes the instance of the event. -/
theorem upsertInstance_spec {event : CanonicalAlertEvent} {eventId : Uuid} {receivedAt : Timestamp}
    {f : Unit → Tx β} (lasting : Lasting F) (pre : At F ws store own) (next : ∀ store,
      At F (ws ++
        [.upsertInstance (event.instanceRow eventId receivedAt (plainFields event.labels)
          (textFields event.annotations))])
        store (ws ++
          [.upsertInstance (event.instanceRow eventId receivedAt (plainFields event.labels)
            (textFields event.annotations))]) →
      sql.wp (Tables.Consistent old) Q (f ()) store
        (ws ++
          [.upsertInstance (event.instanceRow eventId receivedAt (plainFields event.labels)
            (textFields event.annotations))])) :
    sql.wp (Tables.Consistent old) Q (upsertInstance event eventId receivedAt >>= f) store own := by
  simp only [upsertInstance, Program.stmt_bind, Program.bind_assoc]
  refine wp_castFields (wp_castFields ?_)
  exact wp_write lasting (fun _ _ _ => rfl) pre next

/-! ## Incidents and jobs -/

/-- The writes of a reused incident: it is locked. -/
theorem getOrCreateActive_spec {v : IncidentValues} {f : IncidentSelection → Tx β} (lasting : Lasting F)
    (pre : At F ws store own)
    (created : ∀ store id, At F (ws ++ [.insertIncident (v.row id)]) store
      (ws ++ [.insertIncident (v.row id)]) →
      sql.wp (Tables.Consistent old) Q (f ⟨id, true⟩) store (ws ++ [.insertIncident (v.row id)]))
    (reused : ∀ store id,
      At (fun s => F s ∧ ∃ r ∈ (s ++ added ws).incidents, r.id = id ∧ r.identity = v.identity ∧
        r.status.Active)
        (ws ++ [.lockRow (.incident id)]) store (ws ++ [.lockRow (.incident id)]) →
      sql.wp (Tables.Consistent old) Q (f ⟨id, false⟩) store (ws ++ [.lockRow (.incident id)])) :
    sql.wp (Tables.Consistent old) Q (getOrCreateActive v >>= f) store own := by
  simp only [getOrCreateActive, Program.stmt_bind, Program.call_bind]
  refine wp_uuid4 lasting pre fun store id pre => ?_
  refine wp_stmt lasting pre fun store c a own' _ at_ hrun fresh => ?_
  rcases insertUnless_eq_some.1 hrun with ⟨-, rfl, rfl⟩ | ⟨-, -, rfl, rfl⟩
  · -- the identity is taken: the active incident is looked up and locked
    refine wp_stmt lasting at_ fun store c a own' _ at_ hrun fresh => ?_
    cases hrun
    cases hfound : (store.merge own').active v.identity with
    | none => trivial
    | some row =>
      obtain ⟨here, identity, active⟩ := Tables.active_some hfound
      rw [hfound] at fresh
      have locked := at_.append fresh
      refine reused store row.id { locked with fact := ⟨locked.fact, row.ref, ?_, rfl, identity, active⟩ }
      show row.ref ∈ (seen store own').incidents
      rw [← skeleton_view]
      exact List.mem_map_of_mem here
  · exact created store _ (at_.append fresh)

/-- The document of the message for a new job. -/
def workPayload (incidentId runId jobId : Uuid) : Json := .obj (RcaJobMessage.dump ⟨jobId, runId, incidentId⟩)

/-- The writes of new work. -/
def workWrites (incidentId runId jobId eventId : Uuid) (availableAt : Timestamp) : List Write :=
  [.insertRun (newRun runId incidentId availableAt), .insertJob (newJob jobId runId availableAt),
    .setPayload jobId (workPayload incidentId runId jobId),
    .insertOutboxEvent (newOutboxEvent eventId incidentId runId (workPayload incidentId runId jobId)
      availableAt)]

/-- What a transaction sees is well formed. -/
theorem seen_wellFormed (inv : store.Consistent old) (own : (added ws).WellFormed)
    (fresh : (seen store ws).keys.Nodup) :
    (seen store ws).WellFormed :=
  inv.toWellFormed.append own (Skeleton.nodup_of_append fresh).2.2

/-- Nothing refers to a run before it is inserted. -/
theorem new_run_unused {run : RcaRun} {more : List Write} (inv : store.Consistent old)
    (wf : (added ws).WellFormed) (fresh : (seen store (ws ++ .insertRun run :: more)).keys.Nodup) :
    (∀ job ∈ (seen store ws).jobs, job.runId ≠ run.id) ∧
      ∀ e ∈ (seen store ws).outboxEvents, e.idempotencyKey ≠ idempotencyKey run.id := by
  rw [seen_append, added_cons] at fresh
  obtain ⟨fresh, -, apart⟩ := Skeleton.nodup_of_append fresh
  have free : ∀ r ∈ (seen store ws).runs, r.id ≠ run.id := fun r hr same =>
    apart (.run run.id) (Skeleton.run_mem_keys.2 ⟨r, hr, same⟩) (Skeleton.mem_keys_append.2 (.inl (by simp)))
  have seenWf := seen_wellFormed inv wf fresh
  refine ⟨fun job hjob same => ?_, fun e he same => ?_⟩
  · obtain ⟨r, hr, hid⟩ := List.mem_map.1 (seenWf.jobRun job hjob)
    exact free r hr (hid.trans same)
  · obtain ⟨r, hr, hkey⟩ := List.mem_map.1 (seenWf.eventRun e he)
    exact free r hr (idempotencyKey_injective (hkey.trans same))

/-- An incident that the transaction inserted has no run yet. -/
theorem no_run {incidentId : Uuid} (inv : store.Consistent old) (fresh : (seen store ws).keys.Nodup)
    (new : Key.incident incidentId ∈ (added ws).keys)
    (noRun : ∀ run ∈ (added ws).runs, run.incidentId ≠ incidentId) :
    ∀ run ∈ (seen store ws).runs, run.incidentId ≠ incidentId := by
  intro run hrun same
  rcases List.mem_append.1 hrun with hrun | hrun
  · have here := inv.runIncident run hrun
    rw [same] at here
    exact (Skeleton.nodup_of_append fresh).2.2 _ (Skeleton.incident_mem_keys.2 (List.mem_map.1 here)) new
  · exact noRun run hrun same

/-- `create_rca_work` adds a run, its job and the event that carries it, for an incident of the
transaction. -/
theorem createRcaWork_spec {incidentId : Uuid} {availableAt : Timestamp} {f : RcaWorkCreation → Tx β}
    (lasting : Lasting F) (pre : At F ws store own) (wf : (added ws).WellFormed)
    (new : Key.incident incidentId ∈ (added ws).keys)
    (noRun : ∀ run ∈ (added ws).runs, run.incidentId ≠ incidentId)
    (next : ∀ store runId jobId eventId,
      At F (ws ++ workWrites incidentId runId jobId eventId availableAt) store
        (ws ++ workWrites incidentId runId jobId eventId availableAt) →
      sql.wp (Tables.Consistent old) Q (f ⟨runId, some eventId⟩) store
        (ws ++ workWrites incidentId runId jobId eventId availableAt)) :
    sql.wp (Tables.Consistent old) Q (createRcaWork incidentId availableAt >>= f) store own := by
  simp only [createRcaWork, Program.stmt_bind, Program.call_bind]
  refine wp_uuid4 lasting pre fun store runId pre => ?_
  refine wp_stmt lasting pre fun store c a own' inv at_ hrun fresh => ?_
  rcases insertUnless_eq_some.1 hrun with ⟨-, rfl, rfl⟩ | ⟨-, -, rfl, rfl⟩
  · -- the new incident has no run, so there is no row to fall back to
    refine wp_stmt lasting at_ fun store c a own' inv at_ hrun fresh => ?_
    cases hrun
    cases hfound : (store.merge own').activeRun incidentId with
    | none => trivial
    | some row =>
      have here := List.mem_of_find?_eq_some hfound
      have same : row.incidentId = incidentId ∧ ActiveRun row.status := by simpa using List.find?_some hfound
      refine absurd same.1 (no_run inv at_.fresh new noRun (runRef row) ?_)
      rw [← skeleton_view]
      exact List.mem_map_of_mem here
  · have pre := at_.append fresh
    refine wp_uuid4 lasting pre fun store jobId pre => ?_
    refine wp_stmt lasting pre fun store c a own' inv at_ hrun fresh => ?_
    rcases insertUnless_eq_some.1 hrun with ⟨conflict, -, -⟩ | ⟨-, -, rfl, rfl⟩
    · simp only [List.any_eq_true, decide_eq_true_eq] at conflict
      obtain ⟨job, hjob, same⟩ := conflict
      refine absurd same ((new_run_unused inv wf at_.fresh).1 (jobRef job) ?_)
      have here :
          jobRef job ∈ (seen store (ws ++ [.insertRun (newRun runId incidentId availableAt)])).jobs := by
        rw [← skeleton_view]
        exact List.mem_map_of_mem hjob
      rw [seen_append] at here
      simpa [Write.adds, Skeleton.empty] using here
    · have pre := at_.append fresh
      show sql.wp _ Q (.call (.updatePayload jobId (workPayload incidentId runId jobId)) _) _ _
      refine wp_write lasting (fun _ _ _ => rfl) pre fun store pre => ?_
      refine wp_uuid4 lasting pre fun store eventId pre => ?_
      refine wp_stmt lasting pre fun store c a own' inv at_ hrun fresh => ?_
      rcases insertUnless_eq_some.1 hrun with ⟨conflict, -, -⟩ | ⟨-, -, rfl, rfl⟩
      · simp only [List.any_eq_true, decide_eq_true_eq] at conflict
        obtain ⟨e, he, same⟩ := conflict
        have fresh := at_.fresh
        simp only [List.append_assoc, List.cons_append, List.nil_append] at he fresh
        refine absurd same ((new_run_unused inv wf fresh).2 (outboxRef e) ?_)
        have here :
            outboxRef e ∈
            (store.merge (ws ++ [.insertRun _, .insertJob _, .setPayload _ _])).skeleton.outboxEvents :=
          List.mem_map_of_mem he
        rw [skeleton_view, seen_append] at here
        simpa [Write.adds, Skeleton.empty] using here
      · have done := at_.append fresh
        simp only [List.append_assoc, List.cons_append, List.nil_append] at done ⊢
        exact next store runId jobId eventId done

/-- `insert_link` links an event of the transaction that is not linked yet. -/
theorem insertLink_spec {link : IncidentAlert} {f : Unit → Tx β} (lasting : Lasting F)
    (pre : At F ws store own) (new : Key.event link.alertEventId ∈ (added ws).keys)
    (unlinked : ∀ l ∈ (added ws).links, l.alertEventId ≠ link.alertEventId)
    (next : ∀ store, At F (ws ++ [.insertLink link]) store (ws ++ [.insertLink link]) →
      sql.wp (Tables.Consistent old) Q (f ()) store (ws ++ [.insertLink link])) :
    sql.wp (Tables.Consistent old) Q (.call (.insertLink link) f) store own := by
  refine wp_stmt lasting pre fun store c a own' inv at_ hrun fresh => ?_
  simp only [Stmt.exec, Option.some.injEq, Prod.mk.injEq] at hrun
  obtain ⟨-, rfl⟩ := hrun
  have missing : link ∉ (store.merge ws).links := by
    intro here
    rw [← Tables.skeleton_links, skeleton_view] at here
    rcases List.mem_append.1 here with here | here
    · exact (Skeleton.nodup_of_append at_.fresh).2.2 _
        (Skeleton.event_mem_keys.2 (List.mem_map.1 (inv.linkEvent _ here))) new
    · exact unlinked link here rfl
  rw [if_neg missing] at fresh ⊢
  exact next store (at_.append fresh)

/-- Rows that refer to nothing but events. -/
theorem Skeleton.WellFormed.add {s more : Skeleton} (h : s.WellFormed) (nodup : (s ++ more).keys.Nodup)
    (runs : more.runs = []) (jobs : more.jobs = []) (outboxEvents : more.outboxEvents = [])
    (links : ∀ l ∈ more.links, l.alertEventId ∈ (s ++ more).events.map (·.id)) : (s ++ more).WellFormed where
  keys := nodup
  runIncident run hrun := by
    rw [append_runs, runs, List.append_nil] at hrun
    rw [append_incidents, List.map_append]
    exact List.mem_append_left _ (h.runIncident run hrun)
  jobRun job hjob := by
    rw [append_jobs, jobs, List.append_nil] at hjob
    rw [append_runs, List.map_append]
    exact List.mem_append_left _ (h.jobRun job hjob)
  eventRun e he := by
    rw [append_outboxEvents, outboxEvents, List.append_nil] at he
    rw [append_runs, List.map_append]
    exact List.mem_append_left _ (h.eventRun e he)
  linkEvent link hlink := by
    rcases List.mem_append.1 hlink with hlink | hlink
    · rw [append_events, List.map_append]
      exact List.mem_append_left _ (h.linkEvent link hlink)
    · exact links link hlink

/-! ## Turns of the loop -/

/-- What the filing of a claimed event writes, its incident and its new outbox event. -/
inductive Filed (call : Call) (event : CanonicalAlertEvent) (identity : IncidentIdentity) (eventId : Uuid)
    (v : Skeleton) :
    List Write → Option Uuid → Option Uuid → Prop where
  | created {reopenedFrom : Option Uuid} {incidentId runId jobId outboxEventId : Uuid}
      (firing : event.status = .FIRING) :
    Filed call event identity eventId v
      (.insertIncident ((incidentValues call event identity reopenedFrom).row incidentId) ::
        .insertLink ⟨incidentId, eventId⟩ ::
        workWrites incidentId runId jobId outboxEventId call.receivedAt) (some incidentId)
        (some outboxEventId)
  | reused {incidentId : Uuid} (firing : event.status = .FIRING)
    (active : ∃ r ∈ v.incidents, r.id = incidentId ∧ r.identity = (identity.version, identity.key) ∧
      r.status.Active) :
    Filed call event identity eventId v
      [.lockRow (.incident incidentId), .insertLink ⟨incidentId, eventId⟩,
        .setAlertState incidentId .FIRING call.receivedAt] (some incidentId) none
  | resolved {incidentId : Uuid} (resolved : event.status = .RESOLVED)
    (known : ∃ r ∈ v.incidents, r.id = incidentId ∧ r.identity = (identity.version, identity.key)) :
    Filed call event identity eventId v
      [.lockRow (.incident incidentId), .insertLink ⟨incidentId, eventId⟩,
        .setAlertState incidentId .RESOLVED call.receivedAt] (some incidentId) none
  | unknown (resolved : event.status = .RESOLVED) : Filed call event identity eventId v [] none none

/-- What is filed of an event stays so where more rows are seen. -/
theorem Filed.mono {call : Call} {event : CanonicalAlertEvent} {identity : IncidentIdentity}
    {eventId : Uuid} {a b : Skeleton} {writes : List Write} {incidentId outboxEventId : Option Uuid}
    (within : a.Within b) (h : Filed call event identity eventId a writes incidentId outboxEventId) :
    Filed call event identity eventId b writes incidentId outboxEventId := by
  cases h with
  | created firing => exact .created firing
  | reused firing active => exact .reused firing (lasting_incident _ a b within active)
  | resolved resolved known => exact .resolved resolved (lasting_incident _ a b within known)
  | unknown resolved => exact .unknown resolved

/-- `file_event` files the event under its incident. -/
theorem fileEvent_spec {call : Call} {event : CanonicalAlertEvent} {identity : IncidentIdentity}
    {eventId : Uuid} {f : Option Uuid × Option Uuid → Tx β} (lasting : Lasting F) (pre : At F ws store own)
    (wf : (added ws).WellFormed) (new : Key.event eventId ∈ (added ws).keys)
    (unlinked : ∀ l ∈ (added ws).links, l.alertEventId ≠ eventId)
    (next : ∀ store writes incidentId outboxEventId,
      At (fun v => F v ∧ Filed call event identity eventId (v ++ added ws) writes incidentId outboxEventId)
      (ws ++ writes) store
        (ws ++ writes) →
      sql.wp (Tables.Consistent old) Q (f (incidentId, outboxEventId)) store (ws ++ writes)) :
    sql.wp (Tables.Consistent old) Q (fileEvent call event identity eventId >>= f) store own := by
  cases hstatus : event.status with
  | FIRING =>
    simp only [fileEvent, hstatus, Program.stmt_bind, Program.call_bind, Program.bind_assoc]
    refine wp_stmt lasting pre fun store c reopenedFrom own' _ pre hrun _ => ?_
    simp only [Stmt.exec, Option.some.injEq, Prod.mk.injEq] at hrun
    obtain ⟨-, rfl⟩ := hrun
    refine getOrCreateActive_spec lasting pre (fun store incidentId pre => ?_) fun store incidentId pre => ?_
    · have linkNew : Key.event eventId ∈ (added (ws ++
          [.insertIncident ((incidentValues call event identity reopenedFrom).row incidentId)])).keys := by
        rw [added_append]
        exact Skeleton.mem_keys_append.2 (.inl new)
      refine insertLink_spec lasting pre linkNew (by simpa [Write.adds, Skeleton.empty] using unlinked)
        fun store pre => ?_
      simp only [List.append_assoc, List.cons_append, List.nil_append] at pre ⊢
      rw [if_pos trivial, Program.bind_assoc]
      have nodup :
        (added ws ++
          added [.insertIncident ((incidentValues call event identity reopenedFrom).row incidentId),
          .insertLink ⟨incidentId, eventId⟩]).keys.Nodup := by
        rw [← added_append]
        exact (Skeleton.nodup_of_append pre.fresh).2.1
      have apart := (Skeleton.nodup_of_append nodup).2.2
      have incidentKey : Key.incident incidentId ∈
        (added [.insertIncident ((incidentValues call event identity reopenedFrom).row incidentId),
          .insertLink ⟨incidentId, eventId⟩]).keys := by
        simp [Write.adds, Skeleton.empty, Incident.ref, IncidentValues.row]
      refine createRcaWork_spec lasting pre ?_ ?_ ?_ fun store runId jobId outboxEventId pre => ?_
      · rw [added_append]
        refine wf.add nodup rfl rfl rfl fun l hl => ?_
        have : l = ⟨incidentId, eventId⟩ := by simpa [Write.adds, Skeleton.empty] using hl
        obtain ⟨r, hr, hid⟩ := Skeleton.event_mem_keys.1 new
        rw [this]
        exact List.mem_map.2 ⟨r, List.mem_append_left _ hr, hid⟩
      · rw [added_append]
        exact Skeleton.mem_keys_append.2 (.inr incidentKey)
      · intro run hrun same
        have hrun : run ∈ (added ws).runs := by simpa [Write.adds, Skeleton.empty] using hrun
        have here := wf.runIncident run hrun
        rw [same] at here
        exact apart _ (Skeleton.incident_mem_keys.2 (List.mem_map.1 here)) incidentKey
      · simp only [List.append_assoc, List.cons_append, List.nil_append] at pre ⊢
        exact next store _ _ _ (pre.weaken fun v h => ⟨h, .created hstatus⟩)
    · have linkNew : Key.event eventId ∈ (added (ws ++ [.lockRow (.incident incidentId)])).keys := by
        rw [added_append]
        exact Skeleton.mem_keys_append.2 (.inl new)
      have known := lasting.and (.after (lasting_incident fun r => r.id = incidentId ∧
        r.identity = (incidentValues call event identity reopenedFrom).identity ∧ r.status.Active) ws)
      refine insertLink_spec known pre linkNew (by simpa [Write.adds, Skeleton.empty] using unlinked)
        fun store pre => ?_
      simp only [Bool.false_eq_true, if_false]
      refine wp_write known (fun _ _ _ => rfl) pre fun store pre => ?_
      simp only [List.append_assoc, List.cons_append, List.nil_append] at pre ⊢
      exact next store _ _ _ (pre.weaken fun v h => ⟨h.1, .reused hstatus h.2⟩)
  | RESOLVED =>
    simp only [fileEvent, hstatus, Program.stmt_bind, Program.call_bind]
    refine wp_stmt lasting pre fun store c found own' _ pre hrun fresh => ?_
    cases hrun
    cases hfound : (store.merge ws).latest (identity.version, identity.key) with
    | none =>
      rw [hfound] at fresh
      exact next store [] none none ((pre.append fresh).weaken fun v h => ⟨h, .unknown hstatus⟩)
    | some row =>
      obtain ⟨here, sameIdentity⟩ := Tables.latest_some hfound
      rw [hfound] at fresh
      have locked := pre.append fresh
      have known := lasting.and
        (.after (lasting_incident fun r => r.id = row.id ∧ r.identity = (identity.version, identity.key)) ws)
      have linkNew : Key.event eventId ∈ (added (ws ++ [.lockRow (.incident row.id)])).keys := by
        rw [added_append]
        exact Skeleton.mem_keys_append.2 (.inl new)
      have found : ∃ r ∈ (seen store ws).incidents, r.id = row.id ∧
          r.identity = (identity.version, identity.key) := by
        refine ⟨row.ref, ?_, rfl, sameIdentity⟩
        rw [← skeleton_view]
        exact List.mem_map_of_mem here
      refine insertLink_spec known { locked with fact := ⟨locked.fact, found⟩ } linkNew
        (by simpa [lockFound, Write.adds, Skeleton.empty] using unlinked) fun store pre => ?_
      refine wp_write known (fun _ _ _ => rfl) pre fun store pre => ?_
      simp only [List.append_assoc, List.cons_append, List.nil_append] at pre ⊢
      exact next store _ _ _ (pre.weaken fun v h => ⟨h.1, .resolved hstatus h.2⟩)

/-- The row of a claimed event. -/
def claimedRow (call : Call) (deliveryId : Uuid) (event : CanonicalAlertEvent) (rawAlert : Json)
    (identity : IncidentIdentity) (labels : JsonObject) (eventId : Uuid) : AlertEvent :=
  event.row eventId deliveryId call.receivedAt (event.documents rawAlert labels)
    (validationErrors event identity)

/-- What the claim of an event writes. -/
def claimWrites (call : Call) (deliveryId : Uuid) (event : CanonicalAlertEvent) (rawAlert : Json)
    (identity : IncidentIdentity) (labels : JsonObject) (eventId : Uuid) : List Write :=
  [.insertDedupKey ⟨call.sourceId, event.dedupKey, deliveryId⟩,
    .insertEvent (claimedRow call deliveryId event rawAlert identity labels eventId),
    .upsertInstance (event.instanceRow eventId call.receivedAt (plainFields event.labels)
      (textFields event.annotations))]

/-- One turn of the loop, on the rows it sees: an event whose key is taken writes nothing, any other
is claimed and filed. -/
inductive Turn (b : Backend) (call : Call) (deliveryId : Uuid) (v : Skeleton) :
    CanonicalAlertEvent × Json → List Write → Progress → Progress → Prop where
  | duplicate {event : CanonicalAlertEvent} {rawAlert : Json} {progress : Progress}
      {identity : IncidentIdentity}
    (identified : makeIncidentIdentityV2 b.toHashing call.sourceId event.folderCode event.alertName
      event.fingerprint =
      some identity)
    (taken : ∃ r ∈ v.dedupKeys, r.sourceId = call.sourceId ∧ r.dedupKey = event.dedupKey) :
    Turn b call deliveryId v (event, rawAlert) [] progress progress
  | claimed {event : CanonicalAlertEvent} {rawAlert : Json} {progress : Progress}
      {identity : IncidentIdentity}
    {labels : JsonObject} {eventId : Uuid} {writes : List Write} {incidentId outboxEventId : Option Uuid}
    (identified : makeIncidentIdentityV2 b.toHashing call.sourceId event.folderCode event.alertName
      event.fingerprint =
      some identity)
    (serialised : dumpsFields event.labels = some labels)
    (filed : Filed call event identity eventId
      (v ++ added (claimWrites call deliveryId event rawAlert identity labels eventId))
      writes incidentId outboxEventId) :
    Turn b call deliveryId v (event, rawAlert)
    (claimWrites call deliveryId event rawAlert identity labels eventId ++ writes)
      progress (progress.add (validationErrors event identity) incidentId outboxEventId)

/-- The turns of the loop; each sees what the turns before it wrote. -/
inductive Turns (b : Backend) (call : Call) (deliveryId : Uuid) :
    Skeleton → List (CanonicalAlertEvent × Json) → List Write → Progress → Progress → Prop where
  | nil {v : Skeleton} {progress : Progress} : Turns b call deliveryId v [] [] progress progress
  | cons {v : Skeleton} {alert : CanonicalAlertEvent × Json} {alerts : List (CanonicalAlertEvent × Json)}
      {writes more : List Write}
    {progress between after : Progress} (turn : Turn b call deliveryId v alert writes progress between)
    (rest : Turns b call deliveryId (v ++ added writes) alerts more between after) :
    Turns b call deliveryId v (alert :: alerts) (writes ++ more) progress after

section

variable {b : Backend} {call : Call} {deliveryId : Uuid} {alert : CanonicalAlertEvent × Json}
  {alerts : List (CanonicalAlertEvent × Json)} {writes : List Write} {progress after : Progress}
  {u v : Skeleton}

/-- A turn stays one where more rows are seen. -/
theorem Turn.mono (within : u.Within v) (h : Turn b call deliveryId u alert writes progress after) :
    Turn b call deliveryId v alert writes progress after := by
  cases h with
  | duplicate identified taken => exact .duplicate identified (lasting_dedup _ u v within taken)
  | claimed identified serialised filed =>
    exact .claimed identified serialised (filed.mono (within.append_left _))

theorem Turns.mono (within : u.Within v) (h : Turns b call deliveryId u alerts writes progress after) :
    Turns b call deliveryId v alerts writes progress after := by
  induction h generalizing v with
  | nil => exact .nil
  | cons turn _ ih => exact .cons (turn.mono within) (ih (within.append_left _))

/-- A new outbox event carries the message of its job. -/
theorem carries_newOutboxEvent (incidentId runId jobId eventId : Uuid) (availableAt : Timestamp) :
    (outboxRef (newOutboxEvent eventId incidentId runId (workPayload incidentId runId jobId)
        availableAt)).Carries
      ⟨jobId, runId, incidentId⟩ :=
  ⟨rfl, RcaJobMessage.fromMapping_dump _, fun _ readable => RcaJobMessage.fromBytes_toBytes readable _⟩

/-- The rows of a turn are consistent by themselves. -/
theorem Turn.consistent (h : Turn b call deliveryId v alert writes progress after)
    (nodup : (added writes).keys.Nodup) :
    (added writes).Consistent old := by
  cases h with
  | duplicate => exact Skeleton.consistent_empty
  | @claimed event rawAlert _ identity labels eventId _ _ _ identified serialised filed =>
    cases filed with
    | @created reopenedFrom incidentId runId jobId outboxEventId firing =>
      refine ⟨⟨nodup, ?_, ?_, ?_, ?_⟩, ?_⟩
      · simp [claimWrites, workWrites, Write.adds, Skeleton.empty, runRef, newRun, Incident.ref,
          IncidentValues.row]
      · simp [claimWrites, workWrites, Write.adds, Skeleton.empty, runRef, newRun, jobRef, newJob]
      · simp [claimWrites, workWrites, Write.adds, Skeleton.empty, runRef, newRun, outboxRef, newOutboxEvent]
      · simp [claimWrites, workWrites, Write.adds, Skeleton.empty, claimedRow, CanonicalAlertEvent.row]
      · intro incident hincident _
        have : incident = ((incidentValues call event identity reopenedFrom).row incidentId).ref := by
          simpa [claimWrites, workWrites, Write.adds, Skeleton.empty] using hincident
        rw [this]
        refine ⟨runRef (newRun runId incidentId call.receivedAt), jobRef (newJob jobId runId call.receivedAt),
          outboxRef (newOutboxEvent outboxEventId incidentId runId (workPayload incidentId runId jobId)
            call.receivedAt), ?_, ?_, ?_,
          carries_newOutboxEvent incidentId runId jobId outboxEventId call.receivedAt⟩
        · simp [claimWrites, workWrites, Write.adds, Skeleton.empty, runRef, newRun, Incident.ref,
            IncidentValues.row]
        · simp [claimWrites, workWrites, Write.adds, Skeleton.empty, runRef, newRun, jobRef, newJob]
        · simp [claimWrites, workWrites, Write.adds, Skeleton.empty, runRef, newRun, outboxRef,
            newOutboxEvent]
    | reused | resolved | unknown =>
      refine ⟨⟨nodup, ?_, ?_, ?_, ?_⟩, ?_⟩ <;>
        simp [claimWrites, Write.adds, Skeleton.empty, claimedRow, CanonicalAlertEvent.row]

end

section

variable {b : Backend} {call : Call} {deliveryId : Uuid} {event : CanonicalAlertEvent} {rawAlert : Json}
  {progress : Progress}

/-- An alert takes its turn. -/
theorem ingestAlert_spec {f : Progress → Tx β} (lasting : Lasting F) (pre : At F ws store own)
    (wf : (added ws).WellFormed) (next : ∀ store writes after,
      At (fun v => F v ∧ Turn b call deliveryId (v ++ added ws) (event, rawAlert) writes progress after)
      (ws ++ writes) store
        (ws ++ writes) →
      sql.wp (Tables.Consistent old) Q (f after) store (ws ++ writes)) :
    sql.wp (Tables.Consistent old) Q (ingestAlert b call deliveryId event rawAlert progress >>=
      f) store own := by
  simp only [ingestAlert, claimDedupKey, Program.bind_assoc, Program.stmt_bind, Program.call_bind]
  refine wp_orRaise fun identity identified => ?_
  refine wp_stmt lasting pre fun store c claimed own' _ at_ hrun fresh => ?_
  simp only [Stmt.exec] at hrun
  split at hrun
  · next taken =>
    cases hrun
    rw [if_pos rfl, Program.pure_bind]
    have done := next store [] progress
    rw [List.append_nil] at done
    refine done { at_ with fact := ⟨at_.fact, .duplicate identified ?_⟩ }
    show ∃ r ∈ (seen store ws).dedupKeys, _
    rw [← skeleton_view]
    simpa using taken
  · cases hrun
    rw [if_neg (by simp)]
    simp only [Program.bind_assoc]
    refine addEvent_spec lasting (at_.append fresh) fun store eventId labels serialised pre => ?_
    refine upsertInstance_spec lasting pre fun store pre => ?_
    simp only [List.append_assoc, List.cons_append, List.nil_append] at pre ⊢
    have nodup :
        (added ws ++
          added (claimWrites call deliveryId event rawAlert identity labels eventId)).keys.Nodup := by
      rw [← added_append]
      exact (Skeleton.nodup_of_append pre.fresh).2.1
    have eventKey : Key.event eventId ∈
        (added (claimWrites call deliveryId event rawAlert identity labels eventId)).keys := by
      simp [claimWrites, Write.adds, Skeleton.empty, claimedRow, CanonicalAlertEvent.row]
    refine fileEvent_spec lasting pre ?_ ?_ ?_
      fun store writes incidentId outboxEventId pre => ?_
    · rw [added_append]
      exact wf.add nodup rfl rfl rfl fun _ mem => (by cases mem)
    · rw [added_append]
      exact Skeleton.mem_keys_append.2 (.inr eventKey)
    · intro l hl same
      have hl : l ∈ (added ws).links := by simpa [claimWrites, Write.adds, Skeleton.empty] using hl
      have here := wf.linkEvent l hl
      rw [same] at here
      exact (Skeleton.nodup_of_append nodup).2.2 _ (Skeleton.event_mem_keys.2 (List.mem_map.1 here)) eventKey
    · rw [Program.pure_bind]
      rw [List.append_assoc] at pre ⊢
      refine next store _ _ (pre.weaken fun v h => ⟨h.1, .claimed identified serialised ?_⟩)
      rw [Skeleton.append_assoc, ← added_append]
      exact h.2

/-- The alerts take their turns, and what they add is consistent. -/
theorem ingestAlerts_spec {alerts : List (CanonicalAlertEvent × Json)} {f : Progress → Tx β}
    (lasting : Lasting F) (pre : At F ws store own) (consistent : (added ws).Consistent old)
    (next : ∀ store writes after,
      At (fun v => F v ∧ Turns b call deliveryId (v ++ added ws) alerts writes progress after)
      (ws ++ writes) store
        (ws ++ writes) → (added (ws ++ writes)).Consistent old →
      sql.wp (Tables.Consistent old) Q (f after) store (ws ++ writes)) :
    sql.wp (Tables.Consistent old) Q (ingestAlerts b call deliveryId alerts progress >>= f) store own := by
  induction alerts generalizing F ws store own progress with
  | nil =>
    obtain rfl := pre.own
    have done := next store [] progress
    rw [List.append_nil] at done
    exact done (pre.weaken fun v h => ⟨h, .nil⟩) consistent
  | cons alert alerts ih =>
    obtain ⟨event, rawAlert⟩ := alert
    rw [ingestAlerts, Program.bind_assoc]
    refine ingestAlert_spec lasting pre consistent.toWellFormed fun store writes between pre => ?_
    have stepped : (added (ws ++ writes)).Consistent old := by
      have nodup := (Skeleton.nodup_of_append pre.fresh).2.1
      rw [added_append] at nodup ⊢
      obtain ⟨-, ownNodup, apart⟩ := Skeleton.nodup_of_append nodup
      exact consistent.append (pre.fact.2.consistent ownNodup) apart
    have remember : Lasting fun v => F v ∧
        Turn b call deliveryId (v ++ added ws) (event, rawAlert) writes progress between :=
      lasting.and fun _ _ within h => h.mono (within.append_left _)
    refine ih remember pre stepped fun store more after pre consistent => ?_
    rw [List.append_assoc] at pre consistent ⊢
    refine next store (writes ++ more) after (pre.weaken fun v h => ⟨h.1.1, .cons h.1.2 ?_⟩) consistent
    rw [Skeleton.append_assoc, ← added_append]
    exact h.2

end

/-! ## `execute` -/

/-- What a call that came to its end has read and written. -/
inductive Executed (b : Backend) (maxBodyBytes : Nat) (call : Call) (v : Skeleton) : IngestionResult →
      List Write → Prop where
  | intro {webhook : GrafanaWebhook} {document : Json} {items : List Json} {deliveryId : Uuid}
      {writes : List Write}
    {progress : Progress} (parsed : parseGrafanaBody b call.rawBody maxBodyBytes = .valid webhook)
    (loaded : rawAlerts b call.rawBody webhook.alerts.length = some (document, items))
    (stored : storable document = true) (counted : webhook.truncatedAlerts.getD 0 < 2147483648)
    (turns : Turns b call deliveryId
      (v ++ added [.insertDelivery ((deliveryValues b call webhook document).row deliveryId)])
      ((normalizeAlerts b.toHashing call.sourceId call.rawBody webhook call.engine).zip items) writes
        ⟨0, false, [], []⟩ progress) :
    Executed b maxBodyBytes call v (progress.result call deliveryId)
      (.insertDelivery ((deliveryValues b call webhook document).row deliveryId) ::
        (writes ++ [.finishDelivery deliveryId progress.status call.receivedAt]))

/-- The writes of the loop are among the writes of the call. -/
theorem within_loop {first last : Write} {v : Skeleton} (h : (added (first :: (ws ++ [last]))).Within v) :
    (added ws).Within v := by
  rw [added_cons, added_append] at h
  exact (Skeleton.within_append _ _).trans ((Skeleton.within_append_right _ _).trans h)

/-- The rows of the delivery take no key of the loop. -/
theorem fresh_loop {first last : Write} (h : (seen store (first :: (ws ++ [last]))).keys.Nodup) :
    (seen store ws).keys.Nodup := by
  rw [seen, added_cons, added_append] at h
  obtain ⟨storeNodup, ownNodup, apart⟩ := Skeleton.nodup_of_append h
  have loop := (Skeleton.nodup_of_append (Skeleton.nodup_of_append ownNodup).2.1).1
  exact Skeleton.nodup_append storeNodup loop fun k hk hk' =>
    apart k hk (Skeleton.mem_keys_append.2 (.inr (Skeleton.mem_keys_append.2 (.inl hk'))))

/-- The rows the loop starts on are those of the tables it ends in. -/
theorem within_start {first last : Write} {v : Skeleton} (h : (added (first :: (ws ++ [last]))).Within v) :
    (v ++ added [first]).Within v := by
  rw [added_cons] at h
  rw [added_cons, added_nil, Skeleton.append_empty]
  exact (Skeleton.within_refl v).append ((Skeleton.within_append _ _).trans h)

/-- What a call has done stays so where more rows are seen. -/
theorem Executed.mono {b : Backend} {maxBodyBytes : Nat} {call : Call} {u v : Skeleton}
    {result : IngestionResult} (within : u.Within v) (h : Executed b maxBodyBytes call u result own) :
    Executed b maxBodyBytes call v result own := by
  cases h with
  | intro parsed loaded stored counted turns =>
    exact .intro parsed loaded stored counted (turns.mono (within.append_left _))

/-- What holds of a transaction of `execute` when it commits. -/
structure Ended (b : Backend) (maxBodyBytes : Nat) (old : List Uuid) (call : Call)
    (result : IngestionResult) (store : Tables) (own : List Write) : Prop where
  fresh : (seen store own).keys.Nodup
  consistent : (added own).Consistent old
  executed : Executed b maxBodyBytes call store.skeleton result own

/-- A call that ends has done what `Executed` says. -/
theorem execute_spec {b : Backend} {maxBodyBytes : Nat} {call : Call} (inv : store.Consistent old) :
    sql.wp (Tables.Consistent old) (Ended b maxBodyBytes old call)
    (execute b maxBodyBytes call) store [] := by
  unfold execute
  cases parsed : parseGrafanaBody b call.rawBody maxBodyBytes with
  | invalid => trivial
  | raised => trivial
  | valid webhook =>
    refine wp_orRaise fun (document, items) loaded => ?_
    have pre : At (fun _ => True) [] store [] := by
      refine ⟨rfl, ?_, trivial⟩
      rw [seen, added_nil, Skeleton.append_empty]
      exact inv.keys
    refine createDelivery_spec lasting_true pre fun store deliveryId stored counted pre => ?_
    have alone :
        (added ([] ++
            [.insertDelivery ((deliveryValues b call webhook document).row deliveryId)])).Consistent old :=
      ⟨⟨(Skeleton.nodup_of_append pre.fresh).2.1, nofun, nofun, nofun, nofun⟩, nofun⟩
    refine ingestAlerts_spec lasting_true pre alone fun store writes progress pre consistent => ?_
    have lasting : Lasting fun v => True ∧ Turns b call deliveryId
        (v ++ added [.insertDelivery ((deliveryValues b call webhook document).row deliveryId)])
        ((normalizeAlerts b.toHashing call.sourceId call.rawBody webhook call.engine).zip items) writes
          ⟨0, false, [], []⟩ progress :=
      lasting_true.and fun _ _ within h => h.mono (within.append_left _)
    rw [Program.stmt_bind]
    refine wp_write lasting (fun _ _ _ => rfl) pre fun store pre => ?_
    simp only [List.cons_append, List.nil_append] at pre consistent ⊢
    refine Dialect.wp_pure (At.stable lasting) pre fun store done => ?_
    refine ⟨done.fresh, ?_, .intro parsed loaded stored counted done.fact.2⟩
    simpa [Write.adds] using consistent

end

end SreAgent.Ingestion
