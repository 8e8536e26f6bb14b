import SreAgent.Ingestion.Outboxed

/-!
# Replayed bodies

A call that committed has left the dedup key of every alert of its body in the tables. A later call
with the same body for the same source claims none of them, whatever was delivered in between and
whatever rules it applies: it records a duplicate delivery and nothing else.
-/

namespace SreAgent.Ingestion
open Base Transaction Alerts Outbox Lifecycle Pubsub

variable {b : Backend} {maxBodyBytes : Nat} {publishing : Bool} {start : Tables} {call replay : Call}
  {deliveryId : Uuid}
  {alert : CanonicalAlertEvent × Json} {alerts : List (CanonicalAlertEvent × Json)} {writes own : List Write}
  {progress after : Progress} {store : Tables} {v : Skeleton}

/-- The alert has an identity, and its key is taken. -/
def Known (b : Backend) (sourceId : Uuid) (keys : List IngestionDedupKey)
    (alert : CanonicalAlertEvent × Json) : Prop :=
  (∃ identity, makeIncidentIdentityV2 b.toHashing sourceId alert.1.folderCode alert.1.alertName
    alert.1.fingerprint =
    some identity) ∧ ∃ r ∈ keys, r.sourceId = sourceId ∧ r.dedupKey = alert.1.dedupKey

/-- An alert whose turn adds nothing new is known. -/
theorem Turn.known (h : Turn b call deliveryId v alert writes progress after) (seen : v.Within store.skeleton)
    (within : (added writes).Within store.skeleton) : Known b call.sourceId store.dedupKeys alert := by
  cases h with
  | duplicate identified taken => exact ⟨⟨_, identified⟩, lasting_dedup _ _ _ seen taken⟩
  | @claimed event _ _ _ _ _ _ _ _ identified _ _ =>
    have here : ⟨call.sourceId, event.dedupKey, deliveryId⟩ ∈ store.dedupKeys :=
      within.dedupKeys (by simp [claimWrites, Write.adds])
    exact ⟨⟨_, identified⟩, _, here, rfl, rfl⟩

/-- The alerts of a committed call are known. -/
theorem Turns.known (h : Turns b call deliveryId v alerts writes progress after)
    (seen : v.Within store.skeleton) (within : (added writes).Within store.skeleton) :
    ∀ alert ∈ alerts, Known b call.sourceId store.dedupKeys alert := by
  intro other hother
  induction h with
  | nil => cases hother
  | cons turn _ ih =>
    rw [added_append] at within
    have first := (Skeleton.within_append _ _).trans within
    rcases List.mem_cons.1 hother with rfl | hother
    · exact turn.known seen first
    · exact ih (seen.append first) ((Skeleton.within_append_right _ _).trans within) hother

/-- A key that is in the tables is not claimed again. -/
theorem Turn.of_known (h : Turn b call deliveryId v alert writes progress after)
    (fresh : (store.skeleton ++ added writes).keys.Nodup)
    (known : Known b call.sourceId store.dedupKeys alert) :
    writes = [] ∧ after = progress := by
  cases h with
  | duplicate => exact ⟨rfl, rfl⟩
  | @claimed event rawAlert _ identity labels eventId writes _ _ identified serialised filed =>
    obtain ⟨-, r, hr, source, key⟩ := known
    refine absurd ?_ ((Skeleton.nodup_of_append fresh).2.2 (.dedup call.sourceId event.dedupKey) ?_)
    · exact Skeleton.dedup_mem_keys.2 ⟨⟨call.sourceId, event.dedupKey, deliveryId⟩,
        by simp [claimWrites, Write.adds], rfl, rfl⟩
    · exact Skeleton.dedup_mem_keys.2 ⟨r, hr, source, key⟩

/-- Known alerts add nothing. -/
theorem Turns.of_known (h : Turns b call deliveryId v alerts writes progress after)
    (fresh : (store.skeleton ++ added writes).keys.Nodup)
    (known : ∀ alert ∈ alerts, Known b call.sourceId store.dedupKeys alert) :
    writes = [] ∧ after = progress := by
  induction h with
  | nil => exact ⟨rfl, rfl⟩
  | @cons _ alert alerts writes more _ _ _ turn _ ih =>
    rw [added_append, ← Skeleton.append_assoc] at fresh
    obtain ⟨rfl, rfl⟩ := turn.of_known (Skeleton.nodup_of_append fresh).1 (known alert List.mem_cons_self)
    rw [added_nil, Skeleton.append_empty] at fresh
    exact ih fresh fun a ha => known a (List.mem_cons_of_mem _ ha)

/-- What identifies an alert does not depend on the rules. -/
theorem known_of_engine {gs : List GrafanaAlert} {items : List Json} {sourceId : Uuid} {rawSha256 : String}
    {engine engine' : SafeRuleEngine} {keys : List IngestionDedupKey}
    (h : ∀ alert ∈ (gs.map (normalizeAlert b.toHashing sourceId rawSha256 engine)).zip items,
      Known b sourceId keys alert) :
    ∀ alert ∈ (gs.map (normalizeAlert b.toHashing sourceId rawSha256 engine')).zip items,
      Known b sourceId keys alert := by
  intro alert halert
  rw [List.zip_map_left] at h halert
  obtain ⟨⟨g, item⟩, hg, rfl⟩ := List.mem_map.1 halert
  have known :=
    h _ (List.mem_map_of_mem (f := Prod.map (normalizeAlert b.toHashing sourceId rawSha256 engine) id) hg)
  exact known

/-! ## The replay -/

/-- The tables have one more delivery, a duplicate, and the call returned no identifiers. -/
structure Replayed (call : Call) (before : Tables) (result : IngestionResult) (after : Tables) : Prop where
  delivery : ∃ row : WebhookDelivery, row.id = result.deliveryId ∧ row.status = .DUPLICATE ∧
    row.sourceId = call.sourceId ∧
    row.rawBody = call.rawBody ∧ row.receivedAt = call.receivedAt ∧
      after = { before with deliveries := before.deliveries ++ [row] }
  incidentIds : result.incidentIds = []
  outboxEventIds : result.outboxEventIds = []

/-- Every alert of the body is known for its source. -/
def Call.AllKnown (b : Backend) (maxBodyBytes : Nat) (call : Call) (store : Tables) : Prop :=
  ∀ webhook document items, parseGrafanaBody b call.rawBody maxBodyBytes = .valid webhook →
    rawAlerts b call.rawBody webhook.alerts.length = some (document, items) →
    ∀ alert ∈ (normalizeAlerts b.toHashing call.sourceId call.rawBody webhook call.engine).zip items,
      Known b call.sourceId store.dedupKeys alert

/-- A delivery that is inserted and finished is one row with its status. -/
theorem merge_finished {row : WebhookDelivery} {status : DeliveryStatus} {processedAt : Timestamp}
    (new : ∀ r ∈ store.deliveries, r.id ≠ row.id) :
    store.merge [.insertDelivery row, .finishDelivery row.id status processedAt] =
      { store with deliveries := store.deliveries ++ [row.finish status processedAt] } := by
  have others : Table.updateWhere (fun r : WebhookDelivery => r.id = row.id)
    (WebhookDelivery.finish status processedAt)
      store.deliveries = store.deliveries := Table.updateWhere_of_none new
  rw [Table.updateWhere] at others
  simp only [Tables.merge, List.foldl_cons, List.foldl_nil, Write.apply, Table.updateWhere,
    List.map_append, others]
  simp

/-- A call whose alerts are all known is a replay. -/
theorem Ended.replayed {old : List Uuid} {result : IngestionResult}
    (ended : Ended b maxBodyBytes old call result store own) (known : call.AllKnown b maxBodyBytes store) :
    Replayed call store result (store.merge own) := by
  obtain ⟨fresh, -, executed⟩ := ended
  cases executed with
  | @intro webhook document items deliveryId writes progress parsed loaded stored counted turns =>
    obtain ⟨rfl, rfl⟩ := turns.of_known (fresh_loop fresh) (known webhook document items parsed loaded)
    have new : ∀ r ∈ store.deliveries, r.id ≠ deliveryId := by
      intro r hr same
      refine (Skeleton.nodup_of_append fresh).2.2 (.delivery deliveryId) ?_ ?_
      · exact Skeleton.delivery_mem_keys.2 (List.mem_map.2 ⟨r, hr, same⟩)
      · exact Skeleton.delivery_mem_keys.2 (by simp [Write.adds, DeliveryValues.row])
    refine ⟨⟨_, rfl, rfl, rfl, rfl, rfl, merge_finished new⟩, rfl, rfl⟩

/-- A committed call leaves its alerts known, for every later call with its source and body. -/
theorem Settled.known {result : IngestionResult} (settled : Settled b maxBodyBytes call result own store)
    (source : replay.sourceId = call.sourceId) (body : replay.rawBody = call.rawBody) :
    replay.AllKnown b maxBodyBytes store := by
  obtain ⟨executed, within⟩ := settled
  cases executed with
  | @intro webhook document items deliveryId writes progress parsed loaded stored counted turns =>
    intro webhook' document' items' parsed' loaded'
    rw [body, parsed, Outcome.valid.injEq] at parsed'
    subst parsed'
    rw [body, loaded, Option.some.injEq, Prod.mk.injEq] at loaded'
    obtain ⟨-, rfl⟩ := loaded'
    rw [source, body]
    exact known_of_engine (turns.known (within_start within) (within_loop within))

/-! ## Its run alone -/

section

variable {pick : List Write → Uuid}

theorem alone_orRaise {α β : Type} (a : α) (f : α → Tx β) (own : List Write) :
    sql.alone pick store (orRaise (some a) >>= f) own = sql.alone pick store (f a) own := rfl

/-- A delivery that can be stored is inserted under an unused identifier. -/
theorem alone_createDelivery {v : DeliveryValues} (stored : storable v.rawPayload = true)
    (counted : v.truncatedAlerts < 2147483648) (new : ∀ r ∈ store.deliveries, r.id ≠ pick []) :
    sql.alone pick store (createDelivery v) [] = some (pick [], [.insertDelivery (v.row (pick []))]) := by
  have free : ¬ (store.deliveries.any fun r => r.id = pick []) = true := by simpa using new
  have inserted : sql.run (.insertDelivery (v.row (pick []))) (pick []) store [] =
      some ((), [.insertDelivery (v.row (pick []))]) := if_neg free
  rw [createDelivery, castJsonb, if_pos stored, int4, if_pos counted]
  show ((sql.run (.insertDelivery (v.row (pick []))) (pick []) store []).bind fun answer =>
    some (pick [], answer.2)) = _
  rw [inserted]
  rfl

/-- A turn whose key is taken goes on without a write. -/
theorem alone_ingestAlert (known : Known b call.sourceId (store.merge own).dedupKeys alert) :
    sql.alone pick store (ingestAlert b call deliveryId alert.1 alert.2 progress) own =
      some (progress, own) := by
  obtain ⟨⟨identity, identified⟩, r, hr, source, key⟩ := known
  have taken : ((store.merge own).dedupKeys.any fun r => r.sourceId = call.sourceId ∧
      r.dedupKey = alert.1.dedupKey) = true := by
    simp only [List.any_eq_true, decide_eq_true_eq]
    exact ⟨r, hr, source, key⟩
  have answered : sql.run (.insertDedupKey ⟨call.sourceId, alert.1.dedupKey, deliveryId⟩) (pick own)
    store own =
      some (false, own) := if_pos taken
  rw [ingestAlert, identified, alone_orRaise]
  simp only [claimDedupKey, Program.stmt_bind, Dialect.alone_call, answered]
  rfl

/-- Known alerts are passed over. -/
theorem alone_ingestAlerts (known : ∀ alert ∈ alerts,
      Known b call.sourceId (store.merge own).dedupKeys alert) :
    sql.alone pick store (ingestAlerts b call deliveryId alerts progress) own = some (progress, own) := by
  induction alerts with
  | nil => rfl
  | cons alert alerts ih =>
    obtain ⟨event, rawAlert⟩ := alert
    rw [ingestAlerts, Dialect.alone_bind, alone_ingestAlert (known _ List.mem_cons_self)]
    exact ih fun a ha => known a (List.mem_cons_of_mem _ ha)

/-- A body that was stored once is recorded again. -/
theorem alone_execute {webhook : GrafanaWebhook} {document : Json} {items : List Json}
    (parsed : parseGrafanaBody b call.rawBody maxBodyBytes = .valid webhook)
    (loaded : rawAlerts b call.rawBody webhook.alerts.length = some (document, items))
    (stored : storable document = true) (counted : webhook.truncatedAlerts.getD 0 < 2147483648)
    (new : ∀ r ∈ store.deliveries, r.id ≠ pick []) (known : call.AllKnown b maxBodyBytes store) :
    sql.alone pick store (execute b maxBodyBytes call)
    [] = some (Progress.result ⟨0, false, [], []⟩ call (pick []),
      [.insertDelivery ((deliveryValues b call webhook document).row (pick [])),
        .finishDelivery (pick []) .DUPLICATE call.receivedAt]) := by
  have inserted : sql.alone pick store (createDelivery (deliveryValues b call webhook document)) [] = _ :=
    alone_createDelivery stored counted new
  rw [execute, parsed]
  show sql.alone pick store (orRaise (rawAlerts b call.rawBody webhook.alerts.length) >>= _) [] = _
  rw [loaded, alone_orRaise]
  show sql.alone pick store (createDelivery (deliveryValues b call webhook document) >>= _) [] = _
  rw [Dialect.alone_bind, inserted]
  show sql.alone pick store (ingestAlerts b call _ _ _ >>= _) _ = _
  rw [Dialect.alone_bind, alone_ingestAlerts (known webhook document items parsed loaded)]
  rfl

end

/-- Once a call has committed, a call with its source and body that commits later adds a duplicate
delivery and nothing else, and run by itself it does commit. -/
theorem replay_idempotent (wf : start.skeleton.WellFormed)
    {s : Server Stmt Call IngestionResult Tables (List Write) Uuid}
    (h : (ingestion b maxBodyBytes publishing start).Reachable s) {i : Nat} {result : IngestionResult}
    {performed todo : List Uuid}
    (committed : s.sessions[i]? = some (call, Session.committed result own performed todo))
    (source : replay.sourceId = call.sourceId) (body : replay.rawBody = call.rawBody) :
    (∀ (j : Nat) pending returned t,
      s.sessions[j]? = some (replay, Session.running pending (.pure returned)) →
      (ingestion b maxBodyBytes publishing start).step s (.commit j) = some t →
        Replayed replay s.store returned t.store) ∧
    ∀ pick : List Write → Uuid, (∀ r ∈ s.store.deliveries, r.id ≠ pick []) → ∃ returned written,
      sql.alone pick s.store (execute b maxBodyBytes replay) [] = some (returned, written) ∧
        Replayed replay s.store returned (s.store.merge written) := by
  have sound := ingestion_sound wf h
  obtain ⟨-, settled, -⟩ := sound.committed i call result own performed todo committed
  have known := settled.known source body
  constructor
  · intro j pending returned t hj hstep
    have ended := sound.running j replay pending _ hj s.store .refl
    have hstep : Server.step sql (execute b maxBodyBytes) (handedEvents publishing) s (.commit j) =
        some t := hstep
    simp only [Server.step, hj, Option.some.injEq] at hstep
    subst hstep
    exact ended.replayed known
  · intro pick new
    obtain ⟨executed, -⟩ := settled
    cases executed with
    | @intro webhook document items deliveryId writes progress parsed loaded stored counted turns =>
      have run := alone_execute (body ▸ parsed) (body ▸ loaded) stored counted new known
      exact ⟨_, _, run, (Dialect.wp_alone sound.store (execute_spec sound.store) run).replayed known⟩

/-- One call, and its body once more. -/
def replayedRun : List (Label Call Uuid) :=
  .start (sampleCall 1 [sampleAlert "firing" "a" sampleLabels]) :: answers 0 100 18 ++ [.commit 0]

/-- The call has committed. -/
def hasCommitted {S : Type → Type} {γ ρ ω ε : Type} : Option (γ × Session S ρ ω ε) → Bool
  | some (_, .committed ..) => true
  | _ => false

/-- A call is committed and its body ingested once more, which adds one delivery marked as a
duplicate. -/
theorem replayed_again : ∃ s call result own performed todo returned written,
    (ingestion sampleBackend 1048576 true .empty).exec ⟨.empty, []⟩ replayedRun = some s ∧
    s.sessions[0]? = some (call, Session.committed result own performed todo) ∧
    sql.alone (fun _ => 200) s.store (execute sampleBackend 1048576 { call with receivedAt := 7 })
    [] = some (returned, written) ∧
    Replayed { call with receivedAt := 7 } s.store returned (s.store.merge written) := by
  have ends : (((ingestion sampleBackend 1048576 true .empty).exec ⟨.empty, []⟩ replayedRun).map fun s =>
      (s.store.deliveries.map (·.id), hasCommitted s.sessions[0]?)) =
      some ([100], true) := by decide +kernel
  obtain ⟨s, hs, counts⟩ := Option.map_eq_some_iff.1 ends
  obtain ⟨ids, state⟩ := Prod.mk.inj counts
  unfold hasCommitted at state
  split at state
  · next call result own performed todo committed =>
    have new : ∀ r ∈ s.store.deliveries, r.id ≠ 200 := by
      intro r hr
      have here : r.id ∈ [(100 : Uuid)] := ids ▸ List.mem_map_of_mem hr
      rw [List.mem_singleton.1 here]
      decide
    obtain ⟨returned, written, run, replayed⟩ := (replay_idempotent
      (show Tables.empty.skeleton.WellFormed from Skeleton.wellFormed_empty)
        ⟨_, ⟨rfl, rfl⟩, System.run_of_exec hs⟩ committed
      (show ({ call with receivedAt := 7 } : Call).sourceId = call.sourceId from rfl) rfl).2
        (fun _ => 200) new
    exact ⟨s, call, result, own, performed, todo, returned, written, hs, committed, run, replayed⟩
  · cases state

end SreAgent.Ingestion
