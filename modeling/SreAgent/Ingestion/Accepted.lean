import SreAgent.Ingestion.Instances
import SreAgent.Ingestion.Returns

/-!
# Accepted bodies

A call whose body is accepted, alone on the tables and with unused identifiers, comes to its end
exactly if the document can be stored and every alert that is not a duplicate can be written. Then
each of its alerts has an event or is a duplicate, and event and instance hold the labels it came with.
-/

namespace SreAgent.Ingestion
open Base Transaction Alerts Outbox Lifecycle Pubsub

/-! ## What a call leaves -/

/-- The event of an alert of a call. -/
def Call.event (b : Backend) (call : Call) (alert : GrafanaAlert) : CanonicalAlertEvent :=
  normalizeAlert b.toHashing call.sourceId (b.hexdigest call.rawBody) call.engine alert

/-- The key of the alert is that of a row, or of an alert before it. -/
def Call.Duplicate (b : Backend) (call : Call) (store : Tables) (before : List GrafanaAlert)
    (alert : GrafanaAlert) : Prop :=
  Taken store.dedupKeys call.sourceId (call.event b alert).dedupKey ∨
    ∃ x ∈ before, (call.event b x).dedupKey = (call.event b alert).dedupKey

/-- The row of an alert. -/
structure Call.Stored (b : Backend) (call : Call) (deliveryId : Uuid) (alert : GrafanaAlert)
    (e : AlertEvent) : Prop where
  deliveryId : e.deliveryId = deliveryId
  key : e.key = (call.sourceId, (call.event b alert).fingerprint)
  alertState : e.alertState = alert.status
  startsAt : e.startsAt = alert.startsAt
  endsAt : e.endsAt = alert.endsAt
  labels : e.labels.Perm alert.labels

/-- The last of some events with a key. -/
def IsLast (events : List AlertEvent) (key : Uuid × String) (e : AlertEvent) : Prop :=
  e.key = key ∧ ∃ before after, events = before ++ e :: after ∧ ∀ x ∈ after, x.key ≠ key

/-- Every alert has its event or is a duplicate, and the instances tell the last events. -/
structure Ingested (b : Backend) (call : Call) (webhook : GrafanaWebhook) (store : Tables)
    (result : IngestionResult) (own : List Write) : Prop where
  alerts : ∀ before alert after, webhook.alerts = before ++ alert :: after →
    call.Duplicate b store before alert ∨ ∃ e ∈ (added own).events, call.Stored b result.deliveryId alert e
  events : ∀ e ∈ (added own).events, ∃ alert ∈ webhook.alerts, call.Stored b result.deliveryId alert e
  instances : ∀ e ∈ (added own).events, ∃ row ∈ (store.merge own).instances, row.key = e.key ∧
    ∃ last, IsLast (added own).events e.key last ∧ row.latestEventId = last.id ∧ row.labels = last.labels

/-- An upsert leaves the rows of other keys alone. -/
theorem mem_upsert_of_ne {row r : AlertInstance} {rows : List AlertInstance} (h : r ∈ rows)
    (other : r.key ≠ row.key) :
    r ∈ upsert row rows := by
  by_cases known : ∃ r ∈ rows, r.key = row.key
  · rw [upsert_eq_update known, Table.updateWhere]
    exact List.mem_map.2 ⟨r, h, if_neg other⟩
  · rw [upsert_eq_append fun r hr same => known ⟨r, hr, same⟩]
    exact List.mem_append_left _ h

/-- After an upsert there is a row that tells what was upserted. -/
theorem upsert_tells {row : AlertInstance} {rows : List AlertInstance} :
    ∃ r ∈ upsert row rows, r.key = row.key ∧ r.latestEventId = row.latestEventId ∧ r.labels = row.labels := by
  by_cases known : ∃ r ∈ rows, r.key = row.key
  · obtain ⟨r, hr, same⟩ := known
    rw [upsert_eq_update ⟨r, hr, same⟩, Table.updateWhere]
    exact ⟨row.update r, List.mem_map.2 ⟨r, hr, if_pos same⟩, same, rfl, rfl⟩
  · rw [upsert_eq_append fun r hr same => known ⟨r, hr, same⟩]
    exact ⟨row, List.mem_append_right _ (List.mem_singleton_self row), rfl, rfl, rfl⟩

section

variable {b : Backend} {call : Call} {deliveryId : Uuid} {progress : Progress}
  {alert : CanonicalAlertEvent × Json} {alerts : List (CanonicalAlertEvent × Json)} {writes : List Write}
  {after : Progress}
  {v : Skeleton} {t : Tables}

/-- The turn of an alert adds at most its own event, and adds it unless its deduplication key is
taken. -/
theorem Turn.row (h : Turn b call deliveryId v alert writes progress after) :
    (∀ e ∈ (added writes).events, alert.1.StoredAs deliveryId e) ∧
      (Taken v.dedupKeys call.sourceId alert.1.dedupKey ∨ ∃ e, e ∈ (added writes).events) := by
  cases h with
  | duplicate _ taken => exact ⟨fun _ h => absurd h List.not_mem_nil, .inl taken⟩
  | @claimed event rawAlert _ identity labels eventId writes _ _ _ serialised filed =>
    have events :
      (added (claimWrites call deliveryId event rawAlert identity labels eventId ++ writes)).events =
        [claimedRow call deliveryId event rawAlert identity labels eventId] := by
      rw [added_append, Skeleton.append_events, (filed.observed .empty).1]
      rfl
    rw [events]
    refine ⟨fun e he => ?_, .inr ⟨_, List.mem_singleton_self _⟩⟩
    rw [List.mem_singleton.1 he]
    exact ⟨rfl, rfl, rfl, rfl, rfl, rfl, serialised, rfl, rfl⟩

/-- The events of the turns are those of the alerts. -/
theorem Turns.rows (h : Turns b call deliveryId v alerts writes progress after) :
    ∀ e ∈ (added writes).events, ∃ alert ∈ alerts, alert.1.StoredAs deliveryId e := by
  induction h with
  | nil => exact fun _ h => absurd h List.not_mem_nil
  | cons turn _ ih =>
    intro e he
    rw [added_append] at he
    rcases List.mem_append.1 he with he | he
    · exact ⟨_, List.mem_cons_self, turn.row.1 e he⟩
    · obtain ⟨alert, halert, row⟩ := ih e he
      exact ⟨alert, List.mem_cons_of_mem _ halert, row⟩

/-- Every event that is not a duplicate has its row. -/
theorem Turns.complete (h : Turns b call deliveryId v alerts writes progress after) :
    ∀ before event rest, alerts.map (·.1) = before ++ event :: rest →
      Taken v.dedupKeys call.sourceId event.dedupKey ∨ (∃ x ∈ before, x.dedupKey = event.dedupKey) ∨
        ∃ e ∈ (added writes).events, event.StoredAs deliveryId e := by
  induction h with
  | nil =>
    intro before event rest split
    exact absurd split.symm (by simp)
  | @cons v alert alerts writes more _ _ _ turn _ ih =>
    intro before event rest split
    rw [added_append, Skeleton.append_events]
    cases before with
    | nil =>
      simp only [List.map_cons, List.nil_append, List.cons.injEq] at split
      obtain ⟨rfl, -⟩ := split
      rcases turn.row.2 with taken | ⟨e, he⟩
      · exact .inl taken
      · exact .inr (.inr ⟨e, List.mem_append_left _ he, turn.row.1 e he⟩)
    | cons x before =>
      simp only [List.map_cons, List.cons_append, List.cons.injEq] at split
      obtain ⟨rfl, split⟩ := split
      rcases ih before event rest split with taken | ⟨x, hx, same⟩ | ⟨e, he, row⟩
      · obtain ⟨r, hr, source, key⟩ := taken
        rw [Skeleton.append_dedupKeys] at hr
        rcases List.mem_append.1 hr with hr | hr
        · exact .inl ⟨r, hr, source, key⟩
        · rcases turn.dedupKeys with ⟨none_, -⟩ | one
          · rw [none_] at hr
            cases hr
          · rw [one, List.mem_singleton] at hr
            exact .inr (.inl ⟨_, List.mem_cons_self, (congrArg IngestionDedupKey.dedupKey hr).symm.trans key⟩)
      · exact .inr (.inl ⟨x, List.mem_cons_of_mem _ hx, same⟩)
      · exact .inr (.inr ⟨e, List.mem_append_right _ he, row⟩)

/-- A row whose key no event of the turns has stays. -/
theorem Turns.keeps (h : Turns b call deliveryId v alerts writes progress after) {row : AlertInstance}
    (hrow : row ∈ t.instances) (other : ∀ e ∈ (added writes).events, e.key ≠ row.key) :
    row ∈ (t.merge writes).instances := by
  induction h generalizing t with
  | nil => exact hrow
  | @cons v alert alerts writes more _ _ _ turn _ ih =>
    rw [added_append, Skeleton.append_events] at other
    rw [Tables.merge_append]
    refine ih ?_ fun e he => other e (List.mem_append_right _ he)
    rcases turn.observed t with ⟨-, same⟩ | ⟨e, r, describes, one, upserted⟩
    · exact same ▸ hrow
    · have apart : row.key ≠ r.key := by
        rw [describes.key]
        exact Ne.symm (other e (List.mem_append_left _ (one ▸ List.mem_singleton_self e)))
      rw [upserted]
      exact mem_upsert_of_ne hrow apart

/-- The instance of an event tells the last event of its key. -/
theorem Turns.tells (h : Turns b call deliveryId v alerts writes progress after) :
    ∀ e ∈ (added writes).events, ∃ row ∈ (t.merge writes).instances, row.key = e.key ∧
      ∃ last, IsLast (added writes).events e.key last ∧ row.latestEventId = last.id ∧
        row.labels = last.labels := by
  induction h generalizing t with
  | nil => exact fun _ h => absurd h List.not_mem_nil
  | @cons v alert alerts writes more _ _ _ turn rest ih =>
    intro e he
    rw [added_append, Skeleton.append_events] at he ⊢
    rw [Tables.merge_append]
    by_cases later : ∃ x ∈ (added more).events, x.key = e.key
    · obtain ⟨x, hx, same⟩ := later
      obtain ⟨row, hrow, key, last, ⟨lastKey, before, after, split, none_⟩, told⟩ := ih x hx
      rw [same] at key lastKey none_
      refine ⟨row, hrow, key, last, ⟨lastKey, (added writes).events ++ before, after, ?_, none_⟩, told⟩
      rw [split, List.append_assoc]
    · have only : ∀ x ∈ (added more).events, x.key ≠ e.key := fun x hx same => later ⟨x, hx, same⟩
      have he : e ∈ (added writes).events := (List.mem_append.1 he).resolve_right fun he => only e he rfl
      rcases turn.observed t with ⟨none_, -⟩ | ⟨x, r, describes, one, upserted⟩
      · rw [none_] at he
        cases he
      · obtain rfl : e = x := List.mem_singleton.1 (one ▸ he)
        have told : ∃ row ∈ upsert r t.instances, row.key = r.key ∧ row.latestEventId = r.latestEventId ∧
            row.labels = r.labels :=
          upsert_tells
        obtain ⟨row, hrow, key, latest, labels⟩ := told
        have hkey : row.key = e.key := key.trans describes.key
        refine ⟨row, rest.keeps (upserted ▸ hrow) (hkey ▸ only), hkey, e,
          ⟨rfl, [], (added more).events, ?_, only⟩,
          latest.trans describes.latestEventId, labels.trans describes.labels⟩
        rw [one]
        rfl

end

/-! ## Accepted bodies -/

section

variable {b : Backend} {maxBodyBytes : Nat} {call : Call} {webhook : GrafanaWebhook} {document : Json}
  {store : Tables}
  {pick : List Write → Uuid} {n : Nat}

/-- A count is written exactly if it fits the column. -/
theorem returns_int4 {β : Type} {own : List Write} {count : Int} {f : Int → Tx β} :
    sql.Returns pick store (int4 count >>= f) own ↔
      count < 2147483648 ∧ sql.Returns pick store (f count) own := by
  unfold int4
  split
  · next small => exact (and_iff_right small).symm
  · next large => exact iff_of_false (Dialect.not_returns_raise _ _ _ _) fun h => large h.1

/-- A call whose document is read twice alike comes to its end exactly if the document, its count of
truncated alerts and its new events can be written. -/
theorem returns_execute {items : List Json}
    (parsed : parseGrafanaBody b call.rawBody maxBodyBytes = .valid webhook)
    (loaded : rawAlerts b call.rawBody webhook.alerts.length = some (document, items))
    (each : storable document = true → ∀ alert ∈ (webhook.alerts.map (call.event b)).zip items,
      (∃ identity, makeIncidentIdentityV2 b.toHashing call.sourceId alert.1.folderCode alert.1.alertName
        alert.1.fingerprint =
        some identity) ∧ alert.1.Clean ∧ storable alert.2 = true)
    (same : webhook.alerts.length = items.length) (wf : store.skeleton.WellFormed)
    (unused : Unused store (10 * webhook.alerts.length + 1) pick) :
    sql.Returns pick store (execute b maxBodyBytes call) [] ↔
      storable document = true ∧ webhook.truncatedAlerts.getD 0 < 2147483648 ∧
        WritableEvents store.dedupKeys call.sourceId (webhook.alerts.map (call.event b)) := by
  have newDelivery : ∀ r ∈ store.deliveries, ¬ r.id = pick [] := by
    intro r hr taken
    refine unused [] (Nat.zero_le _) Key.delivery (by simp) ?_
    rw [seen, added_nil, Skeleton.append_empty]
    exact Skeleton.delivery_mem_keys.2 (List.mem_map.2 ⟨r, hr, taken⟩)
  let row := (deliveryValues b call webhook document).row (pick [])
  have inserted : (Stmt.insertDelivery row).exec (store.merge []) [] (pick []) =
      some ((), [.insertDelivery row]) :=
    if_neg (not_any newDelivery)
  rw [execute, parsed]
  show sql.Returns pick store (orRaise (rawAlerts b call.rawBody webhook.alerts.length) >>= _) [] ↔ _
  rw [loaded, returns_orRaise]
  simp only [createDelivery, Program.stmt_bind, Program.call_bind, Program.bind_assoc]
  rw [returns_stmt rfl, returns_castJsonb, returns_int4]
  refine and_congr_right fun stored => and_congr_right fun _ => ?_
  refine (returns_stmt inserted).trans ?_
  rw [Program.pure_bind, Dialect.returns_bind]
  have consistent : store.Consistent store.oldIncidents := consistent_start wf
  have fresh : (seen store [.insertDelivery row]).keys.Nodup := by
    rw [seen, added_cons, added_nil, Skeleton.append_empty]
    refine nodup_add wf.keys (by simp) fun k hk => ?_
    rw [insertDelivery_keys] at hk
    rw [List.mem_singleton.1 hk, Skeleton.delivery_mem_keys]
    rintro taken
    obtain ⟨r, hr, same⟩ := List.mem_map.1 taken
    exact newDelivery r hr same
  have alone : (added [.insertDelivery row]).Consistent store.oldIncidents :=
    ⟨⟨by simp, fun _ mem => (by cases mem), fun _ mem => (by cases mem), fun _ mem => (by cases mem),
      fun _ mem => (by cases mem)⟩,
      fun _ mem => (by cases mem)⟩
  have loop : sql.Returns pick store
    (ingestAlerts b call (pick []) ((webhook.alerts.map (call.event b)).zip items) ⟨0, false, [], []⟩)
      [.insertDelivery row] ↔ _ :=
        returns_ingestAlerts (each stored) consistent fresh alone unused (by simp [same]; omega)
  rw [List.map_fst_zip (by simp [same])] at loop
  refine Iff.trans ?_ loop
  exact exists_congr fun progress => exists_congr fun own' => and_iff_left
    ((returns_stmt rfl).2 (Dialect.returns_pure _ _ _ _ _))

/-- `json.loads` reads an accepted document alike, as an object with the alerts that were validated. -/
theorem rawAlerts_of_loads (loaded : JsonBytes.loads b.toInterpreter call.rawBody = .ok document.coded)
    (valid : GrafanaWebhook.validate b document = .valid webhook) :
    ∃ items, rawAlerts b call.rawBody webhook.alerts.length = some (document, items) ∧
      List.Forall₂ (fun item alert => GrafanaAlert.validate b item = .valid alert) items webhook.alerts := by
  obtain ⟨d, items, rfl, hitems, each⟩ := GrafanaWebhook.alerts_of_validate valid
  refine ⟨items, ?_, each⟩
  simp only [rawAlerts, loaded, Except.toOption, Option.bind_some, Json.text?_coded, hitems]
  exact if_pos each.length_eq

/-- A row that stores the normalized alert stores the alert. -/
theorem CanonicalAlertEvent.StoredAs.stored {deliveryId : Uuid} {alert : GrafanaAlert} {e : AlertEvent}
    (h : (call.event b alert).StoredAs deliveryId e) : call.Stored b deliveryId alert e :=
  ⟨h.deliveryId, Prod.ext h.sourceId h.fingerprint, h.alertState, h.startsAt, h.endsAt, written_perm h.labels⟩

theorem fst_alerts {items : List Json}
    (loaded : rawAlerts b call.rawBody webhook.alerts.length = some (document, items)) :
    ((normalizeAlerts b.toHashing call.sourceId call.rawBody webhook call.engine).zip items).map (·.1) =
      webhook.alerts.map (call.event b) :=
  List.map_fst_zip (by simp [normalizeAlerts, rawAlerts_length loaded])

theorem added_call_events {delivery : WebhookDelivery} {writes : List Write} {id : Uuid}
    {status : DeliveryStatus} {time : Timestamp} :
    (added (.insertDelivery delivery :: (writes ++ [.finishDelivery id status time]))).events =
      (added writes).events := by
  simp [Write.adds, Skeleton.empty]

/-- An alert of a call that came to its end has its row or is a duplicate. -/
theorem Executed.rows {result : IngestionResult} {own : List Write}
    (parsed : parseGrafanaBody b call.rawBody maxBodyBytes = .valid webhook)
    (h : Executed b maxBodyBytes call store.skeleton result own) {before after : List GrafanaAlert}
    {alert : GrafanaAlert} (split : webhook.alerts = before ++ alert :: after) :
    call.Duplicate b store before alert ∨ ∃ e ∈ (added own).events,
      (call.event b alert).StoredAs result.deliveryId e := by
  cases h with
  | @intro webhook' document items deliveryId writes progress parsed' loaded _ _ turns =>
    obtain rfl : webhook' = webhook := Outcome.valid.inj (parsed'.symm.trans parsed)
    rw [added_call_events]
    have found := turns.complete (before.map (call.event b)) (call.event b alert) (after.map (call.event b))
      (by rw [fst_alerts loaded, split, List.map_append, List.map_cons])
    rcases found with taken | ⟨x, hx, same⟩ | row
    · left
      left
      simpa [Write.adds, Skeleton.empty] using taken
    · obtain ⟨y, hy, rfl⟩ := List.mem_map.1 hx
      exact .inl (.inr ⟨y, hy, same⟩)
    · exact .inr row

/-- A call that came to its end has ingested its body. -/
theorem Executed.ingested {result : IngestionResult} {own : List Write}
    (parsed : parseGrafanaBody b call.rawBody maxBodyBytes = .valid webhook)
    (h : Executed b maxBodyBytes call store.skeleton result own) :
    Ingested b call webhook store result own := by
  have alerts : ∀ before alert after, webhook.alerts = before ++ alert :: after →
      call.Duplicate b store before alert ∨ ∃ e ∈ (added own).events,
        call.Stored b result.deliveryId alert e :=
    fun before alert after split => (h.rows parsed split).imp_right fun ⟨e, he, row⟩ => ⟨e, he, row.stored⟩
  cases h with
  | @intro webhook' document items deliveryId writes progress parsed' loaded _ _ turns =>
    obtain rfl : webhook' = webhook := Outcome.valid.inj (parsed'.symm.trans parsed)
    let delivery : Write := .insertDelivery ((deliveryValues b call webhook' document).row deliveryId)
    let finish : Write := .finishDelivery deliveryId progress.status call.receivedAt
    have instances : (store.merge (delivery :: (writes ++ [finish]))).instances =
        ((store.merge [delivery]).merge writes).instances := by
      have split : delivery :: (writes ++ [finish]) = [delivery] ++ writes ++ [finish] := by simp
      rw [split, Tables.merge_append, Tables.merge_append]
      rfl
    refine ⟨alerts, fun e he => ?_, ?_⟩
    · rw [added_call_events] at he
      obtain ⟨pair, hpair, row⟩ := turns.rows e he
      have here : pair.1 ∈ webhook'.alerts.map (call.event b) := fst_alerts loaded ▸ List.mem_map_of_mem hpair
      obtain ⟨alert, halert, same⟩ := List.mem_map.1 here
      exact ⟨alert, halert, (same ▸ row : (call.event b alert).StoredAs deliveryId e).stored⟩
    · rw [added_call_events, instances]
      exact turns.tells

/-- An accepted body and its document. -/
theorem read_of_parsed (parsed : parseGrafanaBody b call.rawBody maxBodyBytes = .valid webhook) :
    call.rawBody.length ≤ maxBodyBytes ∧ ∃ document, b.readJson call.rawBody = some document ∧
      GrafanaWebhook.validate b document = .valid webhook := by
  unfold parseGrafanaBody at parsed
  split at parsed
  · cases parsed
  · next short =>
    split at parsed
    · cases parsed
    · next document read => exact ⟨Nat.le_of_not_lt short, document, read, parsed⟩

/-- The new events of a call can be written exactly if its new alerts can be serialised. -/
theorem writableEvents_iff (stored : storable document = true)
    (within : ∀ alert ∈ webhook.alerts, alert.Within document) :
    WritableEvents store.dedupKeys call.sourceId (webhook.alerts.map (call.event b)) ↔
      ∀ before alert after, webhook.alerts = before ++ alert :: after →
        ¬ call.Duplicate b store before alert →
        alert.Serialisable call.engine := by
  have here : ∀ before alert after, webhook.alerts = before ++ alert :: after → alert ∈ webhook.alerts :=
    fun _ _ _ split => split ▸ List.mem_append_right _ List.mem_cons_self
  constructor
  · intro writable before alert after split new
    rw [Call.Duplicate, not_or] at new
    refine (normalizeAlert_writable stored (within alert (here _ _ _ split))).1
      (writable (before.map (call.event b)) (call.event b alert)
      (after.map (call.event b)) ?_ new.1 ?_)
    · rw [split, List.map_append, List.map_cons]
    · intro x hx same
      obtain ⟨y, hy, rfl⟩ := List.mem_map.1 hx
      exact new.2 ⟨y, hy, same⟩
  · intro serialisable before event after split free first
    obtain ⟨before, rest, whole, rfl, hrest⟩ := List.map_eq_append_iff.1 split
    obtain ⟨alert, after, rfl, rfl, rfl⟩ := List.map_eq_cons_iff.1 hrest
    refine (normalizeAlert_writable stored (within alert (here _ _ _ whole))).2
      (serialisable before alert after whole ?_)
    rintro (taken | ⟨x, hx, same⟩)
    · exact free taken
    · exact first _ (List.mem_map_of_mem hx) same

/-- An accepted body is ingested exactly if its document can be stored, its count of truncated alerts
fits the column, and every alert that is not a duplicate can be serialised. -/
theorem accepted_ingested_iff
    (reads : ∀ body document, b.readJson body = some document →
      JsonBytes.loads b.toInterpreter body = .ok document.coded) (limit : maxBodyBytes ≤ 1048576)
    (wf : store.skeleton.WellFormed) (unused : Unused store (10 * webhook.alerts.length + 1) pick)
    (parsed : parseGrafanaBody b call.rawBody maxBodyBytes = .valid webhook)
    (read : b.readJson call.rawBody = some document) :
    (∃ result own, sql.alone pick store (execute b maxBodyBytes call) [] = some (result, own) ∧
        Ingested b call webhook store result own) ↔
      storable document = true ∧ webhook.truncatedAlerts.getD 0 < 2147483648 ∧
        ∀ before alert after, webhook.alerts = before ++ alert :: after →
          ¬ call.Duplicate b store before alert →
          alert.Serialisable call.engine := by
  obtain ⟨short, document', read', valid⟩ := read_of_parsed parsed
  obtain rfl : document' = document := Option.some.inj (read'.symm.trans read)
  have loaded := reads _ _ read
  obtain ⟨items, raw, each⟩ := rawAlerts_of_loads loaded valid
  have item : ∀ v ∈ items, document'.Part v := by
    obtain ⟨d, items', rfl, hitems, each'⟩ := GrafanaWebhook.alerts_of_validate valid
    simp only [rawAlerts, loaded, Except.toOption, Option.bind_some, Json.text?_coded, hitems,
      each'.length_eq, if_true] at raw
    cases raw
    exact fun v hv => (part_of_get? hitems).trans (.item hv .refl)
  have within : ∀ alert ∈ webhook.alerts, alert.Within document' := by
    intro alert halert
    obtain ⟨i, hi, rfl⟩ := List.getElem_of_mem halert
    have hi' : i < items.length := each.length_eq ▸ hi
    exact (GrafanaAlert.within_of_validate (List.forall₂_iff_get.1 each |>.2 i hi' hi)).trans
      (item _ (List.getElem_mem hi'))
  have texts := Json.texts_of_coded (JsonBytes.texts_of_loads loaded)
  have writable := returns_execute parsed raw (fun stored alert halert => by
    obtain ⟨hevent, hitem⟩ := List.of_mem_zip halert
    obtain ⟨a, ha, same⟩ := List.mem_map.1 hevent
    rw [← same]
    exact ⟨normalizeAlert_identity texts (by omega) (within a ha), normalizeAlert_clean stored (within a ha),
      storable_part stored (item _ hitem)⟩) each.length_eq.symm wf unused
  have ingested : (∃ result own, sql.alone pick store (execute b maxBodyBytes call) [] = some (result, own) ∧
      Ingested b call webhook store result own) ↔
        sql.Returns pick store (execute b maxBodyBytes call) [] := by
    have inv : store.Consistent store.oldIncidents := consistent_start wf
    refine exists_congr fun result => exists_congr fun own => and_iff_left_of_imp fun run => ?_
    exact (Dialect.wp_alone inv (execute_spec inv) run).executed.ingested parsed
  rw [ingested, writable]
  exact and_congr_right fun stored => and_congr_right fun _ => writableEvents_iff stored within

end

/-! ## A body that is ingested -/

/-- A write adds two keys at most. -/
theorem added_keys_length (own : List Write) : (added own).keys.length ≤ 2 * own.length := by
  induction own with
  | nil => exact Nat.zero_le _
  | cons write rest ih =>
    have here : write.adds.keys.length ≤ 2 := by
      cases write with
      | insertIncident row =>
        rw [insertIncident_keys, IncidentRef.keys]
        split <;> simp
      | _ => simp [Write.adds, Skeleton.keys, Skeleton.empty]
    rw [added_cons, (Skeleton.keys_append_perm _ _).length_eq, List.length_append, List.length_cons]
    omega

/-- An identifier that is none of a few. -/
theorem exists_not_mem {ids : List Uuid} (few : ids.length < 2 ^ 128) : ∃ id, id ∉ ids := by
  by_contra all
  have every : ∀ id, id ∈ ids := fun id => by_contra fun h => all ⟨id, h⟩
  have sub : List.range (ids.length + 1) ⊆ ids.map BitVec.toNat := by
    intro k hk
    refine List.mem_map.2 ⟨BitVec.ofNat 128 k, every _, ?_⟩
    rw [BitVec.toNat_ofNat, Nat.mod_eq_of_lt]
    have := List.mem_range.1 hk
    omega
  have short := (List.subperm_of_subset List.nodup_range sub).length_le
  rw [List.length_range, List.length_map] at short
  omega

/-- The identifier in a key. -/
def Key.id? : Key → Option Uuid
  | .delivery id | .event id | .incident id | .run id | .job id | .outboxEvent id => some id
  | _ => none

/-- Tables that are not full leave identifiers unused. -/
theorem exists_unused {store : Tables} {n : Nat} (few : store.skeleton.keys.length + 2 * n < 2 ^ 128) :
    ∃ pick, Unused store n pick := by
  have each : ∀ own : List Write, ∃ id : Uuid, own.length ≤ n →
      ∀ kind ∈ [Key.delivery, Key.event, Key.incident, Key.run, Key.job, Key.outboxEvent],
        kind id ∉ (seen store own).keys := by
    intro own
    by_cases short : own.length ≤ n
    · have ids : ((seen store own).keys.filterMap Key.id?).length < 2 ^ 128 := by
        have all : (seen store own).keys.length = store.skeleton.keys.length + (added own).keys.length := by
          rw [seen, (Skeleton.keys_append_perm _ _).length_eq, List.length_append]
        have more := added_keys_length own
        have fewer := List.length_filterMap_le Key.id? (seen store own).keys
        omega
      obtain ⟨id, hid⟩ := exists_not_mem ids
      refine ⟨id, fun _ kind hkind taken => hid (List.mem_filterMap.2 ⟨_, taken, ?_⟩)⟩
      simp only [List.mem_cons, List.not_mem_nil, or_false] at hkind
      rcases hkind with rfl | rfl | rfl | rfl | rfl | rfl <;> rfl
    · exact ⟨0, fun h => absurd h short⟩
  choose pick unused using each
  exact ⟨pick, unused⟩

/-- A backend whose validation library reads JSON as `json.loads` does. -/
def alikeBackend : Backend :=
  { sampleBackend with
    readJson := fun bs => (JsonBytes.loads sampleBackend.toInterpreter bs).toOption.bind Json.text? }

/-- How many alerts of an accepted body were left out, and of each alert its fingerprint, and whether
its labels are free of objects. -/
def acceptedAlerts : Outcome PyError GrafanaWebhook → Option (Option Int × List (String × Bool))
  | .valid webhook => some (webhook.truncatedAlerts, webhook.alerts.map fun alert =>
      (alert.fingerprint, alert.labels.all fun item => objectFree item.2))
  | _ => none

/-- A call with three alerts: one with an array in a label, and two that are alike. -/
def mixedCall : Call :=
  sampleCall 1 [sampleAlert "firing" "a" (sampleLabels ++ [("zones", .arr [.str "x", .int 1])]),
    sampleAlert "firing" "b" sampleLabels, sampleAlert "firing" "b" sampleLabels]

/-- `json.loads` reads what the validation library reads, and as the same document. -/
theorem reads_alike (body : List UInt8) (document : Json) (h : alikeBackend.readJson body = some document) :
    JsonBytes.loads alikeBackend.toInterpreter body = .ok document.coded := by
  have h : (JsonBytes.loads sampleBackend.toInterpreter body).toOption.bind Json.text? = some document := h
  show JsonBytes.loads sampleBackend.toInterpreter body = .ok document.coded
  obtain ⟨v, hv, text⟩ := Option.bind_eq_some_iff.1 h
  rw [← Json.text?_eq_some.1 text]
  cases hloads : JsonBytes.loads sampleBackend.toInterpreter body with
  | error e =>
    rw [hloads] at hv
    cases hv
  | ok w =>
    rw [hloads] at hv
    exact congrArg Except.ok (Option.some.inj hv)

/-- Without rules an alert can be serialised if no label of it holds an object. -/
theorem serialisable_without_rules {alert : GrafanaAlert}
    (free : (alert.labels.all fun item => objectFree item.2) = true) :
    alert.Serialisable ⟨[]⟩ := by
  refine ⟨fun item hitem => List.all_eq_true.1 free item hitem, fun r hr => ?_⟩
  unfold SafeRuleEngine.normalize at hr
  split at hr <;> cases hr

/-- The call comes to its end: the first two alerts have their events, and the third one is a
duplicate of the second. -/
theorem accepted_ingested : ∃ pick webhook result own,
    parseGrafanaBody alikeBackend mixedCall.rawBody 1048576 = .valid webhook ∧
    webhook.alerts.map GrafanaAlert.fingerprint = ["a", "b", "b"] ∧
    sql.alone pick .empty (execute alikeBackend 1048576 mixedCall) [] = some (result, own) ∧
    Ingested alikeBackend mixedCall webhook .empty result own := by
  have parsed : acceptedAlerts (parseGrafanaBody alikeBackend mixedCall.rawBody 1048576) =
      some (none, [("a", true), ("b", true), ("b", true)]) := by decide +kernel
  have stored : ((alikeBackend.readJson mixedCall.rawBody).map storable) = some true := by decide +kernel
  unfold acceptedAlerts at parsed
  split at parsed
  · next webhook hwebhook =>
    obtain ⟨document, read, storable⟩ := Option.map_eq_some_iff.1 stored
    simp only [Option.some.injEq, Prod.mk.injEq] at parsed
    obtain ⟨truncated, alerts⟩ := parsed
    have fingerprints : webhook.alerts.map GrafanaAlert.fingerprint = ["a", "b", "b"] := by
      simpa [Function.comp_def] using congrArg (List.map Prod.fst) alerts
    have length : webhook.alerts.length = 3 := by simpa using congrArg List.length fingerprints
    have free : ∀ alert ∈ webhook.alerts, (alert.labels.all fun item => objectFree item.2) = true := by
      intro alert halert
      have mem :=
        List.mem_map_of_mem (f := fun alert : GrafanaAlert =>
          (alert.fingerprint, alert.labels.all fun item => objectFree item.2))
        halert
      rw [alerts] at mem
      simp only [List.mem_cons, List.not_mem_nil, or_false, Prod.mk.injEq] at mem
      rcases mem with ⟨-, h⟩ | ⟨-, h⟩ | ⟨-, h⟩ <;> exact h
    have few : Tables.empty.skeleton.keys.length + 2 * 31 < 2 ^ 128 := by decide
    obtain ⟨pick, unused⟩ := exists_unused few
    have unused : Unused .empty (10 * webhook.alerts.length + 1) pick := by
      rw [length]
      exact unused
    obtain ⟨result, own, run, ingested⟩ := (accepted_ingested_iff reads_alike (le_refl _)
      (show Tables.empty.skeleton.WellFormed from Skeleton.wellFormed_empty) unused hwebhook read).2
      ⟨storable, by rw [truncated]; decide, fun before alert after split _ =>
        serialisable_without_rules (free alert (by rw [split]; simp))⟩
    exact ⟨pick, webhook, result, own, hwebhook, fingerprints, run, ingested⟩
  · cases parsed

/-! ## A body that is not -/

/-- An alert with an object in a label. -/
def nestedLabels : JsonObject := sampleLabels ++ [("meta", .obj [("k", .str "v")])]

/-- The body is accepted, and no call with it comes to its end. -/
theorem nested_labels_raise :
    (∃ webhook, parseGrafanaBody sampleBackend
      (sampleCall 1 [sampleAlert "firing" "a" nestedLabels]).rawBody 1048576 =
      .valid webhook) ∧
    ∀ pick,
      sql.alone pick .empty (execute sampleBackend 1048576
      (sampleCall 1 [sampleAlert "firing" "a" nestedLabels])) [] = none := by
  have parsed :
    (acceptedAlerts
      (parseGrafanaBody sampleBackend (sampleCall 1 [sampleAlert "firing" "a" nestedLabels]).rawBody
        1048576)).map
      Prod.snd = some [("a", false)] := by decide +kernel
  unfold acceptedAlerts at parsed
  split at parsed
  · next webhook hwebhook =>
    obtain ⟨alert, rest, split, nested, none_⟩ := List.map_eq_cons_iff.1 (Option.some.inj parsed)
    obtain rfl := List.map_eq_nil_iff.1 none_
    refine ⟨⟨webhook, hwebhook⟩, fun pick => Option.eq_none_iff_forall_ne_some.2 ?_⟩
    rintro ⟨result, own⟩ run
    have inv : Tables.empty.Consistent [] := Skeleton.consistent_empty
    have before : webhook.alerts = [] ++ alert :: [] := split
    rcases (Dialect.wp_alone inv (execute_spec inv) run).executed.rows hwebhook before with taken |
      ⟨e, -, row⟩
    · rcases taken with ⟨r, hr, -⟩ | ⟨x, hx, -⟩
      · cases hr
      · cases hx
    · have free := dumps_labels.1 ⟨e.labels, row.labels⟩
      exact absurd ((Prod.mk.inj nested).2.symm.trans (List.all_eq_true.2 free)) (by decide)
  · cases parsed

end SreAgent.Ingestion
