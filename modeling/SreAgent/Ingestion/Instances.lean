import SreAgent.Ingestion.Outboxed

/-!
# Alert instances and the events they sum up

The row of an alert instance is a running summary of the events of its source and fingerprint:
every transaction that stores an event overwrites it. It tells the latest event only where events
are stored in the order of their times; `received_at` is fixed before the transaction starts, so
nothing in the code sees to that.
-/

namespace SreAgent.Ingestion
open Base Transaction Alerts Outbox Lifecycle Pubsub

/-! ## Summaries -/

/-- `(source_id, fingerprint)`. -/
def AlertEvent.key (e : AlertEvent) : Uuid × String := (e.sourceId, e.fingerprint)

/-- The event of the greatest time, the last one processed among those. -/
def IsLatest (events : List AlertEvent) (e : AlertEvent) : Prop :=
  ∃ before after, events = before ++ e :: after ∧ (∀ x ∈ before, x.observedAt ≤ e.observedAt) ∧
    ∀ x ∈ after, x.observedAt < e.observedAt

/-- No event is later than the latest one. -/
theorem IsLatest.le {events : List AlertEvent} {e : AlertEvent} (h : IsLatest events e) :
    ∀ x ∈ events, x.observedAt ≤ e.observedAt := by
  obtain ⟨before, after, rfl, earlier, later⟩ := h
  intro x hx
  rcases List.mem_append.1 hx with hx | hx
  · exact earlier x hx
  · rcases List.mem_cons.1 hx with rfl | hx
    · exact le_refl _
    · exact le_of_lt (later x hx)

/-- An event that is appended last and not before the others is the latest. -/
theorem isLatest_append {events : List AlertEvent} {e : AlertEvent}
    (h : ∀ x ∈ events, x.observedAt ≤ e.observedAt) :
    IsLatest (events ++ [e]) e := ⟨events, [], rfl, h, fun _ hx => absurd hx List.not_mem_nil⟩

/-- What a row tells of the events of its key. -/
structure AlertInstance.SumsUp (row : AlertInstance) (events : List AlertEvent) : Prop where
  latest : ∃ e, IsLatest events e ∧ row.latestEventId = e.id ∧ row.state = e.alertState ∧
    row.labels = e.labels ∧
    row.lastSeenAt = e.observedAt
  first : (∃ e ∈ events, row.firstSeenAt = e.observedAt) ∧ ∀ e ∈ events, row.firstSeenAt ≤ e.observedAt
  version : row.version = events.length

/-- Every key that has events has one row, and it sums them up. -/
structure InstancesHold (events : List AlertEvent) (instances : List AlertInstance) : Prop where
  keyed : Table.Keyed AlertInstance.key instances
  rows : ∀ row ∈ instances, row.SumsUp (events.filter fun e => e.key = row.key)
  all : ∀ e ∈ events, ∃ row ∈ instances, row.key = e.key

/-- The row that is upserted for an event. -/
structure Describes (receivedAt : Timestamp) (e : AlertEvent) (row : AlertInstance) : Prop where
  observedAt : e.observedAt = receivedAt
  key : row.key = e.key
  latestEventId : row.latestEventId = e.id
  state : row.state = e.alertState
  labels : row.labels = e.labels
  firstSeenAt : row.firstSeenAt = receivedAt
  lastSeenAt : row.lastSeenAt = receivedAt
  version : row.version = 1

theorem AlertInstance.update_key (row r : AlertInstance) : (row.update r).key = r.key := rfl

/-- A row of a new key is inserted. -/
theorem upsert_eq_append {row : AlertInstance} {rows : List AlertInstance}
    (new : ∀ r ∈ rows, r.key ≠ row.key) :
    upsert row rows = rows ++ [row] := by
  rw [upsert, if_neg]
  simpa using new

/-- A row of a known key updates the row it has. -/
theorem upsert_eq_update {row : AlertInstance} {rows : List AlertInstance}
    (known : ∃ r ∈ rows, r.key = row.key) :
    upsert row rows = Table.updateWhere (fun r => r.key = row.key) row.update rows := by
  rw [upsert, if_pos]
  simpa using known

/-- An upsert keeps the keys apart. -/
theorem upsert_keyed {row : AlertInstance} {rows : List AlertInstance}
    (keyed : Table.Keyed AlertInstance.key rows) :
    Table.Keyed AlertInstance.key (upsert row rows) := by
  by_cases known : ∃ r ∈ rows, r.key = row.key
  · rw [upsert_eq_update known]
    exact keyed.updateWhere row.update_key
  · have new : ∀ r ∈ rows, r.key ≠ row.key := fun r hr same => known ⟨r, hr, same⟩
    rw [upsert_eq_append new]
    exact keyed.insertUnique (Table.insertUnique_eq_some.2 ⟨new, rfl⟩)

/-- A row after an upsert: another key's as it was, the key's updated or new. -/
theorem mem_upsert {row r : AlertInstance} {rows : List AlertInstance} (h : r ∈ upsert row rows) :
    r ∈ rows ∧ r.key ≠ row.key ∨ (∃ r' ∈ rows, r'.key = row.key ∧ r = row.update r') ∨
      r = row ∧ ∀ r' ∈ rows, r'.key ≠ row.key := by
  by_cases known : ∃ r ∈ rows, r.key = row.key
  · rw [upsert_eq_update known, Table.updateWhere] at h
    obtain ⟨r', hr', rfl⟩ := List.mem_map.1 h
    split
    · next same => exact .inr (.inl ⟨r', hr', same, rfl⟩)
    · next other => exact .inl ⟨hr', other⟩
  · have new : ∀ r ∈ rows, r.key ≠ row.key := fun r hr same => known ⟨r, hr, same⟩
    rw [upsert_eq_append new] at h
    rcases List.mem_append.1 h with h | h
    · exact .inl ⟨h, new r h⟩
    · exact .inr (.inr ⟨List.mem_singleton.1 h, new⟩)

/-- An upsert keeps every key, and adds its own. -/
theorem exists_upsert {row : AlertInstance} {rows : List AlertInstance} {key : Uuid × String}
    (h : key = row.key ∨ ∃ r ∈ rows, r.key = key) : ∃ r ∈ upsert row rows, r.key = key := by
  by_cases known : ∃ r ∈ rows, r.key = row.key
  · have old : ∃ r ∈ rows, r.key = key := by
      rcases h with rfl | h
      · exact known
      · exact h
    obtain ⟨r, hr, rfl⟩ := old
    rw [upsert_eq_update known, Table.updateWhere]
    refine ⟨_, List.mem_map_of_mem hr, ?_⟩
    split
    · exact row.update_key r
    · rfl
  · have new : ∀ r ∈ rows, r.key ≠ row.key := fun r hr same => known ⟨r, hr, same⟩
    rw [upsert_eq_append new]
    rcases h with rfl | ⟨r, hr, rfl⟩
    · exact ⟨row, List.mem_append_right _ (List.mem_singleton_self _), rfl⟩
    · exact ⟨r, List.mem_append_left _ hr, rfl⟩

/-- An event stored in the order of times is summed up. -/
theorem InstancesHold.observe {events : List AlertEvent} {instances : List AlertInstance}
    {receivedAt : Timestamp} {e : AlertEvent} {row : AlertInstance} (h : InstancesHold events instances)
    (describes : Describes receivedAt e row)
    (inOrder : ∀ x ∈ events, x.key = e.key → x.observedAt ≤ e.observedAt) :
    InstancesHold (events ++ [e]) (upsert row instances) := by
  have last : ∀ key, e.key = key →
      (events ++ [e]).filter (fun x => x.key = key) = events.filter (fun x => x.key = key) ++ [e] := by
    rintro key rfl
    simp
  have before : ∀ x ∈ events.filter (fun x => x.key = e.key), x.observedAt ≤ e.observedAt := fun x hx =>
    inOrder x (List.mem_filter.1 hx).1 (of_decide_eq_true (List.mem_filter.1 hx).2)
  refine ⟨upsert_keyed h.keyed, fun r hr => ?_, fun x hx => ?_⟩
  · rcases mem_upsert hr with ⟨hr, other⟩ | ⟨r', hr', same, rfl⟩ | ⟨rfl, new⟩
    · -- a row of another key, and no new event of its key
      have same : (events ++ [e]).filter (fun x => x.key = r.key) = events.filter fun x => x.key = r.key := by
        have : e.key ≠ r.key := describes.key ▸ Ne.symm other
        simp [this]
      rw [same]
      exact h.rows r hr
    · have key : e.key = r'.key := (same.trans describes.key).symm
      have old := h.rows r' hr'
      rw [row.update_key, last _ key, ← key]
      rw [← key] at old
      refine ⟨⟨e, isLatest_append before, describes.latestEventId, describes.state, describes.labels,
        describes.lastSeenAt.trans describes.observedAt.symm⟩, ⟨?_, ?_⟩, ?_⟩
      · obtain ⟨x, hx, first⟩ := old.first.1
        exact ⟨x, List.mem_append_left _ hx, first⟩
      · intro x hx
        rcases List.mem_append.1 hx with hx | hx
        · exact old.first.2 x hx
        · obtain ⟨y, hy, first⟩ := old.first.1
          rw [List.mem_singleton.1 hx]
          exact first.le.trans (before y hy)
      · rw [List.length_append, ← old.version]
        rfl
    · have none_ : events.filter (fun x => x.key = e.key) = [] := by
        rw [List.filter_eq_nil_iff]
        intro x hx same
        obtain ⟨r', hr', key⟩ := h.all x hx
        exact new r' hr' (key.trans ((of_decide_eq_true same).trans describes.key.symm))
      rw [describes.key, last _ rfl, none_, List.nil_append]
      have time : r.firstSeenAt = e.observedAt := describes.firstSeenAt.trans describes.observedAt.symm
      refine ⟨⟨e, isLatest_append fun _ hx => absurd hx List.not_mem_nil, describes.latestEventId,
        describes.state, describes.labels,
        describes.lastSeenAt.trans describes.observedAt.symm⟩, ⟨⟨e, List.mem_singleton_self e, time⟩, ?_⟩,
        describes.version⟩
      intro x hx
      rw [List.mem_singleton.1 hx, time]
  · refine exists_upsert ?_
    rcases List.mem_append.1 hx with hx | hx
    · exact .inr (h.all x hx)
    · exact .inl ((List.mem_singleton.1 hx) ▸ describes.key.symm)

/-! ## Transactions -/

section

variable {b : Backend} {call : Call} {deliveryId : Uuid} {alert : CanonicalAlertEvent × Json}
  {alerts : List (CanonicalAlertEvent × Json)} {writes : List Write} {progress after : Progress}
  {v : Skeleton}

/-- Filing touches neither events nor instances. -/
theorem Filed.observed {event : CanonicalAlertEvent} {identity : IncidentIdentity} {eventId : Uuid}
    {incidentId outboxEventId : Option Uuid}
    (h : Filed call event identity eventId v writes incidentId outboxEventId) (t : Tables) :
    (added writes).events = [] ∧ (t.merge writes).instances = t.instances := by
  cases h <;> exact ⟨rfl, rfl⟩

/-- A turn observes nothing, or one event. -/
theorem Turn.observed (h : Turn b call deliveryId v alert writes progress after) (t : Tables) :
    (added writes).events = [] ∧ (t.merge writes).instances = t.instances ∨
      ∃ e row, Describes call.receivedAt e row ∧ (added writes).events = [e] ∧
        (t.merge writes).instances = upsert row t.instances := by
  cases h with
  | duplicate => exact .inl ⟨rfl, rfl⟩
  | @claimed event rawAlert _ identity labels eventId writes _ _ _ serialised filed =>
    have others :=
      filed.observed (t.merge (claimWrites call deliveryId event rawAlert identity labels eventId))
    refine .inr ⟨claimedRow call deliveryId event rawAlert identity labels eventId,
      event.instanceRow eventId call.receivedAt (plainFields event.labels) (textFields event.annotations),
      ⟨rfl, rfl, rfl, rfl, plainFields_of_dumps serialised, rfl, rfl, rfl⟩, ?_, ?_⟩
    · rw [added_append, Skeleton.append_events, others.1, List.append_nil]
      rfl
    · rw [Tables.merge_append, others.2]
      rfl

theorem merge_events (t : Tables) (writes : List Write) :
    (t.merge writes).events = t.events ++ (added writes).events := by
  rw [← Tables.skeleton_events, skeleton_merge]
  rfl

/-- No event of the key in the tables is later than the events of the call. -/
def InOrder (store : Tables) (own : List Write) : Prop :=
  ∀ e ∈ (added own).events, ∀ x ∈ store.events, x.key = e.key → x.observedAt ≤ e.observedAt

/-- The events of a call are observed when it was received. -/
theorem Turns.times (h : Turns b call deliveryId v alerts writes progress after) :
    ∀ e ∈ (added writes).events, e.observedAt = call.receivedAt := by
  intro e he
  induction h with
  | nil => cases he
  | cons turn _ ih =>
    rw [added_append] at he
    rcases List.mem_append.1 he with he | he
    · rcases turn.observed .empty with ⟨none_, -⟩ | ⟨e', row, describes, one, -⟩
      · rw [none_] at he
        cases he
      · rw [one, List.mem_singleton] at he
        exact he ▸ describes.observedAt
    · exact ih he

instance (store : Tables) (own : List Write) : Decidable (InOrder store own) := by
  unfold InOrder
  infer_instance

/-- The turns of a call whose events come in order sum up what they observe. -/
theorem Turns.hold (h : Turns b call deliveryId v alerts writes progress after) {t : Tables}
    (inOrder : InOrder t writes) (hold : InstancesHold t.events t.instances) :
    InstancesHold (t.merge writes).events (t.merge writes).instances := by
  have times := h.times
  induction h generalizing t with
  | nil => exact hold
  | @cons _ _ _ writes more _ _ _ turn _ ih =>
    rw [added_append] at times
    have turnTimes := fun e he => times e (List.mem_append_left _ he)
    have restTimes := fun e he => times e (List.mem_append_right _ he)
    rw [InOrder, added_append] at inOrder
    have turnOrder : InOrder t writes := fun e he => inOrder e (List.mem_append_left _ he)
    rw [Tables.merge_append]
    refine ih ?_ ?_ restTimes
    · intro e he x hx same
      rw [merge_events] at hx
      rcases List.mem_append.1 hx with hx | hx
      · exact inOrder e (List.mem_append_right _ he) x hx same
      · exact le_of_eq ((turnTimes x hx).trans (restTimes e he).symm)
    · rcases turn.observed t with ⟨none_, same⟩ | ⟨e, row, describes, one, upserted⟩
      · rw [merge_events, none_, List.append_nil, same]
        exact hold
      · rw [merge_events, one, upserted]
        exact hold.observe describes (turnOrder e (one ▸ List.mem_singleton_self e))

/-- The rows of some keys were last seen at one time. -/
def Stamped (time : Timestamp) (events : List AlertEvent) (instances : List AlertInstance) : Prop :=
  ∀ e ∈ events, ∀ row ∈ instances, row.key = e.key → row.lastSeenAt = time

/-- What the turns upsert is last seen at the time of the call. -/
theorem Turns.stamped (h : Turns b call deliveryId v alerts writes progress after) {t : Tables}
    {events : List AlertEvent} (stamped : Stamped call.receivedAt events t.instances) :
    Stamped call.receivedAt (events ++ (added writes).events) (t.merge writes).instances := by
  induction h generalizing t events with
  | nil => simpa [Skeleton.empty] using stamped
  | @cons _ _ _ writes more _ _ _ turn _ ih =>
    rw [Tables.merge_append, added_append, Skeleton.append_events, ← List.append_assoc]
    refine ih ?_
    rcases turn.observed t with ⟨none_, same⟩ | ⟨e, row, describes, one, upserted⟩
    · rw [none_, List.append_nil, same]
      exact stamped
    · rw [one, upserted]
      intro x hx r hr key
      rcases mem_upsert hr with ⟨hr, other⟩ | ⟨r', -, -, rfl⟩ | ⟨rfl, -⟩
      · rcases List.mem_append.1 hx with hx | hx
        · exact stamped x hx r hr key
        · rw [List.mem_singleton.1 hx, ← describes.key] at key
          exact absurd key other
      · exact describes.lastSeenAt
      · exact describes.lastSeenAt

/-- Where the instances hold after a commit, its events came in order. -/
theorem Turns.inOrder (h : Turns b call deliveryId v alerts writes progress after) {t : Tables}
    (hold : InstancesHold (t.merge writes).events (t.merge writes).instances) : InOrder t writes := by
  intro e he x hx same
  have none_ : Stamped call.receivedAt [] t.instances := fun _ he => absurd he List.not_mem_nil
  have stamped := h.stamped none_
  rw [List.nil_append] at stamped
  rw [merge_events] at hold
  obtain ⟨row, hrow, key⟩ := hold.all e (List.mem_append_right _ he)
  obtain ⟨latest, isLatest, -, -, -, time⟩ := (hold.rows row hrow).latest
  rw [h.times e he, ← stamped e he row hrow key, time]
  exact isLatest.le x (List.mem_filter.2 ⟨List.mem_append_left _ hx, decide_eq_true (same.trans key.symm)⟩)

end

/-! ## Runs -/

/-- The events of a call that commits come in order. -/
def CommitsInOrder (s : Server Stmt Call IngestionResult Tables (List Write) Uuid) : Label Call Uuid → Prop
  | .commit i =>
    match s.sessions[i]? with
    | some (_, .running own (.pure _)) => InOrder s.store own
    | _ => True
  | _ => True

instance (s : Server Stmt Call IngestionResult Tables (List Write) Uuid) (a : Label Call Uuid) :
    Decidable (CommitsInOrder s a) := by
  unfold CommitsInOrder
  split
  · split <;> infer_instance
  · infer_instance

/-- The instances of the committed tables hold. -/
abbrev Tables.InstancesHold (t : Tables) : Prop := Ingestion.InstancesHold t.events t.instances

section

variable {b : Backend} {maxBodyBytes : Nat} {publishing : Bool} {start : Tables} {call : Call}
  {result : IngestionResult}
  {store : Tables} {own : List Write} {v : Skeleton}
  {s t : Server Stmt Call IngestionResult Tables (List Write) Uuid}
  {a : Label Call Uuid}

/-- A commit keeps the instances exactly if it comes in the order of its alerts. -/
theorem Executed.hold_iff (h : Executed b maxBodyBytes call v result own) (hold : store.InstancesHold) :
    (store.merge own).InstancesHold ↔ InOrder store own := by
  cases h with
  | @intro webhook document _ deliveryId writes progress _ _ _ _ turns =>
    let recorded := store.merge [.insertDelivery ((deliveryValues b call webhook document).row deliveryId)]
    have loop : ∀ t : Tables,
      (t.merge (.insertDelivery ((deliveryValues b call webhook document).row deliveryId) ::
        (writes ++ [.finishDelivery deliveryId progress.status call.receivedAt]))) =
        ((t.merge [.insertDelivery ((deliveryValues b call webhook document).row deliveryId)]).merge
          writes).merge
          [.finishDelivery deliveryId progress.status call.receivedAt] := by
      intro t
      rw [← Tables.merge_append, ← Tables.merge_append]
      rfl
    have order : InOrder store (.insertDelivery ((deliveryValues b call webhook document).row deliveryId) ::
        (writes ++ [.finishDelivery deliveryId progress.status call.receivedAt])) ↔
          InOrder recorded writes := by
      rw [InOrder, added_cons, added_append]
      simp [InOrder, Write.adds, Skeleton.empty, recorded, Tables.merge, Write.apply]
    rw [loop, order]
    exact ⟨turns.inOrder, fun inOrder => turns.hold inOrder hold⟩

/-- From a state whose instances hold, a step keeps them so exactly if it does not commit out of order. -/
theorem step_hold_iff (wf : start.skeleton.WellFormed)
    (h : (ingestion b maxBodyBytes publishing start).Reachable s) (hold : s.store.InstancesHold)
    (hstep : (ingestion b maxBodyBytes publishing start).step s a = some t) :
    t.store.InstancesHold ↔ CommitsInOrder s a := by
  rcases (ingestion_sound wf h).step_store hstep with ⟨other, same⟩ |
    ⟨i, call, result, own, rfl, hi, ended, rfl⟩
  · rw [same]
    refine iff_of_true hold ?_
    cases a with
    | commit i => exact absurd rfl (other i)
    | _ => trivial
  · refine (ended.executed.hold_iff hold).trans ?_
    rw [CommitsInOrder, hi]

/-- In a run whose commits come in order the instances hold; a commit out of order breaks them. -/
theorem instances_hold (wf : start.skeleton.WellFormed) (hold : start.InstancesHold) :
    (∀ s, (ingestion b maxBodyBytes publishing start).Run CommitsInOrder ⟨start, []⟩ s →
      s.store.InstancesHold) ∧
      ∀ s a t, (ingestion b maxBodyBytes publishing start).Reachable s → s.store.InstancesHold →
        (ingestion b maxBodyBytes publishing start).step s a = some t →
          (t.store.InstancesHold ↔ CommitsInOrder s a) := by
  refine ⟨fun s run => ?_, fun s a t reachable hold hstep => step_hold_iff wf reachable hold hstep⟩
  have started : (ingestion b maxBodyBytes publishing start).Reachable ⟨start, []⟩ := .init ⟨rfl, rfl⟩
  induction run with
  | refl => exact hold
  | tail run inOrder hstep ih => exact (step_hold_iff wf (started.steps run.steps) ih hstep).2 inOrder

end

theorem hold_empty : Tables.empty.InstancesHold where
  keyed := List.nodup_nil
  rows _ h := absurd h List.not_mem_nil
  all _ h := absurd h List.not_mem_nil

/-- Two alerts of one incident fire; a minute later the first one has resolved, and the other one
fires still. -/
def recoveringRun : List (Label Call Uuid) :=
  .start (sampleCall 1 [sampleAlert "firing" "a" sampleLabels, sampleAlert "firing" "b" sampleLabels]) ::
    answers 0 100 28 ++ .commit 0 ::
    .start
      (sampleCall 2 [sampleAlertAt nextMinute "resolved" "a" sampleLabels,
          sampleAlertAt nextMinute "firing" "b" sampleLabels]) ::
    answers 1 200 20 ++ [.commit 1]

/-- The second call commits in order, after the first one, and its instances tell its events. -/
theorem ordered_instances :
    ∃ s, (ingestion sampleBackend 1048576 true .empty).execIn CommitsInOrder ⟨.empty, []⟩ recoveringRun =
      some s ∧
    s.store.instances.map (fun r => (r.key, r.state, r.lastSeenAt)) =
      [((1, "a"), .RESOLVED, 2), ((1, "b"), .FIRING, 2)] ∧
    s.store.InstancesHold := by
  have ends :
    (((ingestion sampleBackend 1048576 true .empty).execIn CommitsInOrder ⟨.empty, []⟩ recoveringRun).map
      fun s =>
      s.store.instances.map fun r => (r.key, r.state, r.lastSeenAt)) =
        some [((1, "a"), .RESOLVED, 2), ((1, "b"), .FIRING, 2)] := by
    decide +kernel
  obtain ⟨s, hs, told⟩ := Option.map_eq_some_iff.1 ends
  exact ⟨s, hs, told,
    (instances_hold (show Tables.empty.skeleton.WellFormed from Skeleton.wellFormed_empty) hold_empty).1 s
    (System.run_of_exec hs)⟩

/-! ## Two calls out of order -/

/-- The call received second commits first; the other one then fires a second alert and resolves the first. -/
def disorderedRun : List (Label Call Uuid) :=
  .start (sampleCall 1 [sampleAlert "firing" "b" sampleLabels, sampleAlert "resolved" "a" sampleLabels]) ::
    .start (sampleCall 2 [sampleAlert "firing" "a" sampleLabels]) :: answers 1 100 18 ++
      .commit 1 :: answers 0 200 20 ++ [.commit 0]

/-- What is read from the tables after the two calls. -/
def disordered {α : Type} (read : Tables → α) : Option α :=
  ((ingestion sampleBackend 1048576 true .empty).exec ⟨.empty, []⟩ disorderedRun).map fun s => read s.store

theorem disordered_events : disordered (fun t => t.events.map fun e => (e.id, e.key, e.observedAt)) =
    some [(103, (1, "a"), 2), (203, (1, "b"), 1), (213, (1, "a"), 1)] := by decide +kernel

theorem disordered_states : disordered (fun t => t.instances.map fun r => (r.key, r.state, r.lastSeenAt)) =
    some [((1, "a"), .RESOLVED, 1), ((1, "b"), .FIRING, 1)] := by decide +kernel

theorem disordered_links : disordered (fun t => (t.incidents.map (fun r => (r.id, r.alertState)), t.links)) =
    some ([(107, .RESOLVED)], [⟨107, 103⟩, ⟨107, 203⟩, ⟨107, 213⟩]) := by decide +kernel

/-- The tables after the two calls. -/
theorem disordered_tables :
    ∃ s, (ingestion sampleBackend 1048576 true .empty).exec ⟨.empty, []⟩ disorderedRun = some s ∧
    s.store.events.map (fun e => (e.id, e.key, e.observedAt)) =
      [(103, (1, "a"), 2), (203, (1, "b"), 1), (213, (1, "a"), 1)] ∧
    s.store.instances.map (fun r => (r.key, r.state, r.lastSeenAt)) =
      [((1, "a"), .RESOLVED, 1), ((1, "b"), .FIRING, 1)] ∧
    s.store.incidents.map (fun r => (r.id, r.alertState)) = [(107, .RESOLVED)] ∧
    s.store.links = [⟨107, 103⟩, ⟨107, 203⟩, ⟨107, 213⟩] := by
  obtain ⟨s, hs, events⟩ := Option.map_eq_some_iff.1 disordered_events
  obtain ⟨_, same, instances⟩ := Option.map_eq_some_iff.1 disordered_states
  obtain rfl := Option.some.inj (hs.symm.trans same)
  obtain ⟨_, same, facts⟩ := Option.map_eq_some_iff.1 disordered_links
  obtain rfl := Option.some.inj (hs.symm.trans same)
  rw [Prod.mk.injEq] at facts
  exact ⟨_, hs, events, instances, facts⟩

/-- The instance tells the event that was processed last, not the latest one. -/
theorem disordered_instances :
    ∃ s, (ingestion sampleBackend 1048576 true .empty).exec ⟨.empty, []⟩ disorderedRun = some s ∧
    ¬ s.store.InstancesHold := by
  obtain ⟨s, hs, events, instances, -, -⟩ := disordered_tables
  refine ⟨s, hs, fun hold => ?_⟩
  have first : ((103 : Uuid), ((1 : Uuid), "a"), (2 : Timestamp)) ∈ s.store.events.map fun e =>
      (e.id, e.key, e.observedAt) := by
    rw [events]
    decide
  obtain ⟨e, he, facts⟩ := List.mem_map.1 first
  obtain ⟨-, key, time⟩ : e.id = 103 ∧ e.key = (1, "a") ∧ e.observedAt = 2 := by simpa using facts
  obtain ⟨row, hrow, same⟩ := hold.all e he
  obtain ⟨latest, isLatest, -, -, -, seen⟩ := (hold.rows row hrow).latest
  have late : e.observedAt ≤ row.lastSeenAt := by
    rw [seen]
    exact isLatest.le e (List.mem_filter.2 ⟨he, decide_eq_true same.symm⟩)
  have here : (row.key, row.state, row.lastSeenAt) ∈
      [(((1 : Uuid), "a"), AlertState.RESOLVED, (1 : Timestamp)), ((1, "b"), .FIRING, 1)] := by
    rw [← instances]
    exact List.mem_map_of_mem hrow
  have stamp : row.lastSeenAt = 1 := by
    simp only [List.mem_cons, List.not_mem_nil, or_false, Prod.mk.injEq] at here
    rcases here with ⟨-, -, h⟩ | ⟨-, -, h⟩ <;> exact h
  rw [time, stamp] at late
  exact absurd late (by decide)

end SreAgent.Ingestion
