import SreAgent.Ingestion.Instances

/-!
# The alert state of an incident

A `Board` is what the alert states say: a flag on every incident, a state for every source and
fingerprint, and which of these are linked to which incident. Filing an alert sets all three, and
the flag is the status of the alert filed last (`Executed.board`). It is true where an incident is
flagged as firing exactly if one of its alert instances fires, and a commit keeps it so only where the
last alert of every incident tells what all its alerts tell.
-/

namespace SreAgent.Ingestion
open Base Transaction Alerts Outbox Lifecycle Pubsub

/-! ## Boards -/

/-- An alert that a call has claimed, and the incident it is filed to. -/
structure Claim where
  event : AlertEvent
  incidentId : Option Uuid

/-- The flags of incidents, the states of alert instances and the links between them. -/
@[ext]
structure Board where
  flag : Uuid → Option AlertState
  state : Uuid × String → Option AlertState
  linked : Uuid → Uuid × String → Prop

namespace Board

/-- A flag says that the incident fires exactly if one of its alert instances does. -/
def Truthful (board : Board) : Prop :=
  ∀ id σ, board.flag id = some σ → (σ = .FIRING ↔ ∃ key, board.linked id key ∧ board.state key = some .FIRING)

/-- One more alert. -/
def file (board : Board) (c : Claim) : Board where
  flag id := if c.incidentId = some id then some c.event.alertState else board.flag id
  state key := if c.event.key = key then some c.event.alertState else board.state key
  linked id key := board.linked id key ∨ c.incidentId = some id ∧ c.event.key = key

end Board

/-- The status of the last alert that is filed to an incident. -/
def lastFiled (cs : List Claim) (id : Uuid) : Option AlertState :=
  (cs.reverse.find? fun c => c.incidentId = some id).map fun c => c.event.alertState

/-- The status of the last alert of a fingerprint. -/
def lastStatus (cs : List Claim) (key : Uuid × String) : Option AlertState :=
  (cs.reverse.find? fun c => c.event.key = key).map fun c => c.event.alertState

section

variable {board : Board} {cs : List Claim} {id : Uuid} {key : Uuid × String}

/-- After several claims the flag of an incident is the status of the last alert filed under it. -/
theorem flag_foldl : (cs.foldl Board.file board).flag id = (lastFiled cs id).or (board.flag id) := by
  induction cs using List.reverseRecOn with
  | nil => rfl
  | append_singleton cs c ih =>
    rw [List.foldl_append, List.foldl_cons, List.foldl_nil, lastFiled, List.reverse_append]
    by_cases here : c.incidentId = some id
    · simp [Board.file, here]
    · simp only [Board.file, here, if_false, ih]
      simp [lastFiled, here]

/-- After several claims the state of an instance is the status of its last alert. -/
theorem state_foldl : (cs.foldl Board.file board).state key = (lastStatus cs key).or (board.state key) := by
  induction cs using List.reverseRecOn with
  | nil => rfl
  | append_singleton cs c ih =>
    rw [List.foldl_append, List.foldl_cons, List.foldl_nil, lastStatus, List.reverse_append]
    by_cases here : c.event.key = key
    · simp [Board.file, here]
    · simp only [Board.file, here, if_false, ih]
      simp [lastStatus, here]

/-- After several claims an incident is linked to what it was linked to, and to the alerts filed
under it. -/
theorem linked_foldl : (cs.foldl Board.file board).linked id key ↔
    board.linked id key ∨ ∃ c ∈ cs, c.incidentId = some id ∧ c.event.key = key := by
  induction cs generalizing board with
  | nil => simp
  | cons c cs ih =>
    rw [List.foldl_cons, ih, Board.file]
    simp only [List.mem_cons, exists_eq_or_imp, or_assoc]

end

/-- The last alert filed to each incident, or else its flag, fires exactly if one of the fingerprints
linked to it does, each taken at its last alert, or else at its state. -/
def LastAlertTells (board : Board) (cs : List Claim) : Prop :=
  ∀ id σ, (lastFiled cs id).or (board.flag id) = some σ →
    (σ = .FIRING ↔ ∃ key, (board.linked id key ∨ ∃ c ∈ cs, c.incidentId = some id ∧ c.event.key = key) ∧
      (lastStatus cs key).or (board.state key) = some .FIRING)

/-- Claims keep the flags truthful exactly if the last alert of each incident tells its state. -/
theorem truthful_foldl {board : Board} {cs : List Claim} :
    (cs.foldl Board.file board).Truthful ↔ LastAlertTells board cs := by
  simp only [Board.Truthful, LastAlertTells, flag_foldl, state_foldl, linked_foldl]

/-! ## The tables as a board -/

/-- What the tables say. -/
def Tables.board (t : Tables) : Board where
  flag id := (Table.lookup Incident.id id t.incidents).map (·.alertState)
  state key := (Table.lookup AlertInstance.key key t.instances).map (·.state)
  linked id key :=
    ∃ link ∈ t.links, link.incidentId = id ∧ ∃ e ∈ t.events, e.id = link.alertEventId ∧ e.key = key

/-- The alerts a transaction has claimed, in order, each with the incident its event is linked to. -/
def claims (own : List Write) : List Claim :=
  (added own).events.map fun e =>
    ⟨e, ((added own).links.find? fun l => l.alertEventId = e.id).map (·.incidentId)⟩

theorem lookup_append {ρ κ : Type} [DecidableEq κ] {key : ρ → κ} {k : κ} {rows more : List ρ} :
    Table.lookup key k (rows ++ more) = (Table.lookup key k rows).or (Table.lookup key k more) :=
  List.find?_append

/-- An upsert sets the state of its own instance, and of no other. -/
theorem state_upsert {row : AlertInstance} {rows : List AlertInstance} {key : Uuid × String} :
    (Table.lookup AlertInstance.key key (upsert row rows)).map (·.state) =
      if row.key = key then some row.state else (Table.lookup AlertInstance.key key rows).map (·.state) := by
  by_cases known : ∃ r ∈ rows, r.key = row.key
  · rw [upsert_eq_update known, Table.lookup_updateWhere row.update_key, Option.map_map]
    cases found : Table.lookup AlertInstance.key key rows with
    | none =>
      obtain ⟨r, hr, same⟩ := known
      have other : row.key ≠ key := fun here => Table.lookup_eq_none.1 found r hr (same.trans here)
      simp [other]
    | some r =>
      have here : r.key = key := Table.lookup_key found
      by_cases same : row.key = key
      · simp [here, same, AlertInstance.update]
      · simp [here, same, Ne.symm same]
  · have new : ∀ r ∈ rows, r.key ≠ row.key := fun r hr same => known ⟨r, hr, same⟩
    rw [upsert_eq_append new, lookup_append]
    by_cases same : row.key = key
    · have none_ : Table.lookup AlertInstance.key key rows = none :=
        Table.lookup_eq_none.2 fun r hr => same ▸ new r hr
      rw [none_]
      simp [same, Table.lookup]
    · simp [same, Table.lookup]

/-- `alert_state` is set on its own incident, and on no other. -/
theorem flag_setAlertState {incidentId id : Uuid} {σ : AlertState} {updatedAt : Timestamp}
    {rows : List Incident} (here : ∃ r ∈ rows, r.id = incidentId) :
    (Table.lookup Incident.id id
      (Table.updateWhere (fun r => r.id = incidentId) (Incident.setAlertState σ updatedAt) rows)).map
        (·.alertState) =
      if incidentId = id then some σ else (Table.lookup Incident.id id rows).map (·.alertState) := by
  have same : ∀ r : Incident, (r.setAlertState σ updatedAt).id = r.id := fun _ => rfl
  rw [Table.lookup_updateWhere same, Option.map_map]
  cases found : Table.lookup Incident.id id rows with
  | none =>
    obtain ⟨r, hr, rfl⟩ := here
    have other : r.id ≠ id := Table.lookup_eq_none.1 found r hr
    simp [other]
  | some r =>
    have hid : r.id = id := Table.lookup_key found
    by_cases same : incidentId = id
    · simp [hid, same, Incident.setAlertState]
    · simp [hid, same, Ne.symm same]

/-- A new incident has the flag it is inserted with, and the others keep theirs. -/
theorem flag_insert {row : Incident} {id : Uuid} {rows : List Incident} (new : ∀ r ∈ rows, r.id ≠ row.id) :
    (Table.lookup Incident.id id (rows ++ [row])).map (·.alertState) =
      if row.id = id then some row.alertState else (Table.lookup Incident.id id rows).map (·.alertState) := by
  rw [lookup_append]
  by_cases same : row.id = id
  · have none_ : Table.lookup Incident.id id rows = none := Table.lookup_eq_none.2 fun r hr => same ▸ new r hr
    rw [none_]
    simp [same, Table.lookup]
  · simp [same, Table.lookup]

/-- A new event changes no link of an old one. -/
theorem linked_event {e : AlertEvent} {events : List AlertEvent} {links : List IncidentAlert}
    (new : ∀ x ∈ events, x.id ≠ e.id) (linkEvent : ∀ l ∈ links, l.alertEventId ∈ events.map (·.id))
    {id : Uuid} {key : Uuid × String} :
    (∃ link ∈ links, link.incidentId = id ∧ ∃ x ∈ events ++ [e], x.id = link.alertEventId ∧ x.key = key) ↔
      ∃ link ∈ links, link.incidentId = id ∧ ∃ x ∈ events, x.id = link.alertEventId ∧ x.key = key := by
  refine exists_congr fun link => and_congr_right fun hlink => and_congr_right fun _ => ⟨?_, ?_⟩
  · rintro ⟨x, hx, same, hkey⟩
    rcases List.mem_append.1 hx with hx | hx
    · exact ⟨x, hx, same, hkey⟩
    · obtain ⟨y, hy, old⟩ := List.mem_map.1 (linkEvent link hlink)
      rw [List.mem_singleton.1 hx] at same
      exact absurd (old.trans same.symm) (new y hy)
  · rintro ⟨x, hx, same, hkey⟩
    exact ⟨x, List.mem_append_left _ hx, same, hkey⟩

section

variable {b : Backend} {maxBodyBytes : Nat} {call : Call} {deliveryId : Uuid}
  {alert : CanonicalAlertEvent × Json}
  {alerts : List (CanonicalAlertEvent × Json)} {writes more : List Write} {progress after : Progress}
  {t : Tables} {v : Skeleton}

/-- An event that is filed is linked to its incident, if it has one. -/
theorem Filed.links {event : CanonicalAlertEvent} {identity : IncidentIdentity} {eventId : Uuid}
    {incidentId outboxEventId : Option Uuid}
    (h : Filed call event identity eventId v writes incidentId outboxEventId) :
    (added writes).links = (incidentId.map fun id => ⟨id, eventId⟩).toList := by
  cases h <;> simp [workWrites, Write.adds, Skeleton.empty]

/-- Filing an event sets the flag of its incident to the status of the event. -/
theorem Filed.flag {event : CanonicalAlertEvent} {identity : IncidentIdentity} {eventId : Uuid}
    {incidentId outboxEventId : Option Uuid}
    (h : Filed call event identity eventId v writes incidentId outboxEventId)
    (same : v.incidents = t.skeleton.incidents) (fresh : (t.skeleton ++ added writes).keys.Nodup)
    (id : Uuid) :
    (t.merge writes).board.flag id = if incidentId = some id then some event.status else t.board.flag id := by
  have known : ∀ {P : IncidentRef → Prop} {incidentId : Uuid}, (∃ r ∈ v.incidents, r.id = incidentId ∧ P r) →
      ∃ r ∈ t.incidents, r.id = incidentId := by
    rintro P incidentId ⟨r, hr, hid, -⟩
    rw [same] at hr
    obtain ⟨row, hrow, rfl⟩ := List.mem_map.1 hr
    exact ⟨row, hrow, hid⟩
  cases h with
  | @created reopenedFrom incidentId runId jobId outboxEventId firing =>
    have new : ∀ r ∈ t.incidents, r.id ≠ incidentId := by
      intro r hr taken
      have old : Key.incident incidentId ∈ t.skeleton.keys :=
        Skeleton.incident_mem_keys.2 ⟨r.ref, List.mem_map_of_mem hr, taken⟩
      refine (Skeleton.nodup_of_append fresh).2.2 _ old ?_
      simp [Write.adds, Skeleton.empty, Incident.ref, IncidentValues.row]
    simp only [firing, Option.some.injEq]
    exact @flag_insert ((incidentValues call event identity reopenedFrom).row incidentId) id t.incidents new
  | reused firing active =>
    simp only [firing, Option.some.injEq]
    exact flag_setAlertState (known active)
  | resolved resolved here =>
    simp only [resolved, Option.some.injEq]
    exact flag_setAlertState (known here)
  | unknown resolved => rfl

theorem merge_links (t : Tables) (writes : List Write) :
    (t.merge writes).links = t.links ++ (added writes).links := by
  rw [← Tables.skeleton_links, skeleton_merge]
  rfl

/-- A new event with its link makes one more pair of an incident and an alert. -/
theorem mem_linked {e : AlertEvent} {events : List AlertEvent} {links : List IncidentAlert}
    (new : ∀ x ∈ events, x.id ≠ e.id) (linkEvent : ∀ l ∈ links, l.alertEventId ∈ events.map (·.id))
    {incidentId : Option Uuid} {id : Uuid} {key : Uuid × String} :
    (∃ link ∈ links ++ (incidentId.map fun id => IncidentAlert.mk id e.id).toList, link.incidentId = id ∧
        ∃ x ∈ events ++ [e], x.id = link.alertEventId ∧ x.key = key) ↔
      (∃ link ∈ links, link.incidentId = id ∧ ∃ x ∈ events, x.id = link.alertEventId ∧ x.key = key) ∨
        incidentId = some id ∧ e.key = key := by
  rw [← linked_event new linkEvent]
  constructor
  · rintro ⟨link, hlink, hid, x, hx, same, hkey⟩
    rcases List.mem_append.1 hlink with hlink | hlink
    · exact .inl ⟨link, hlink, hid, x, hx, same, hkey⟩
    · obtain ⟨other, rfl, rfl⟩ : ∃ other, incidentId = some other ∧ IncidentAlert.mk other e.id = link := by
        simpa using hlink
      refine .inr ⟨congrArg some hid, ?_⟩
      rcases List.mem_append.1 hx with hx | hx
      · exact absurd same (new x hx)
      · exact List.mem_singleton.1 hx ▸ hkey
  · rintro (⟨link, hlink, rest⟩ | ⟨rfl, hkey⟩)
    · exact ⟨link, List.mem_append_left _ hlink, rest⟩
    · exact ⟨⟨id, e.id⟩, by simp, rfl, e, by simp, rfl, hkey⟩

/-- A turn files what it claims. -/
theorem Turn.board (h : Turn b call deliveryId v alert writes progress after)
    (same : v.incidents = t.skeleton.incidents) (wf : t.skeleton.WellFormed)
    (fresh : (t.skeleton ++ added writes).keys.Nodup) :
    (t.merge writes).board = (claims writes).foldl Board.file t.board := by
  cases h with
  | duplicate => rfl
  | @claimed event rawAlert _ identity labels eventId writes incidentId outboxEventId _ serialised filed =>
    let claimed := t.merge (claimWrites call deliveryId event rawAlert identity labels eventId)
    have observed := filed.observed claimed
    have events :
      (added (claimWrites call deliveryId event rawAlert identity labels eventId ++ writes)).events =
        [claimedRow call deliveryId event rawAlert identity labels eventId] := by
      rw [added_append, Skeleton.append_events, observed.1]
      rfl
    have links :
      (added (claimWrites call deliveryId event rawAlert identity labels eventId ++ writes)).links =
        (incidentId.map fun id => ⟨id, eventId⟩).toList := by
      rw [added_append, Skeleton.append_links, filed.links]
      rfl
    have claims : claims (claimWrites call deliveryId event rawAlert identity labels eventId ++ writes) =
        [⟨claimedRow call deliveryId event rawAlert identity labels eventId, incidentId⟩] := by
      rw [claims, events, links]
      cases incidentId <;> simp [claimedRow, CanonicalAlertEvent.row]
    have new : ∀ x ∈ t.events, x.id ≠ eventId := by
      intro x hx taken
      refine (Skeleton.nodup_of_append fresh).2.2 (.event eventId)
        (Skeleton.event_mem_keys.2 ⟨x, hx, taken⟩) ?_
      exact Skeleton.event_mem_keys.2 ⟨_, events ▸ List.mem_singleton_self _, rfl⟩
    rw [claims, List.foldl_cons, List.foldl_nil]
    ext id σ
    · have fresh : (claimed.skeleton ++ added writes).keys.Nodup := by
        rw [skeleton_merge, Skeleton.append_assoc, ← added_append]
        exact fresh
      have same :
        (v ++ added (claimWrites call deliveryId event rawAlert identity labels eventId)).incidents =
          claimed.skeleton.incidents := by
        rw [skeleton_merge, Skeleton.append_incidents, Skeleton.append_incidents, same]
      rw [Tables.merge_append, filed.flag same fresh]
      rfl
    · rw [Tables.merge_append]
      show _ ∈ (Table.lookup AlertInstance.key id (claimed.merge writes).instances).map _ ↔ _
      rw [observed.2]
      exact Iff.of_eq (congrArg (σ ∈ ·) state_upsert)
    · show (∃ link ∈ (t.merge _).links, _ ∧ ∃ e ∈ (t.merge _).events, _) ↔ _
      rw [merge_links, merge_events, events, links]
      exact @mem_linked (claimedRow call deliveryId event rawAlert identity labels eventId) t.events t.links
        new wf.linkEvent _ _ _

/-- A transaction claims what its two parts claim. -/
theorem claims_append (wf : (added writes).WellFormed) (wf' : (added more).WellFormed)
    (apart : ∀ k ∈ (added writes).keys, k ∉ (added more).keys) :
    claims (writes ++ more) = claims writes ++ claims more := by
  have other : ∀ {a b : Skeleton}, b.WellFormed → (∀ k ∈ a.keys, k ∉ b.keys) → ∀ e ∈ a.events,
      b.links.find? (fun l => l.alertEventId = e.id) = none := by
    intro a b wf apart e he
    rw [List.find?_eq_none]
    intro l hl same
    refine apart (.event e.id) (Skeleton.event_mem_keys.2 ⟨e, he, rfl⟩)
      (Skeleton.event_mem_keys.2 (List.mem_map.1 ?_))
    exact of_decide_eq_true same ▸ wf.linkEvent l hl
  simp only [claims, added_append, Skeleton.append_events, Skeleton.append_links, List.map_append,
    List.find?_append]
  congr 1
  · refine List.map_congr_left fun e he => ?_
    rw [other wf' apart e he, Option.or_none]
  · refine List.map_congr_left fun e he => ?_
    rw [other wf (fun k hk hk' => apart k hk' hk) e he, Option.none_or]

/-- The rows of the turns are consistent by themselves. -/
theorem Turns.consistent {old : List Uuid} (h : Turns b call deliveryId v alerts writes progress after)
    (nodup : (added writes).keys.Nodup) : (added writes).Consistent old := by
  induction h with
  | nil => exact Skeleton.consistent_empty
  | cons turn _ ih =>
    rw [added_append] at nodup ⊢
    obtain ⟨first, rest, apart⟩ := Skeleton.nodup_of_append nodup
    exact (turn.consistent first).append (ih rest) apart

/-- The turns of a call file what they claim, one after the other. -/
theorem Turns.board (h : Turns b call deliveryId v alerts writes progress after)
    (same : v.incidents = t.skeleton.incidents) (wf : t.skeleton.WellFormed)
    (fresh : (t.skeleton ++ added writes).keys.Nodup) :
    (t.merge writes).board = (claims writes).foldl Board.file t.board := by
  induction h generalizing t with
  | nil => rfl
  | @cons _ _ _ writes more _ _ _ turn rest ih =>
    rw [added_append, ← Skeleton.append_assoc] at fresh
    obtain ⟨turnFresh, restNodup, apart⟩ := Skeleton.nodup_of_append fresh
    have own : (added writes).Consistent [] := turn.consistent (Skeleton.nodup_of_append turnFresh).2.1
    have others : (added more).Consistent [] := rest.consistent restNodup
    have restApart : ∀ k ∈ (added writes).keys, k ∉ (added more).keys := fun k hk =>
      apart k (Skeleton.mem_keys_append.2 (.inr hk))
    rw [claims_append own.toWellFormed others.toWellFormed restApart, Tables.merge_append, List.foldl_append,
      ← turn.board same wf turnFresh]
    refine ih ?_ ?_ ?_
    · rw [skeleton_merge, Skeleton.append_incidents, Skeleton.append_incidents, same]
    · rw [skeleton_merge]
      exact wf.append own.toWellFormed (Skeleton.nodup_of_append turnFresh).2.2
    · rw [skeleton_merge]
      exact fresh

/-- A commit files what its call claims. -/
theorem Executed.board {store : Tables} {own : List Write} {result : IngestionResult}
    (h : Executed b maxBodyBytes call store.skeleton result own) (wf : store.skeleton.WellFormed)
    (fresh : (seen store own).keys.Nodup) :
    (store.merge own).board = (claims own).foldl Board.file store.board := by
  cases h with
  | @intro webhook document _ deliveryId writes progress _ _ _ _ turns =>
    let delivery : Write := .insertDelivery ((deliveryValues b call webhook document).row deliveryId)
    have loop :
      (store.merge
        (delivery :: (writes ++ [.finishDelivery deliveryId progress.status call.receivedAt]))).board =
        ((store.merge [delivery]).merge writes).board := by
      have split : delivery :: (writes ++ [.finishDelivery deliveryId progress.status call.receivedAt]) =
          [delivery] ++ writes ++ [.finishDelivery deliveryId progress.status call.receivedAt] := by simp
      rw [split, Tables.merge_append, Tables.merge_append]
      rfl
    have same :
        claims (delivery :: (writes ++ [.finishDelivery deliveryId progress.status call.receivedAt])) =
        claims writes := by
      simp [claims, delivery, Write.adds, Skeleton.empty]
    have recorded : (store.merge [delivery]).skeleton = store.skeleton ++ added [delivery] :=
      skeleton_merge _ _
    have whole : (store.skeleton ++ added [delivery] ++ added writes).keys.Nodup := by
      have all :
        seen store (delivery :: (writes ++ [.finishDelivery deliveryId progress.status call.receivedAt])) =
          store.skeleton ++ added [delivery] ++ added writes := by
        simp [seen, Skeleton.append_assoc, Write.adds]
      exact all ▸ fresh
    obtain ⟨first, -, -⟩ := Skeleton.nodup_of_append whole
    obtain ⟨-, deliveryNodup, apart⟩ := Skeleton.nodup_of_append first
    rw [loop, same]
    refine turns.board (by rw [recorded]) ?_ (by rw [recorded]; exact whole)
    rw [recorded]
    refine wf.append ⟨deliveryNodup, ?_, ?_, ?_, ?_⟩ apart <;> intro _ mem <;> cases mem

end

/-- An incident that two truthful boards flag has one flag, if they agree on instances and links. -/
theorem Board.Truthful.flag_unique {board other : Board} (h : board.Truthful) (h' : other.Truthful)
    (linked : board.linked = other.linked) (state : board.state = other.state) {id : Uuid}
    {σ σ' : AlertState} (flag : board.flag id = some σ) (flag' : other.flag id = some σ') : σ = σ' := by
  have here := h id σ flag
  rw [linked, state, ← h' id σ' flag'] at here
  cases σ <;> cases σ' <;> simp at here ⊢

/-! ## Runs -/

/-- The last alert of every incident tells, for a call that commits. -/
def CommitsTelling (s : Server Stmt Call IngestionResult Tables (List Write) Uuid) : Label Call Uuid → Prop
  | .commit i =>
    match s.sessions[i]? with
    | some (_, .running own (.pure _)) => LastAlertTells s.store.board (claims own)
    | _ => True
  | _ => True

section

variable {b : Backend} {maxBodyBytes : Nat} {publishing : Bool} {start : Tables}
  {s t : Server Stmt Call IngestionResult Tables (List Write) Uuid} {a : Label Call Uuid}

/-- From a state whose flags are true, a step keeps them so exactly if its commit tells. -/
theorem step_truthful_iff (wf : start.skeleton.WellFormed)
    (h : (ingestion b maxBodyBytes publishing start).Reachable s) (truthful : s.store.board.Truthful)
    (hstep : (ingestion b maxBodyBytes publishing start).step s a = some t) :
    t.store.board.Truthful ↔ CommitsTelling s a := by
  have sound := ingestion_sound wf h
  rcases sound.step_store hstep with ⟨other, same⟩ | ⟨i, call, result, own, rfl, hi, ended, rfl⟩
  · rw [same]
    refine iff_of_true truthful ?_
    cases a with
    | commit i => exact absurd rfl (other i)
    | _ => trivial
  · show (s.store.merge own).board.Truthful ↔ _
    rw [ended.executed.board sound.store.toWellFormed ended.fresh, truthful_foldl, CommitsTelling, hi]

/-- In a run whose commits tell the flags are true, and do not depend on the way there; a commit that
does not tell makes one false. -/
theorem flags_truthful (wf : start.skeleton.WellFormed) (truthful : start.board.Truthful) :
    (∀ s, (ingestion b maxBodyBytes publishing start).Run CommitsTelling ⟨start, []⟩ s →
      s.store.board.Truthful) ∧
      (∀ s a t, (ingestion b maxBodyBytes publishing start).Reachable s → s.store.board.Truthful →
        (ingestion b maxBodyBytes publishing start).step s a = some t →
          (t.store.board.Truthful ↔ CommitsTelling s a)) ∧
      ∀ s s', (ingestion b maxBodyBytes publishing start).Run CommitsTelling ⟨start, []⟩ s →
        (ingestion b maxBodyBytes publishing start).Run CommitsTelling ⟨start, []⟩ s' →
        s.store.board.linked = s'.store.board.linked → s.store.board.state = s'.store.board.state →
        ∀ id σ σ', s.store.board.flag id = some σ → s'.store.board.flag id = some σ' → σ = σ' := by
  have runs : ∀ s, (ingestion b maxBodyBytes publishing start).Run CommitsTelling ⟨start, []⟩ s →
      s.store.board.Truthful := by
    intro s run
    have started : (ingestion b maxBodyBytes publishing start).Reachable ⟨start, []⟩ := .init ⟨rfl, rfl⟩
    induction run with
    | refl => exact truthful
    | tail run telling hstep ih => exact (step_truthful_iff wf (started.steps run.steps) ih hstep).2 telling
  exact ⟨runs, fun s a t reachable h hstep => step_truthful_iff wf reachable h hstep,
    fun s s' run run' linked state _ _ _ flag flag' =>
      (runs s run).flag_unique (runs s' run') linked state flag flag'⟩

end

theorem truthful_empty : Tables.empty.board.Truthful := fun _ _ h => nomatch h

/-- A call whose last alert fires tells, if all incidents there are and all its alerts are filed to
are one. -/
theorem tells_of_last {t : Tables} {cs : List Claim} {c : Claim} {id : Uuid}
    (fires : c.event.alertState = .FIRING) (here : c.incidentId = some id)
    (filed : ∀ x ∈ cs, x.incidentId = some id) (flags : ∀ r ∈ t.incidents, r.id = id) :
    LastAlertTells t.board (cs ++ [c]) := by
  intro other σ hσ
  have same : other = id := by
    rcases Option.or_eq_some_iff.1 hσ with claimed | ⟨-, flag⟩
    · obtain ⟨x, found, -⟩ := Option.map_eq_some_iff.1 claimed
      have to_other : x.incidentId = some other := by simpa using List.find?_some found
      rcases List.mem_append.1 (List.mem_reverse.1 (List.mem_of_find?_eq_some found)) with mem | mem
      · exact Option.some.inj (to_other.symm.trans (filed x mem))
      · rw [List.mem_singleton.1 mem] at to_other
        exact Option.some.inj (to_other.symm.trans here)
    · obtain ⟨r, found, -⟩ := Option.map_eq_some_iff.1 flag
      rw [← Table.lookup_key found]
      exact flags r (Table.mem_of_lookup found)
  subst same
  have last : lastFiled (cs ++ [c]) other = some .FIRING := by simp [lastFiled, here, fires]
  have status : lastStatus (cs ++ [c]) c.event.key = some .FIRING := by simp [lastStatus, fires]
  rw [last, Option.some_or, Option.some.injEq] at hσ
  refine iff_of_true hσ.symm ⟨c.event.key, .inr ⟨c, by simp, here, rfl⟩, ?_⟩
  rw [status, Option.some_or]

/-- The label is no commit. -/
def Stays (_ : Server Stmt Call IngestionResult Tables (List Write) Uuid) : Label Call Uuid → Bool
  | .commit _ => false
  | _ => true

/-- A label that stays within the sample commits nothing but claims that tell. -/
theorem Stays.telling (s : Server Stmt Call IngestionResult Tables (List Write) Uuid) (a : Label Call Uuid)
    (h : Stays s a = true) :
    CommitsTelling s a := by
  cases a with
  | commit => cases h
  | _ => trivial

/-- The incidents of the tables and their flags. -/
def Tables.flags (t : Tables) : List (Option Uuid × AlertState) :=
  t.incidents.map fun r => (some r.id, r.alertState)

/-- What a call that has not ended would file. -/
def filed (s : Server Stmt Call IngestionResult Tables (List Write) Uuid) (i : Nat) :
    List (Option Uuid × AlertState) :=
  ((s.pendingAt i).map fun own => (claims own).map fun c => (c.incidentId, c.event.alertState)).getD []

/-- A call that would file to the only incident, at last an alert that fires, tells. -/
theorem telling_of_filed {s : Server Stmt Call IngestionResult Tables (List Write) Uuid} {i : Nat}
    {id : Uuid} {σ τ : AlertState} (new : filed s i = [(some id, σ), (some id, .FIRING)])
    (flags : s.store.flags = [] ∨ s.store.flags = [(some id, τ)]) :
    CommitsTelling s (.commit i) := by
  have one : ∀ r ∈ s.store.incidents, r.id = id := by
    intro r hr
    have mem : (some r.id, r.alertState) ∈ s.store.flags := List.mem_map_of_mem hr
    rcases flags with none_ | one
    · rw [none_] at mem
      cases mem
    · rw [one, List.mem_singleton, Prod.mk.injEq] at mem
      exact Option.some.inj mem.1
  rw [CommitsTelling]
  split
  · next call own result hi =>
    rw [filed, Server.pendingAt, hi] at new
    obtain ⟨first, rest, hcs, firstTold, hrest⟩ := List.map_eq_cons_iff.1 new
    obtain ⟨last, nothing, rfl, lastTold, none_⟩ := List.map_eq_cons_iff.1 hrest
    obtain rfl := List.map_eq_nil_iff.1 none_
    rw [Prod.mk.injEq] at firstTold lastTold
    have one_filed : ∀ x ∈ [first], x.incidentId = some id :=
      fun x hx => List.mem_singleton.1 hx ▸ firstTold.1
    rw [show claims own = [first] ++ [last] from hcs]
    exact tells_of_last lastTold.2 lastTold.1 one_filed one
  · trivial

/-- Two alerts of one incident have fired, and a call resolves the first one of them. The other one is
its last and still fires, so the flag is true after its commit. -/
theorem recovering_truthful :
    ∃ s t, (ingestion sampleBackend 1048576 true .empty).Run CommitsTelling ⟨.empty, []⟩ s ∧
    filed s 1 = [(some 107, .RESOLVED), (some 107, .FIRING)] ∧
    (ingestion sampleBackend 1048576 true .empty).step s (.commit 1) = some t ∧
      t.store.flags = [(some 107, .FIRING)] ∧
    t.store.board.Truthful := by
  let server := ingestion sampleBackend 1048576 true .empty
  have ends :
    ((server.execIn (fun s a => Stays s a = true) ⟨.empty, []⟩ (recoveringRun.take 29)).bind fun s =>
      (server.step s (.commit 0)).bind fun t =>
      (server.execIn (fun s a => Stays s a = true) t ((recoveringRun.drop 30).take 21)).bind fun s' =>
      (server.step s' (.commit 1)).map fun t' =>
        [s.store.flags, filed s 0, s'.store.flags, filed s' 1, t'.store.flags]) =
      some [[], [(some 107, .FIRING), (some 107, .FIRING)], [(some 107, .FIRING)],
        [(some 107, .RESOLVED), (some 107, .FIRING)], [(some 107, .FIRING)]] := by decide +kernel
  obtain ⟨s, hs, rest⟩ := Option.bind_eq_some_iff.1 ends
  obtain ⟨t, ht, rest⟩ := Option.bind_eq_some_iff.1 rest
  obtain ⟨s', hs', rest⟩ := Option.bind_eq_some_iff.1 rest
  obtain ⟨t', ht', facts⟩ := Option.map_eq_some_iff.1 rest
  simp only [List.cons.injEq, and_true] at facts
  obtain ⟨flags, new, flags', new', final⟩ := facts
  have run : server.Run CommitsTelling ⟨.empty, []⟩ s := (System.run_of_exec hs).mono Stays.telling
  have committed : server.Run CommitsTelling ⟨.empty, []⟩ t :=
    .tail run (telling_of_filed new (τ := .FIRING) (.inl flags)) ht
  have run' : server.Run CommitsTelling ⟨.empty, []⟩ s' :=
    committed.trans ((System.run_of_exec hs').mono Stays.telling)
  have committed' : server.Run CommitsTelling ⟨.empty, []⟩ t' :=
    .tail run' (telling_of_filed new' (.inr flags')) ht'
  exact ⟨s', t', run', new', ht', final,
    (flags_truthful (show Tables.empty.skeleton.WellFormed from Skeleton.wellFormed_empty) truthful_empty).1
      t' committed'⟩

/-- A column that is read through a key. -/
theorem map_lookup {ρ κ τ : Type} [DecidableEq κ] {key : ρ → κ} {col : ρ → τ} {k : κ} {rows : List ρ} :
    (Table.lookup key k rows).map col =
      ((rows.map fun r => (key r, col r)).find? fun p => p.1 = k).map (·.2) := by
  simp [Table.lookup, List.find?_map, Function.comp_def]

/-- Both alerts of the incident are in one call; the one that resolves comes last. -/
theorem disordered_flag :
    ∃ s, (ingestion sampleBackend 1048576 true .empty).exec ⟨.empty, []⟩ disorderedRun = some s ∧
    ¬ s.store.board.Truthful := by
  obtain ⟨s, hs, events, instances, incidents, links⟩ := disordered_tables
  refine ⟨s, hs, fun truthful => ?_⟩
  have flag : s.store.board.flag 107 = some .RESOLVED := by
    refine map_lookup.trans ?_
    rw [incidents]
    rfl
  have state : s.store.board.state (1, "b") = some .FIRING := by
    have states : s.store.instances.map (fun r => (r.key, r.state)) =
        [((1, "a"), .RESOLVED), ((1, "b"), .FIRING)] := by
      simpa [Function.comp_def] using congrArg (List.map fun p => (p.1, p.2.1)) instances
    refine map_lookup.trans ?_
    rw [states]
    decide
  have linked : s.store.board.linked 107 (1, "b") := by
    have second : ((203 : Uuid), ((1 : Uuid), "b"), (1 : Timestamp)) ∈ s.store.events.map fun e =>
        (e.id, e.key, e.observedAt) := by
      rw [events]
      decide
    obtain ⟨e, he, facts⟩ := List.mem_map.1 second
    obtain ⟨hid, key, -⟩ : e.id = 203 ∧ e.key = (1, "b") ∧ e.observedAt = 1 := by simpa using facts
    exact ⟨⟨107, 203⟩, by rw [links]; decide, rfl, e, he, hid, key⟩
  exact absurd ((truthful 107 .RESOLVED flag).2 ⟨_, linked, state⟩) (by decide)

end SreAgent.Ingestion
