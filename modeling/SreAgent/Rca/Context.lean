import SreAgent.Ingestion.References
import SreAgent.Rca.Models

/-!
# The context of an analysis

`_load_context` reads the newest event that is linked to the incident of a run: its issue, its scope
and its window, from the start of the alert to the time it was received. The incident of every run
has an event, so there is always one to read; it has a window exactly if the alert does not start
after it was received, and nothing in ingestion sees to that.
-/

namespace SreAgent.Rca
open Base Transaction Alerts Outbox Lifecycle Pubsub Ingestion

/-! ## `_load_context` -/

structure IncidentContext where
  incidentId : Uuid
  rcaRunId : Uuid
  alertIssue : String
  scope : Option CloudScope
  windowStart : Timestamp
  windowEnd : Timestamp
  alertIssue_ne : alertIssue ≠ ""
  window_le : windowStart ≤ windowEnd

/-- `IncidentContext(...)`, or a validation error. -/
def IncidentContext.validate (incidentId rcaRunId : Uuid) (alertIssue : String) (scope : Option CloudScope)
    (windowStart windowEnd : Timestamp) : Option IncidentContext :=
  if h : alertIssue ≠ "" ∧ windowStart ≤ windowEnd then
    some ⟨incidentId, rcaRunId, alertIssue, scope, windowStart, windowEnd, h.1, h.2⟩
  else none

/-- The rows of the run, the links of its incident and their events. -/
def contextRows (t : Tables) (rcaRunId incidentId : Uuid) : List AlertEvent :=
  (t.runs.filter fun run => run.id = rcaRunId ∧ run.incidentId = incidentId).flatMap fun run =>
    (t.links.filter fun link => link.incidentId = run.incidentId).flatMap fun link =>
      t.events.filter fun event => event.id = link.alertEventId

/-- A row that no row is newer than. -/
def Newest (rows : List AlertEvent) (e : AlertEvent) : Prop :=
  e ∈ rows ∧ ∀ x ∈ rows, x.observedAt ≤ e.observedAt

/-- What `ORDER BY observed_at DESC LIMIT 1` may answer. -/
structure Selects (rows : List AlertEvent) (row : Option AlertEvent) : Prop where
  found : rows ≠ [] → row ≠ none
  newest : ∀ e, row = some e → Newest rows e

theorem ne_of_strip {s : String} (h : Text.strip s ≠ "") : s ≠ "" := by
  rintro rfl
  exact h (by decide)

/-- The scope of an event without a scope identifier. -/
def unclassified : Provider → Option CloudScope
  | .AWS => some ⟨.AWS, "unclassified", false, by decide⟩
  | .GCP => none

/-- The scope of an event. -/
def eventScope (event : AlertEvent) : Option CloudScope :=
  match event.resource.bind fun resource => JsonObject.get? resource "scopeId" with
  | some (.str scopeId) =>
    if h : Text.strip scopeId ≠ "" then some ⟨event.provider, scopeId, true, ne_of_strip h⟩
      else unclassified event.provider
  | _ => unclassified event.provider

/-- `issue.get("rawText") or "AlertValues 未提供"`; where `add_event` wrote a raw text, it is a text. -/
def eventIssue (event : AlertEvent) : String :=
  match JsonObject.get? event.issue "rawText" with
  | some (.str rawText) => if rawText ≠ "" then rawText else "AlertValues 未提供"
  | _ => "AlertValues 未提供"

/-- `_load_context`, of the row that was selected; `starts_at` is never null in a row of ingestion. -/
def loadContext (rcaRunId incidentId : Uuid) (row : Option AlertEvent) : Option IncidentContext :=
  row.bind fun event =>
    IncidentContext.validate incidentId rcaRunId (eventIssue event) (eventScope event) event.startsAt
      event.observedAt

theorem eventIssue_ne (event : AlertEvent) : eventIssue event ≠ "" := by
  unfold eventIssue
  split
  · split
    · assumption
    · decide
  · decide

/-- A row has a context exactly if its alert does not start after it was received. -/
theorem loadContext_isSome {rcaRunId incidentId : Uuid} {event : AlertEvent} :
    (∃ context, loadContext rcaRunId incidentId (some event) = some context) ↔
      event.startsAt ≤ event.observedAt := by
  show (∃ context, IncidentContext.validate incidentId rcaRunId (eventIssue event) (eventScope event)
    event.startsAt
    event.observedAt = some context) ↔ _
  unfold IncidentContext.validate
  constructor
  · rintro ⟨context, h⟩
    split at h
    · next valid => exact valid.2
    · cases h
  · intro started
    rw [dif_pos ⟨eventIssue_ne event, started⟩]
    exact ⟨_, rfl⟩

/-- The rows of a context are the events linked to the incident of its run. -/
theorem mem_contextRows {t : Tables} {rcaRunId incidentId : Uuid} {event : AlertEvent} :
    event ∈ contextRows t rcaRunId incidentId ↔
      (∃ run ∈ t.runs, run.id = rcaRunId ∧ run.incidentId = incidentId) ∧
        ∃ link ∈ t.links, link.incidentId = incidentId ∧ event ∈ t.events ∧ event.id = link.alertEventId := by
  simp only [contextRows, List.mem_flatMap, List.mem_filter, decide_eq_true_eq]
  constructor
  · rintro ⟨run, ⟨hrun, hid, hincident⟩, link, ⟨hlink, same⟩, hevent⟩
    exact ⟨⟨run, hrun, hid, hincident⟩, link, hlink, same.trans hincident, hevent⟩
  · rintro ⟨⟨run, hrun, hid, hincident⟩, link, hlink, same, hevent⟩
    exact ⟨run, ⟨hrun, hid, hincident⟩, link, ⟨hlink, same.trans hincident.symm⟩, hevent⟩

/-! ## Which contexts can be loaded -/

/-- Whatever row is selected for a run, it has a context. -/
def Loads (t : Tables) : Prop :=
  ∀ run ∈ t.runs, ∀ row, Selects (contextRows t run.id run.incidentId) row →
    ∃ context, loadContext run.id run.incidentId row = some context

section

variable {t store : Tables} {own : List Write}

/-- The incident of a run has a linked event. -/
theorem contextRows_ne_nil (wf : t.skeleton.WellFormed) (referenced : t.Referenced) {run : RcaRun}
    (hrun : run ∈ t.runs) :
    contextRows t run.id run.incidentId ≠ [] := by
  obtain ⟨link, hlink, same⟩ := referenced.runLink (runRef run) (List.mem_map_of_mem hrun)
  obtain ⟨event, hevent, hid⟩ := List.mem_map.1 (wf.linkEvent link hlink)
  exact List.ne_nil_of_mem (mem_contextRows.2 ⟨⟨run, hrun, rfl, rfl⟩, link, hlink, same, hevent, hid⟩)

/-- The contexts load exactly if no newest event starts after it was received. -/
theorem loads_iff (wf : t.skeleton.WellFormed) (referenced : t.Referenced) :
    Loads t ↔ ∀ run ∈ t.runs, ∀ e, Newest (contextRows t run.id run.incidentId) e →
      e.startsAt ≤ e.observedAt := by
  constructor
  · intro loads run hrun e newest
    refine loadContext_isSome.1 (loads run hrun (some e) ⟨fun _ => Option.some_ne_none e, ?_⟩)
    rintro _ ⟨rfl⟩
    exact newest
  · intro started run hrun row selects
    cases row with
    | none => exact absurd rfl (selects.found (contextRows_ne_nil wf referenced hrun))
    | some e => exact loadContext_isSome.2 (started run hrun e (selects.newest e rfl))

/-- An alert that is filed as the newest one of a run does not start after it was received. -/
def StartsInTime (store : Tables) (own : List Write) : Prop :=
  ∀ run ∈ (store.merge own).runs, ∀ e ∈ (added own).events,
    Newest (contextRows (store.merge own) run.id run.incidentId) e →
    e.startsAt ≤ e.observedAt

/-- Contexts that load still do after a commit, exactly if its newest alerts start in time. -/
theorem loads_merge_iff {old : List Uuid} (wf : store.skeleton.WellFormed) (referenced : store.Referenced)
    (loads : Loads store) (fresh : (seen store own).keys.Nodup) (consistent : (added own).Consistent old)
    (referenced' : (store.merge own).Referenced) :
    Loads (store.merge own) ↔ StartsInTime store own := by
  have apart := (Skeleton.nodup_of_append fresh).2.2
  have wf' : (store.merge own).skeleton.WellFormed := by
    rw [skeleton_view]
    exact wf.append consistent.toWellFormed apart
  rw [loads_iff wf' referenced']
  constructor
  · exact fun started run hrun e _ newest => started run hrun e newest
  · intro inTime run hrun e newest
    by_cases new : e ∈ (added own).events
    · exact inTime run hrun e new newest
    · -- an old event is linked by an old link, so its run is an old one
      obtain ⟨-, link, hlink, same, hevent, hid⟩ := mem_contextRows.1 newest.1
      rw [merge_events] at hevent
      have hevent := (List.mem_append.1 hevent).resolve_right new
      rw [merge_links] at hlink
      have hlink : link ∈ store.links := by
        refine (List.mem_append.1 hlink).resolve_right fun hlink => ?_
        refine apart (.event e.id) (Skeleton.event_mem_keys.2 ⟨e, hevent, rfl⟩)
          (Skeleton.event_mem_keys.2 (List.mem_map.1 ?_))
        exact hid ▸ consistent.linkEvent link hlink
      obtain ⟨incident, hincident, hincidentId⟩ := referenced.linkIncident link hlink
      have href : runRef run ∈ store.skeleton.runs ++ (added own).runs := by
        rw [← Skeleton.append_runs, ← seen, ← skeleton_view]
        exact List.mem_map_of_mem hrun
      have href : runRef run ∈ store.skeleton.runs := by
        refine (List.mem_append.1 href).resolve_right fun href => ?_
        refine apart (.incident incident.id) (Skeleton.incident_mem_keys.2 ⟨incident, hincident, rfl⟩)
          (Skeleton.incident_mem_keys.2 (List.mem_map.1 ?_))
        rw [hincidentId, same]
        exact consistent.runIncident (runRef run) href
      obtain ⟨old, hold, sameRun⟩ := List.mem_map.1 href
      have hrunId : old.id = run.id := congrArg RunRef.id sameRun
      have hrunIncident : old.incidentId = run.incidentId := congrArg RunRef.incidentId sameRun
      refine (loads_iff wf referenced).1 loads old hold e
        ⟨mem_contextRows.2 ⟨⟨old, hold, rfl, rfl⟩, link, hlink,
        same.trans hrunIncident.symm, hevent, hid⟩, fun x hx => newest.2 x ?_⟩
      rw [hrunId, hrunIncident, mem_contextRows] at hx
      obtain ⟨-, other, hother, sameOther, hx, hxid⟩ := hx
      refine mem_contextRows.2 ⟨⟨run, hrun, rfl, rfl⟩, other, ?_, sameOther, ?_, hxid⟩
      · rw [merge_links]
        exact List.mem_append_left _ hother
      · rw [merge_events]
        exact List.mem_append_left _ hx

end

/-! ## Runs of ingestion -/

/-- The newest alerts of runs start in time, for a call that commits. -/
def CommitsInTime (s : Server Stmt Call IngestionResult Tables (List Write) Uuid) : Label Call Uuid → Prop
  | .commit i =>
    match s.sessions[i]? with
    | some (_, .running own (.pure _)) => StartsInTime s.store own
    | _ => True
  | _ => True

section

variable {b : Backend} {maxBodyBytes : Nat} {publishing : Bool} {start : Tables}
  {s t : Server Stmt Call IngestionResult Tables (List Write) Uuid} {a : Label Call Uuid}

/-- From a state whose contexts load, a step keeps them so exactly if its commit is in time. -/
theorem step_loads_iff (wf : start.skeleton.WellFormed) (referenced : start.Referenced)
    (h : (ingestion b maxBodyBytes publishing start).Reachable s) (loads : Loads s.store)
    (hstep : (ingestion b maxBodyBytes publishing start).step s a = some t) : Loads t.store ↔
      CommitsInTime s a := by
  have sound := ingestion_sound wf h
  have refs := reachable_referenced wf referenced h
  rcases sound.step_store hstep with ⟨other, same⟩ | ⟨i, call, result, own, rfl, hi, ended, rfl⟩
  · rw [same]
    refine iff_of_true loads ?_
    cases a with
    | commit i => exact absurd rfl (other i)
    | _ => trivial
  · show Loads (s.store.merge own) ↔ _
    rw [loads_merge_iff sound.store.toWellFormed refs loads ended.fresh ended.consistent
      (ended.executed.referenced refs), CommitsInTime, hi]

/-- In a run whose commits are in time every context loads, and a commit that is not stops one; a run
always has an event to read, whose context loads exactly if the alert does not start after it was
received. -/
theorem contexts_load (wf : start.skeleton.WellFormed) (referenced : start.Referenced) (loads : Loads start) :
    (∀ s, (ingestion b maxBodyBytes publishing start).Run CommitsInTime ⟨start, []⟩ s → Loads s.store) ∧
      (∀ s a t, (ingestion b maxBodyBytes publishing start).Reachable s → Loads s.store →
        (ingestion b maxBodyBytes publishing start).step s a = some t → (Loads t.store ↔ CommitsInTime s a)) ∧
      ∀ s, (ingestion b maxBodyBytes publishing start).Reachable s → ∀ run ∈ s.store.runs, ∀ row,
        Selects (contextRows s.store run.id run.incidentId) row → ∃ event, row = some event ∧
          ((∃ context, loadContext run.id run.incidentId row = some context) ↔
            event.startsAt ≤ event.observedAt) := by
  refine ⟨fun s run => ?_, fun s a t reachable h hstep => step_loads_iff wf referenced reachable h hstep,
    fun s reachable run hrun row selects => ?_⟩
  · have started : (ingestion b maxBodyBytes publishing start).Reachable ⟨start, []⟩ := .init ⟨rfl, rfl⟩
    induction run with
    | refl => exact loads
    | tail run inTime hstep ih =>
      exact (step_loads_iff wf referenced (started.steps run.steps) ih hstep).2 inTime
  · have rows :=
      contextRows_ne_nil (ingestion_sound wf reachable).store.toWellFormed
        (reachable_referenced wf referenced reachable) hrun
    obtain ⟨event, rfl⟩ := Option.ne_none_iff_exists'.1 (selects.found rows)
    exact ⟨event, rfl, loadContext_isSome⟩

end

theorem loads_empty : Loads .empty := nofun

/-- A call with one firing alert, received when the alert starts or before that, and committed. -/
def startingRun (receivedAt : Timestamp) : List (Label Call Uuid) :=
  .start (sampleCall receivedAt [sampleAlert "firing" "a" sampleLabels]) :: answers 0 100 18 ++ [.commit 0]

/-- The run of an alert, its event and its link. -/
def filedRows (t : Tables) : List (Uuid × Uuid) × List (Uuid × Timestamp × Timestamp) × List IncidentAlert :=
  (t.runs.map fun run => (run.id, run.incidentId), t.events.map fun e => (e.id, e.startsAt, e.observedAt),
    t.links)

/-- The rows after a call with an alert received in time. -/
theorem contexts_load_received :
    ∃ s, (ingestion sampleBackend 1048576 true .empty).exec ⟨.empty, []⟩ (startingRun 63922608000000000) =
      some s ∧
    s.store.runs.length = 1 ∧ Loads s.store := by
  have ends :
    (((ingestion sampleBackend 1048576 true .empty).exec ⟨.empty, []⟩ (startingRun 63922608000000000)).map
      fun s => filedRows s.store) =
      some ([(110, 107)], [(103, 63922608000000000, 63922608000000000)], [⟨107, 103⟩]) := by decide +kernel
  obtain ⟨s, hs, rows⟩ := Option.map_eq_some_iff.1 ends
  simp only [filedRows, Prod.mk.injEq] at rows
  obtain ⟨runs, events, -⟩ := rows
  refine ⟨s, hs, by simpa using congrArg List.length runs, fun run hrun row selects => ?_⟩
  have reachable : (ingestion sampleBackend 1048576 true .empty).Reachable s :=
    ⟨_, ⟨rfl, rfl⟩, System.run_of_exec hs⟩
  obtain ⟨event, rfl, loadsIff⟩ :=
    (contexts_load (show Tables.empty.skeleton.WellFormed from Skeleton.wellFormed_empty) referenced_empty
    loads_empty).2.2 s reachable run hrun row selects
  refine loadsIff.2 ?_
  obtain ⟨-, link, -, -, hevent, -⟩ := mem_contextRows.1 (selects.newest event rfl).1
  have there := List.mem_map_of_mem (f := fun e : AlertEvent => (e.id, e.startsAt, e.observedAt)) hevent
  rw [events, List.mem_singleton] at there
  simp only [Prod.mk.injEq] at there
  rw [there.2.1, there.2.2]

/-- An alert that starts one microsecond after it is received opens an incident whose analysis has no
context. -/
theorem late_start_fails :
    ∃ s, (ingestion sampleBackend 1048576 true .empty).exec ⟨.empty, []⟩ (startingRun 63922607999999999) =
      some s ∧
    ∃ run ∈ s.store.runs, ∃ row, Selects (contextRows s.store run.id run.incidentId) row ∧
      loadContext run.id run.incidentId row = none := by
  have ends :
    (((ingestion sampleBackend 1048576 true .empty).exec ⟨.empty, []⟩ (startingRun 63922607999999999)).map
      fun s => filedRows s.store) =
      some ([(110, 107)], [(103, 63922608000000000, 63922607999999999)], [⟨107, 103⟩]) := by decide +kernel
  obtain ⟨s, hs, rows⟩ := Option.map_eq_some_iff.1 ends
  simp only [filedRows, Prod.mk.injEq] at rows
  obtain ⟨runs, events, links⟩ := rows
  obtain ⟨run, _, split, hrun, none_⟩ := List.map_eq_cons_iff.1 runs
  obtain rfl := List.map_eq_nil_iff.1 none_
  obtain ⟨event, _, alone, hevent, none_⟩ := List.map_eq_cons_iff.1 events
  obtain rfl := List.map_eq_nil_iff.1 none_
  obtain ⟨-, hincident⟩ : run.id = 110 ∧ run.incidentId = 107 := by simpa using hrun
  obtain ⟨hid, starts, observed⟩ : event.id = 103 ∧ event.startsAt = 63922608000000000 ∧
      event.observedAt = 63922607999999999 := by
    simpa using hevent
  have newest : Newest (contextRows s.store run.id run.incidentId) event := by
    refine ⟨mem_contextRows.2 ⟨⟨run, split ▸ List.mem_singleton_self _, rfl, rfl⟩, ⟨107, 103⟩,
      links ▸ List.mem_singleton_self _,
      hincident.symm, alone ▸ List.mem_singleton_self _, hid⟩, fun x hx => ?_⟩
    obtain ⟨-, _, -, -, hx, -⟩ := mem_contextRows.1 hx
    rw [alone, List.mem_singleton] at hx
    exact le_of_eq (congrArg AlertEvent.observedAt hx)
  refine ⟨s, hs, run, split ▸ List.mem_singleton_self _, some event, ⟨fun _ => Option.some_ne_none _, ?_⟩, ?_⟩
  · rintro _ ⟨rfl⟩
    exact newest
  · refine Option.eq_none_iff_forall_ne_some.2 fun context h => ?_
    have inTime := loadContext_isSome.1 ⟨context, h⟩
    rw [starts, observed] at inTime
    exact absurd inTime (by decide)

end SreAgent.Rca
