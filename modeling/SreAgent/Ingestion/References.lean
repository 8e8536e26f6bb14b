import SreAgent.Ingestion.AlertFlags

/-!
# References of runs and links

A link is to an incident that is there, and the incident of a run has a link: ingestion links the
event that opens an incident before it creates the work of the incident.
-/

namespace SreAgent.Ingestion
open Base Transaction Alerts Outbox Lifecycle Pubsub

/-- A link is to an incident, and the incident of a run has a link. -/
structure Referenced (incidents : List IncidentRef) (runs : List RunRef) (links : List IncidentAlert) :
    Prop where
  linkIncident : ∀ link ∈ links, ∃ r ∈ incidents, r.id = link.incidentId
  runLink : ∀ run ∈ runs, ∃ link ∈ links, link.incidentId = run.incidentId

/-- The references of some tables. -/
abbrev Tables.Referenced (t : Tables) : Prop :=
  Ingestion.Referenced t.skeleton.incidents t.skeleton.runs t.skeleton.links

section

variable {b : Backend} {maxBodyBytes : Nat} {call : Call} {deliveryId : Uuid}
  {alert : CanonicalAlertEvent × Json}
  {alerts : List (CanonicalAlertEvent × Json)} {writes own : List Write} {progress after : Progress}
  {v : Skeleton} {store : Tables}

/-- What is filed of an event refers to incidents that are there. -/
theorem Filed.referenced {event : CanonicalAlertEvent} {identity : IncidentIdentity} {eventId : Uuid}
    {incidentId outboxEventId : Option Uuid}
    (h : Filed call event identity eventId v writes incidentId outboxEventId) :
    Referenced (v.incidents ++ (added writes).incidents) (added writes).runs (added writes).links := by
  cases h with
  | created =>
    constructor <;> simp [workWrites, Write.adds, Skeleton.empty, Incident.ref, IncidentValues.row,
      runRef, newRun]
  | reused _ known =>
    obtain ⟨r, hr, hid, -⟩ := known
    exact ⟨fun link hlink => ⟨r, List.mem_append_left _ hr, by simp_all [Write.adds, Skeleton.empty]⟩,
      fun _ mem => (by cases mem)⟩
  | resolved _ known =>
    obtain ⟨r, hr, hid, -⟩ := known
    exact ⟨fun link hlink => ⟨r, List.mem_append_left _ hr, by simp_all [Write.adds, Skeleton.empty]⟩,
      fun _ mem => (by cases mem)⟩
  | unknown => constructor <;> intro _ mem <;> cases mem

/-- References resolve among more incidents. -/
theorem Referenced.mono {incidents more : List IncidentRef} {runs : List RunRef} {links : List IncidentAlert}
    (h : Referenced incidents runs links) (sub : incidents ⊆ more) : Referenced more runs links where
  linkIncident link hlink := by
    obtain ⟨r, hr, hid⟩ := h.linkIncident link hlink
    exact ⟨r, sub hr, hid⟩
  runLink := h.runLink

/-- References of two parts resolve together. -/
theorem Referenced.append {incidents : List IncidentRef} {runs runs' : List RunRef}
    {links links' : List IncidentAlert} (h : Referenced incidents runs links)
    (h' : Referenced incidents runs' links') :
    Referenced incidents (runs ++ runs') (links ++ links') where
  linkIncident link hlink := (List.mem_append.1 hlink).elim (h.linkIncident link) (h'.linkIncident link)
  runLink run hrun := by
    rcases List.mem_append.1 hrun with hrun | hrun
    · obtain ⟨link, hlink, same⟩ := h.runLink run hrun
      exact ⟨link, List.mem_append_left _ hlink, same⟩
    · obtain ⟨link, hlink, same⟩ := h'.runLink run hrun
      exact ⟨link, List.mem_append_right _ hlink, same⟩

/-- The turn of an alert adds references that resolve. -/
theorem Turn.referenced (h : Turn b call deliveryId v alert writes progress after) :
    Referenced (v.incidents ++ (added writes).incidents) (added writes).runs (added writes).links := by
  cases h with
  | duplicate => exact ⟨nofun, nofun⟩
  | claimed _ _ filed =>
    have := filed.referenced
    simpa [claimWrites, Write.adds, Skeleton.empty] using this

/-- The rows of the turns refer to rows. -/
theorem Turns.referenced (h : Turns b call deliveryId v alerts writes progress after) :
    Referenced (v.incidents ++ (added writes).incidents) (added writes).runs (added writes).links := by
  induction h with
  | nil => exact ⟨nofun, nofun⟩
  | cons turn _ ih =>
    simp only [added_append, Skeleton.append_incidents, Skeleton.append_runs, Skeleton.append_links,
      List.append_assoc] at ih ⊢
    refine (turn.referenced.mono ?_).append ih
    rw [← List.append_assoc]
    exact List.subset_append_left _ _

/-- A commit keeps the references. -/
theorem Executed.referenced {result : IngestionResult}
    (h : Executed b maxBodyBytes call store.skeleton result own) (referenced : store.Referenced) :
    (store.merge own).Referenced := by
  rw [Tables.Referenced, skeleton_merge, Skeleton.append_incidents, Skeleton.append_runs,
    Skeleton.append_links]
  refine (referenced.mono (List.subset_append_left _ _)).append ?_
  cases h with
  | intro _ _ _ _ turns =>
    have := turns.referenced
    simpa [Write.adds, Skeleton.empty] using this

end

theorem referenced_empty : Tables.empty.Referenced := ⟨nofun, nofun⟩

section

variable {b : Backend} {maxBodyBytes : Nat} {publishing : Bool} {start : Tables}
  {s : Server Stmt Call IngestionResult Tables (List Write) Uuid}

/-- In every reachable state links and runs refer to rows. -/
theorem reachable_referenced (wf : start.skeleton.WellFormed) (referenced : start.Referenced)
    (h : (ingestion b maxBodyBytes publishing start).Reachable s) : s.store.Referenced := by
  obtain ⟨first, ⟨same, none_⟩, run⟩ := h
  have started : (ingestion b maxBodyBytes publishing start).Reachable first := .init ⟨same, none_⟩
  induction run with
  | refl => exact same ▸ referenced
  | tail run _ hstep ih =>
    rcases (ingestion_sound wf (started.steps run)).step_store hstep with ⟨-, kept⟩ |
      ⟨_, _, _, _, -, -, ended, rfl⟩
    · exact kept ▸ ih
    · exact ended.executed.referenced ih

end

end SreAgent.Ingestion
