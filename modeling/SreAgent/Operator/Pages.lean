import SreAgent.Operator.Reads

/-!
# Pages of incidents and runs

Following `next_cursor` through `list_incidents`, or through `list_rca_runs` of an incident, yields
every row once, newest first, whatever the limits of the pages; a run has the number of its rank on
every page (`pages_exact`).
-/

namespace SreAgent.Operator
open Base Iso Ingestion Lifecycle

/-! ## Cursors as keys -/

/-- The cursor of a position. -/
def cursorOf (k : Lex (Instant × Fin (2 ^ 128))) : String :=
  encodeCursor (.utc (ofLex k).1) (BitVec.ofFin (ofLex k).2)

/-- What the cursor of a position decodes to. -/
theorem decodeCursor_cursorOf (cursor : Option (Lex (Instant × Fin (2 ^ 128)))) :
    decodeCursor (cursor.map cursorOf) =
      .ok (cursor.map fun k => (.utc (ofLex k).1, BitVec.ofFin (ofLex k).2)) := by
  cases cursor with
  | none => rfl
  | some k => exact decodeCursor_utc _ _

namespace Database

/-- The condition of a cursor is the order of positions. -/
theorem afterCursor_iff (cursor : Option (Lex (Instant × Fin (2 ^ 128)))) (instant : Instant) (id : Uuid) :
    afterCursor (cursor.map fun k => (.utc (ofLex k).1, BitVec.ofFin (ofLex k).2)) instant id =
      cursor.all fun k => position instant id < k := by
  cases cursor with
  | none => rfl
  | some k =>
    have utc : (AwareDatetime.utc (ofLex k).1).instant = ((ofLex k).1.val : Int) := Int.sub_zero _
    rw [Option.map_some, Option.all_some, afterCursor, Option.all_some]
    dsimp only
    rw [utc, decide_eq_decide, position, Prod.Lex.lt_iff]
    simp only [Fin.lt_def, Fin.ext_iff, Nat.cast_lt, Nat.cast_inj]
    rfl

/-- A row below a row behind the cursor is behind it as well. -/
theorem afterCursor_mono {cursor : Option (AwareDatetime × Uuid)} {instant instant' : Instant} {id id' : Uuid}
    (lt : position instant id < position instant' id') (h : afterCursor cursor instant' id' = true) :
    afterCursor cursor instant id = true := by
  cases cursor with
  | none => rfl
  | some cursor =>
    rw [position, position, Prod.Lex.toLex_lt_toLex] at lt
    simp only [Fin.lt_def, Fin.ext_iff] at lt
    have lt' : instant.val < instant'.val ∨ instant.val = instant'.val ∧ id.toNat < id'.toNat := lt
    simp only [afterCursor, Option.all_some, decide_eq_true_eq] at h ⊢
    omega

/-! ## Joins -/

/-- A left join with at most one row. -/
theorem leftJoin_eq {α : Type*} {rows : List α} (h : rows.length ≤ 1) : leftJoin rows = [rows.head?] := by
  match rows, h with
  | [], _ => rfl
  | [row], _ => rfl

/-- At most one row has a given key. -/
theorem filter_key_le_one {α κ : Type*} [DecidableEq κ] {key : α → κ} {rows : List α}
    (keyed : Table.Keyed key rows) (k : κ) :
    (rows.filter fun row => key row = k).length ≤ 1 := by
  have nodup : ((rows.filter fun row => key row = k).map key).Nodup :=
    (List.filter_sublist.map key).nodup keyed
  have all : ∀ x ∈ (rows.filter fun row => key row = k).map key, x = k := by
    intro x hx
    obtain ⟨row, hrow, rfl⟩ := List.mem_map.1 hx
    exact of_decide_eq_true (List.mem_filter.1 hrow).2
  rw [← List.length_map (f := key)]
  match (rows.filter fun row => key row = k).map key, nodup, all with
  | [], _, _ => exact Nat.zero_le 1
  | [_], _, _ => exact Nat.le_refl 1
  | a :: b :: _, nodup, all =>
    have same : a = b := (all a (by simp)).trans (all b (by simp)).symm
    exact absurd same (List.pairwise_cons.1 nodup |>.1 b List.mem_cons_self)

/-- A stored row is the only one of its key. -/
theorem filter_key {α κ : Type*} [DecidableEq κ] {key : α → κ} {rows : List α}
    (keyed : Table.Keyed key rows) {row : α} (h : row ∈ rows) :
    (rows.filter fun r => key r = key row) = [row] := by
  have mem : row ∈ rows.filter fun r => key r = key row := List.mem_filter.2 ⟨h, decide_eq_true rfl⟩
  match (rows.filter fun r => key r = key row), filter_key_le_one keyed (key row), mem with
  | [other], _, mem => rw [List.mem_singleton.1 mem]

section Joined

variable {db : Database} (wf : db.WellFormed)

include wf

/-- The joined row of an incident. -/
def joinedIncident (db : Database) (incident : IncidentRow) : IncidentRow × Option Subject × Option RunRow :=
  (incident, (db.assignees incident).head?, (db.latestRca incident).head?)

/-- An incident has at most one assignee listed. -/
theorem assignees_le_one (incident : IncidentRow) : (db.assignees incident).length ≤ 1 := by
  cases assigned : incident.assignedTo with
  | none => simp [assignees, assigned]
  | some id =>
    have same : db.assignees incident = db.subjects.filter fun subject => subject.id = id := by
      simp [assignees, assigned]
    rw [same]
    exact filter_key_le_one wf.subjects id

/-- Each incident has one joined row. -/
theorem joinedIncidents_eq : db.joinedIncidents = db.incidents.map db.joinedIncident := by
  unfold joinedIncidents
  have one (incident : IncidentRow) : ((leftJoin (db.assignees incident)).flatMap fun assignee =>
      (leftJoin (db.latestRca incident)).map fun run => (incident, assignee, run)) =
        [db.joinedIncident incident] := by
    rw [leftJoin_eq (assignees_le_one wf incident),
      leftJoin_eq (show (db.latestRca incident).length ≤ 1 from List.length_take_le 1 _)]
    rfl
  simp only [one]
  exact List.flatMap_pure_eq_map _ _

end Joined

/-! ## Pages -/

section Pages

variable {ρ α : Type} {instant : ρ → Instant} {id : ρ → Uuid} {rows : List ρ}

/-- Positions are as distinct as the identifiers. -/
theorem keyed_position (keyed : Table.Keyed id rows) :
    Table.Keyed (fun row => position (instant row) (id row)) rows := by
  refine List.Nodup.of_map (fun k => BitVec.ofFin (ofLex k).2) ?_
  rw [List.map_map]
  exact keyed

/-- A page of a query in descending order of position. -/
theorem toPage_eq (limit : Nat) (cursor : Option (Lex (Instant × Fin (2 ^ 128)))) (show_ : ρ → α) :
    toPage limit ((Keyset.descending (fun row => position (instant row) (id row))
        (rows.filter fun row => afterCursor
          (cursor.map fun k => (.utc (ofLex k).1, BitVec.ofFin (ofLex k).2)) (instant row) (id row))).take
          (limit + 1)) show_ instant id =
      ((Keyset.page (fun row => position (instant row) (id row)) cursor limit rows).1.map show_,
        (Keyset.page (fun row => position (instant row) (id row)) cursor limit rows).2.map cursorOf) := by
  simp only [afterCursor_iff]
  unfold toPage Keyset.page Keyset.below
  dsimp only
  split
  · rw [Option.map_map]
    rfl
  · rfl

end Pages

/-- A page holds at least one row. -/
theorem boundedLimit_pos (limit : Int) : 0 < boundedLimit limit := by
  unfold boundedLimit
  omega

/-! ## Incidents -/

section Incidents

variable {db : Database} (wf : db.WellFormed) (identity : OperatorIdentity)

/-- The joined rows of the incidents an identity may read. -/
def authorizedRows (db : Database) (identity : OperatorIdentity) :
    List (IncidentRow × Option Subject × Option RunRow) :=
  db.joinedIncidents.filter fun row => db.authorized identity row.1

/-- A page of incidents is a page of the rows the identity may read. -/
theorem listIncidents_page (cursor : Option (Lex (Instant × Fin (2 ^ 128)))) (limit : Int) :
    db.listIncidents identity (cursor.map cursorOf) limit =
      .ok ((Keyset.page (fun row => position row.1.updatedAt row.1.id) cursor (boundedLimit limit)
          (db.authorizedRows identity)).1.map
          incidentItem,
        (Keyset.page (fun row => position row.1.updatedAt row.1.id) cursor (boundedLimit limit)
          (db.authorizedRows identity)).2.map
          cursorOf) := by
  have rows (cursor : Option (AwareDatetime × Uuid)) :
      (db.joinedIncidents.filter fun row => db.authorized identity row.1 &&
        afterCursor cursor row.1.updatedAt row.1.id) =
      (db.authorizedRows identity).filter fun row => afterCursor cursor row.1.updatedAt row.1.id := by
    rw [authorizedRows, List.filter_filter]
    exact List.filter_congr fun row _ => Bool.and_comm _ _
  rw [listIncidents, decodeCursor_cursorOf, ← toPage_eq]
  change Except.ok (toPage _ _ _ _ _) = Except.ok (toPage _ _ _ _ _)
  rw [rows]

include wf

theorem authorizedRows_map :
    (db.authorizedRows identity).map Prod.fst = db.incidents.filter (db.authorized identity) := by
  rw [authorizedRows, joinedIncidents_eq wf, List.filter_map, List.map_map]
  exact List.map_id _

theorem authorizedRows_keyed : Table.Keyed (fun row => row.1.id) (db.authorizedRows identity) := by
  have same : (db.authorizedRows identity).map (fun row => row.1.id) =
      (db.incidents.filter (db.authorized identity)).map IncidentRow.id := by
    rw [← authorizedRows_map wf, List.map_map]
    rfl
  rw [Table.Keyed, same]
  exact (List.filter_sublist.map _).nodup wf.incidents

/-- Following the cursors yields every incident the identity may read once, from the one updated last. -/
theorem incidents_exact (limits : Nat → Int) : ∃ pages items,
    Keyset.follow (db.listIncidents identity) limits pages none = .ok (some items) ∧
    (items.map IncidentItem.incident).Perm (db.incidents.filter (db.authorized identity)) ∧
    items.Pairwise fun a b => position b.incident.updatedAt b.incident.id <
      position a.incident.updatedAt a.incident.id := by
  have keyed : Table.Keyed (fun row => position row.1.updatedAt row.1.id) (db.authorizedRows identity) :=
    keyed_position (authorizedRows_keyed wf identity)
  have exact_ :=
    Keyset.follow_pages keyed incidentItem cursorOf boundedLimit boundedLimit_pos
      (listIncidents_page identity) limits
    none (Nat.lt_succ_self _)
  have all : Keyset.below (fun row : IncidentRow × Option Subject × Option RunRow =>
    position row.1.updatedAt row.1.id) none
      (Keyset.descending (fun row => position row.1.updatedAt row.1.id) (db.authorizedRows identity)) =
      Keyset.descending (fun row => position row.1.updatedAt row.1.id) (db.authorizedRows identity) :=
    List.filter_eq_self.2 fun _ _ => rfl
  rw [all] at exact_
  refine ⟨_, _, exact_, ?_, ?_⟩
  · rw [List.map_map, ← authorizedRows_map wf identity]
    exact (Keyset.descending_perm _).map Prod.fst
  · exact List.pairwise_map.2 (Keyset.descending_pairwise keyed)

/-- An incident the identity may read. -/
theorem getIncident_of_authorized {incident : IncidentRow} (stored : incident ∈ db.incidents)
    (authorized : db.authorized identity incident = true) :
    ∃ detail, db.getIncident identity incident.id = .ok detail := by
  have one : (db.joinedIncidents.filter fun row => row.1.id = incident.id && db.authorized identity row.1) =
      [db.joinedIncident incident] := by
    rw [joinedIncidents_eq wf, List.filter_map]
    have alone :
      (db.incidents.filter ((fun row => row.1.id = incident.id && db.authorized identity row.1) ∘
          db.joinedIncident)) =
        (db.incidents.filter fun row => row.id = incident.id).filter (db.authorized identity) := by
      rw [List.filter_filter]
      exact List.filter_congr fun row _ => Bool.and_comm _ _
    rw [alone, filter_key wf.incidents stored, List.filter_cons_of_pos authorized]
    rfl
  rw [getIncident, one]
  exact ⟨_, rfl⟩

end Incidents

/-! ## Runs -/

section Runs

variable {db : Database} (wf : db.WellFormed) (incidentId : Uuid)

/-- The runs of an incident, each with its newest report. -/
def joinedRuns (db : Database) (incidentId : Uuid) : List (RunRow × Option ReportRow) :=
  (db.runs.filter fun run => run.incidentId = incidentId).map fun run => (run, (db.latestReport run).head?)

theorem joinedRuns_eq (cursor : Option (AwareDatetime × Uuid)) :
    ((db.runs.flatMap fun run => (leftJoin (db.latestReport run)).map fun report => (run, report)).filter
      fun row =>
      row.1.incidentId = incidentId && afterCursor cursor row.1.createdAt row.1.id) =
    (db.joinedRuns incidentId).filter fun row => afterCursor cursor row.1.createdAt row.1.id := by
  have one (run : RunRow) : ((leftJoin (db.latestReport run)).map fun report => (run, report)) =
      [(run, (db.latestReport run).head?)] := by
    rw [leftJoin_eq (show (db.latestReport run).length ≤ 1 from List.length_take_le 1 _)]
    rfl
  have joined : (db.runs.flatMap fun run => (leftJoin (db.latestReport run)).map fun report =>
    (run, report)) =
      db.runs.map fun run => (run, (db.latestReport run).head?) := by
    simp only [one]
    exact List.flatMap_pure_eq_map _ _
  rw [joined, joinedRuns, List.filter_map, List.filter_map, List.filter_filter]
  congr 1
  refine List.filter_congr fun run _ => ?_
  exact Bool.and_comm _ _

/-- The numbered runs are those of the incident. -/
theorem numberedRuns_runs :
    ((db.numberedRuns incidentId none).map Prod.fst).Perm
      (db.runs.filter fun run => run.incidentId = incidentId) := by
  have everything : (db.joinedRuns incidentId).filter
      (fun row => afterCursor none row.1.createdAt row.1.id) = db.joinedRuns incidentId :=
    List.filter_eq_self.2 fun _ _ => rfl
  rw [numberedRuns, joinedRuns_eq, everything]
  dsimp only
  rw [List.map_map]
  change (List.map (Prod.fst ∘ Prod.fst) _).Perm _
  rw [← List.map_map, List.zipIdx_map_fst]
  refine ((List.perm_insertionSort _ _).map Prod.fst).trans ?_
  rw [joinedRuns, List.map_map]
  exact List.Perm.of_eq (List.map_id _)

include wf

theorem joinedRuns_keyed : Table.Keyed (fun row => row.1.id) (db.joinedRuns incidentId) := by
  rw [Table.Keyed, joinedRuns, List.map_map]
  exact (List.filter_sublist.map _).nodup wf.runs

/-- The condition of a cursor and the numbers of the rows commute. -/
theorem numberedRuns_eq (cursor : Option (AwareDatetime × Uuid)) : db.numberedRuns incidentId cursor =
    (db.numberedRuns incidentId none).filter fun row => afterCursor cursor row.1.createdAt row.1.id := by
  have keyed : Table.Keyed (fun row => position row.1.createdAt row.1.id) (db.joinedRuns incidentId) :=
    keyed_position (joinedRuns_keyed wf incidentId)
  have dual : Table.Keyed (OrderDual.toDual ∘ fun row : RunRow × Option ReportRow =>
    position row.1.createdAt row.1.id)
      (db.joinedRuns incidentId) := keyed
  have ordered := Keyset.descending_filter dual
  have closed :
    (Keyset.descending (OrderDual.toDual ∘ fun row : RunRow × Option ReportRow =>
        position row.1.createdAt row.1.id)
      (db.joinedRuns incidentId)).Pairwise fun a b => afterCursor cursor b.1.createdAt b.1.id = true →
        afterCursor cursor a.1.createdAt a.1.id = true :=
    (Keyset.descending_pairwise dual).imp fun lt => afterCursor_mono lt
  have everything : (db.joinedRuns incidentId).filter
      (fun row => afterCursor none row.1.createdAt row.1.id) = db.joinedRuns incidentId :=
    List.filter_eq_self.2 fun _ _ => rfl
  have sorted := Keyset.zipIdx_filter closed 0
  rw [← ordered] at sorted
  rw [numberedRuns, numberedRuns, joinedRuns_eq, joinedRuns_eq, everything]
  dsimp only
  change ((Keyset.descending
    (OrderDual.toDual ∘ fun row : RunRow × Option ReportRow => position row.1.createdAt row.1.id)
    _).zipIdx.map _) = _
  rw [sorted, List.filter_map]
  rfl

/-- A run has the number of its rank among the runs of its incident. -/
theorem number_eq_rank {row : RunRow × Nat × Option ReportRow} (h : row ∈ db.numberedRuns incidentId none) :
    row.2.1 = (db.runs.filter fun run => run.incidentId = incidentId ∧
      position run.createdAt run.id < position row.1.createdAt row.1.id).length + 1 := by
  have everything : (db.joinedRuns incidentId).filter
      (fun row => afterCursor none row.1.createdAt row.1.id) = db.joinedRuns incidentId :=
    List.filter_eq_self.2 fun _ _ => rfl
  rw [numberedRuns, joinedRuns_eq, everything] at h
  obtain ⟨⟨⟨run, report⟩, index⟩, hmem, rfl⟩ := List.mem_map.1 h
  have keyed : Table.Keyed (fun row : RunRow × Option ReportRow => position row.1.createdAt row.1.id)
      (db.joinedRuns incidentId) :=
    keyed_position (joinedRuns_keyed wf incidentId)
  have rank := Keyset.index_eq_rank keyed hmem
  rw [joinedRuns, List.filter_map, List.length_map, List.filter_filter] at rank
  change index + 1 = _
  rw [rank]
  congr 2
  refine List.filter_congr fun other _ => ?_
  rw [Bool.decide_and, Bool.and_comm]
  rfl

theorem numberedRuns_keyed : Table.Keyed (fun row => row.1.id) (db.numberedRuns incidentId none) := by
  have ids : (db.numberedRuns incidentId none).map (fun row => row.1.id) =
      ((db.numberedRuns incidentId none).map Prod.fst).map RunRow.id := by
    rw [List.map_map]
    rfl
  rw [Table.Keyed, ids, ((numberedRuns_runs incidentId).map RunRow.id).nodup_iff]
  exact (List.filter_sublist.map _).nodup wf.runs

/-- The item of a numbered run. -/
def runItem : RunRow × Nat × Option ReportRow → RunItem
  | (run, number, report) => ⟨run, number, report.map ReportRow.id⟩

/-- The runs of a page. -/
theorem listRcaRuns_eq {identity : OperatorIdentity} {detail : IncidentDetail}
    (h : db.getIncident identity incidentId = .ok detail) {cursor : Option String}
    {decoded : Option (AwareDatetime × Uuid)} (hcursor : decodeCursor cursor = .ok decoded) (limit : Int) :
    db.listRcaRuns identity incidentId cursor limit =
      .ok (toPage (boundedLimit limit) ((Keyset.descending (fun row => position row.1.createdAt row.1.id)
        ((db.numberedRuns incidentId none).filter fun row =>
          afterCursor decoded row.1.createdAt row.1.id)).take (boundedLimit limit + 1))
        runItem (fun row => row.1.createdAt) (fun row => row.1.id)) := by
  rw [listRcaRuns, h, hcursor, ← numberedRuns_eq wf]
  rfl

/-- Following the cursors yields every run of an incident once, from the newest. -/
theorem runs_exact {identity : OperatorIdentity} {detail : IncidentDetail}
    (h : db.getIncident identity incidentId = .ok detail) (limits : Nat → Int) : ∃ pages items,
    Keyset.follow (db.listRcaRuns identity incidentId) limits pages none = .ok (some items) ∧
    (items.map RunItem.run).Perm (db.runs.filter fun run => run.incidentId = incidentId) ∧
    items.Pairwise fun a b => position b.run.createdAt b.run.id < position a.run.createdAt a.run.id := by
  have keyed : Table.Keyed (fun row => position row.1.createdAt row.1.id) (db.numberedRuns incidentId none) :=
    keyed_position (numberedRuns_keyed wf incidentId)
  have pages (cursor : Option (Lex (Instant × Fin (2 ^ 128)))) (limit : Int) :
      db.listRcaRuns identity incidentId (cursor.map cursorOf) limit =
        .ok
          ((Keyset.page (fun row => position row.1.createdAt row.1.id) cursor (boundedLimit limit)
              (db.numberedRuns incidentId none)).1.map
            runItem,
          (Keyset.page (fun row => position row.1.createdAt row.1.id) cursor (boundedLimit limit)
            (db.numberedRuns incidentId none)).2.map
            cursorOf) := by
    rw [listRcaRuns_eq wf incidentId h (decodeCursor_cursorOf cursor), toPage_eq]
  have exact_ :=
    Keyset.follow_pages keyed runItem cursorOf boundedLimit boundedLimit_pos pages limits
      none (Nat.lt_succ_self _)
  have all : Keyset.below (fun row : RunRow × Nat × Option ReportRow =>
    position row.1.createdAt row.1.id) none
      (Keyset.descending (fun row => position row.1.createdAt row.1.id) (db.numberedRuns incidentId none)) =
      Keyset.descending (fun row => position row.1.createdAt row.1.id) (db.numberedRuns incidentId none) :=
    List.filter_eq_self.2 fun _ _ => rfl
  rw [all] at exact_
  refine ⟨_, _, exact_, ?_, ?_⟩
  · rw [List.map_map]
    exact ((Keyset.descending_perm _).map Prod.fst).trans (numberedRuns_runs incidentId)
  · exact List.pairwise_map.2 (Keyset.descending_pairwise keyed)

/-- Whatever the cursor, a run of a page has the number of its rank. -/
theorem runNumber_eq_rank {identity : OperatorIdentity} {cursor : Option String} {limit : Int}
    {items : List RunItem} {next : Option String}
    (h : db.listRcaRuns identity incidentId cursor limit = .ok (items, next)) {found : RunItem}
    (mem : found ∈ items) :
    found.runNumber = (db.runs.filter fun run => run.incidentId = incidentId ∧
      position run.createdAt run.id < position found.run.createdAt found.run.id).length + 1 := by
  match readable : db.getIncident identity incidentId, decoded : decodeCursor cursor with
  | .error e, _ =>
    rw [listRcaRuns, readable] at h
    cases h
  | .ok detail, .error e =>
    rw [listRcaRuns, readable, decoded] at h
    cases h
  | .ok detail, .ok position =>
    rw [listRcaRuns_eq wf incidentId readable decoded] at h
    cases h
    obtain ⟨row, hrow, rfl⟩ := List.mem_map.1 mem
    have stored := (Keyset.descending_perm _).subset (List.mem_of_mem_take (List.mem_of_mem_take hrow))
    exact number_eq_rank wf incidentId (List.mem_of_mem_filter stored)

end Runs

/-- Keyset pagination of incidents and runs is exact and a run has the number of its rank; a cursor
reads back exactly if its offset is zero or a second at least, and every other text is read or
refused. -/
theorem pages_exact {db : Database} (wf : db.WellFormed) (identity : OperatorIdentity) (limits : Nat → Int) :
    (∃ pages items, Keyset.follow (db.listIncidents identity) limits pages none = .ok (some items) ∧
      (items.map IncidentItem.incident).Perm (db.incidents.filter (db.authorized identity)) ∧
      items.Pairwise fun a b => position b.incident.updatedAt b.incident.id <
        position a.incident.updatedAt a.incident.id) ∧
    (∀ incident ∈ db.incidents, db.authorized identity incident = true → ∃ pages items,
      Keyset.follow (db.listRcaRuns identity incident.id) limits pages none = .ok (some items) ∧
      (items.map RunItem.run).Perm (db.runs.filter fun run => run.incidentId = incident.id) ∧
      items.Pairwise fun a b => position b.run.createdAt b.run.id < position a.run.createdAt a.run.id) ∧
    (∀ incidentId cursor limit items next, db.listRcaRuns identity incidentId cursor limit =
      .ok (items, next) → ∀ found ∈ items,
      found.runNumber = (db.runs.filter fun run => run.incidentId = incidentId ∧
        position run.createdAt run.id < position found.run.createdAt found.run.id).length + 1) ∧
    (∀ timestamp resourceId, decodeCursor (some (encodeCursor timestamp resourceId)) =
      .ok (some (timestamp, resourceId)) ↔
      timestamp.offset = 0 ∨ 1000000 ≤ timestamp.offset.natAbs) ∧
    ∀ cursor, (∃ decoded, decodeCursor (some cursor) = .ok (some decoded)) ∨
      decodeCursor (some cursor) = .error .cursorInvalid := by
  refine ⟨incidents_exact wf identity limits, fun incident stored authorized => ?_, ?_,
    decodeCursor_encodeCursor_iff, decodeCursor_total⟩
  · obtain ⟨detail, readable⟩ := getIncident_of_authorized wf identity stored authorized
    exact runs_exact wf incident.id readable limits
  · exact fun incidentId cursor limit items next h found mem => runNumber_eq_rank wf incidentId h mem

theorem fractionOfSecond : -(dayLength : Int) < 400000 ∧ 400000 < (dayLength : Int) := by decide

theorem calendarStart : 0 < calendarLength := by decide

/-- The start of the calendar in a zone that is less than a second ahead of UTC. -/
def shiftedStart : AwareDatetime := ⟨0, 400000, calendarStart, fractionOfSecond⟩

/-- Its cursor does not read back. -/
theorem shifted_cursor_lost : ¬ ∀ timestamp resourceId,
    decodeCursor (some (encodeCursor timestamp resourceId)) = .ok (some (timestamp, resourceId)) := by
  intro every
  have back := (decodeCursor_encodeCursor_iff shiftedStart 1).1 (every shiftedStart 1)
  revert back
  decide

instance instNeZeroMoments : NeZero 100 := ⟨by decide⟩

/-- One of the first microseconds of the calendar. -/
def moment : Fin 100 → Instant := Fin.castLE (by decide)

/-- An incident of one team. -/
def teamIncident (id team : Uuid) (updatedAt : Instant) : IncidentRow :=
  ⟨id, 7, "checkout errors", "SEV1", .OPEN, .FIRING, none, none, none, ⟨some team, none, none, none⟩, none,
    none, none, moment 0, updatedAt, none, 1⟩

/-- Two incidents updated at once, of the two teams of two operators, and two runs of the first
created at once. -/
def tied : Database where
  subjects := [⟨1, "ann", none⟩, ⟨2, "bob", none⟩]
  grants := [⟨1, ⟨some 10, none, none, none⟩⟩, ⟨2, ⟨some 20, none, none, none⟩⟩]
  incidents := [teamIncident 3 10 (moment 5), teamIncident 4 20 (moment 5)]
  links := []
  events := []
  instances := []
  runs :=
    [⟨5, 3, moment 9, ⟨.SUCCEEDED, none, none, moment 9, none⟩⟩,
      ⟨6, 3, moment 9, ⟨.QUEUED, none, none, moment 9, none⟩⟩]
  reports := []
  evidence := []

theorem tied_wellFormed : tied.WellFormed := by
  refine ⟨?_, ?_, ?_, ?_, ?_, ?_, ?_, ?_, ?_, ?_, ?_, ?_, ?_⟩
  all_goals
    first
    | exact List.forall_mem_nil _
    | (unfold Table.Keyed; decide)
    | decide

/-- One row to a page, both runs are read, from the larger identifier down. -/
theorem tied_pages_exact :
    ∃ pages items, Keyset.follow (tied.listRcaRuns ⟨"ann", false⟩ 3) (fun _ => 1) pages none =
      .ok (some items) ∧
    (items.map RunItem.run).Perm (tied.runs.filter fun run => run.incidentId = 3) := by
  obtain ⟨pages, items, read, perm, -⟩ :=
    (pages_exact tied_wellFormed ⟨"ann", false⟩ fun _ => 1).2.1 (teamIncident 3 10 (moment 5))
    List.mem_cons_self (by decide)
  exact ⟨pages, items, read, perm⟩

end Database

end SreAgent.Operator
