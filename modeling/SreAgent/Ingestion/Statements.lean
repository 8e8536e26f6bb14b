import Mathlib
import SreAgent.Base.Transaction
import SreAgent.Ingestion.Tables

/-!
# The SQL of ingestion

The statements of the three repositories as a dialect of transactions: what each one waits for, what
it answers and writes on the rows it sees. `INSERT` fails on a taken primary key; with `ON CONFLICT`
it answers nothing where the named unique key is taken. `uuid4` is a statement too: it answers
whatever the environment chooses.
-/

namespace SreAgent.Ingestion
open Base Transaction Alerts Outbox Lifecycle

/-! ## Documents -/

/-- A text without the NUL character. -/
def noNul (s : String) : Bool := s.toList.all (·.toNat ≠ 0)

mutual

/-- What `jsonb` takes: no NaN, no infinity, no NUL character. -/
def storable : Json → Bool
  | .float (.finite _) => true
  | .float _ => false
  | .str s => noNul s
  | .arr items => storableItems items
  | .obj fields => storableFields fields
  | _ => true

def storableItems : List Json → Bool
  | [] => true
  | v :: rest => storable v && storableItems rest

def storableFields : List (String × Json) → Bool
  | [] => true
  | (key, v) :: rest => noNul key && storable v && storableFields rest

end

/-! ## Statements -/

/-- The statements; the index is what a statement answers. -/
inductive Stmt : Type → Type where
  | uuid4 : Stmt Uuid
  | insertDelivery (row : WebhookDelivery) : Stmt Unit
  | updateDelivery (id : Uuid) (status : DeliveryStatus) (processedAt : Timestamp) : Stmt Unit
  | insertDedupKey (row : IngestionDedupKey) : Stmt Bool
  | insertEvent (row : AlertEvent) : Stmt Unit
  | upsertInstance (row : AlertInstance) : Stmt Unit
  | selectLatestResolved (identity : IdentityRef) : Stmt (Option Uuid)
  | insertIncident (row : Incident) : Stmt (Option Uuid)
  | selectActive (identity : IdentityRef) : Stmt (Option Uuid)
  | selectLatest (identity : IdentityRef) : Stmt (Option Uuid)
  | insertLink (row : IncidentAlert) : Stmt Unit
  | updateAlertState (id : Uuid) (state : AlertState) (updatedAt : Timestamp) : Stmt Unit
  | insertRun (row : RcaRun) : Stmt (Option Uuid)
  | selectActiveRun (incidentId : Uuid) : Stmt (Option Uuid)
  | insertJob (row : WorkerJob) : Stmt (Option Uuid)
  | selectJob (runId : Uuid) : Stmt (Option Uuid)
  | updatePayload (jobId : Uuid) (payload : Json) : Stmt Unit
  | insertOutboxEvent (row : OutboxEvent) : Stmt (Option Uuid)
  | selectOutboxEvent (key : String) : Stmt (Option Uuid)

/-- `ORDER BY opened_at DESC, id`. -/
def Incident.Newer (a b : Incident) : Prop := b.openedAt < a.openedAt ∨ a.openedAt = b.openedAt ∧ a.id ≤ b.id

instance : DecidableRel Incident.Newer := fun a b => by unfold Incident.Newer; infer_instance

/-- `ORDER BY resolved_at DESC NULLS LAST, opened_at DESC, id`. -/
def Incident.ResolvedLater (a b : Incident) : Prop :=
  match a.resolvedAt, b.resolvedAt with
  | some x, some y => y < x ∨ x = y ∧ a.Newer b
  | some _, none => True
  | none, some _ => False
  | none, none => a.Newer b

instance : DecidableRel Incident.ResolvedLater := fun a b => by
  unfold Incident.ResolvedLater; split <;> infer_instance

namespace Tables

variable (t : Tables)

/-- The incident `latest_resolved` selects. -/
def latestResolved (identity : IdentityRef) : Option Incident :=
  ((t.incidents.filter fun r => r.identity = identity ∧ r.status = .RESOLVED).insertionSort
    Incident.ResolvedLater).head?

/-- The active incident `get_or_create_active` falls back to. -/
def active (identity : IdentityRef) : Option Incident :=
  ((t.incidents.filter fun r => r.identity = identity ∧ r.status.Active).insertionSort Incident.Newer).head?

/-- The incident `lock_latest` selects. -/
def latest (identity : IdentityRef) : Option Incident :=
  ((t.incidents.filter fun r => r.identity = identity).insertionSort Incident.Newer).head?

/-- The active run of an incident. -/
def activeRun (incidentId : Uuid) : Option RcaRun :=
  t.runs.find? fun r => r.incidentId = incidentId ∧ ActiveRun r.status

end Tables

/-- A row lock where a row was found. -/
def lockFound (key : Uuid → Key) : Option Uuid → List Write
  | some id => [.lockRow (key id)]
  | none => []

/-- An `INSERT` that is left out where `conflict` holds and fails where `taken` does. -/
def insertUnless (conflict taken : Bool) (id : Uuid) (write : Write) (own : List Write) :
    Option (Option Uuid × List Write) :=
  if conflict then some (none, own) else if taken then none else some (some id, own ++ [write])

/-- What a statement answers and writes, on the rows it sees. -/
def Stmt.exec (view : Tables) (own : List Write) (c : Uuid) : {β : Type} → Stmt β → Option (β × List Write)
  | _, .uuid4 => some (c, own)
  | _, .insertDelivery row =>
    if view.deliveries.any fun r => r.id = row.id then none else some ((), own ++ [.insertDelivery row])
  | _, .updateDelivery id status processedAt => some ((), own ++ [.finishDelivery id status processedAt])
  | _, .insertDedupKey row =>
    if view.dedupKeys.any fun r => r.sourceId = row.sourceId ∧ r.dedupKey = row.dedupKey
      then some (false, own)
    else some (true, own ++ [.insertDedupKey row])
  | _, .insertEvent row =>
    if view.events.any fun r => r.id = row.id then none else some ((), own ++ [.insertEvent row])
  | _, .upsertInstance row => some ((), own ++ [.upsertInstance row])
  | _, .selectLatestResolved identity => some ((view.latestResolved identity).map (·.id), own)
  | _, .insertIncident row =>
    insertUnless (view.incidents.any fun r => r.identity = row.identity ∧ r.status.Active)
      (view.incidents.any fun r => r.id = row.id) row.id (.insertIncident row) own
  | _, .selectActive identity =>
    let found := (view.active identity).map (·.id)
    some (found, own ++ lockFound .incident found)
  | _, .selectLatest identity =>
    let found := (view.latest identity).map (·.id)
    some (found, own ++ lockFound .incident found)
  | _, .insertLink row =>
    some ((), if row ∈ view.links then own else own ++ [.insertLink row])
  | _, .updateAlertState id state updatedAt => some ((), own ++ [.setAlertState id state updatedAt])
  | _, .insertRun row =>
    insertUnless (view.runs.any fun r => r.id = row.id ∨
      (r.incidentId = row.incidentId ∧ ActiveRun r.status ∧ ActiveRun row.status))
      false row.id (.insertRun row) own
  | _, .selectActiveRun incidentId =>
    let found := (view.activeRun incidentId).map (·.id)
    some (found, own ++ lockFound .run found)
  | _, .insertJob row =>
    insertUnless (view.jobs.any fun r => r.rcaRunId = row.rcaRunId)
      (view.jobs.any fun r => r.id = row.id) row.id
      (.insertJob row) own
  | _, .selectJob runId => some ((view.jobs.find? fun r => r.rcaRunId = runId).map (·.id), own)
  | _, .updatePayload jobId payload => some ((), own ++ [.setPayload jobId payload])
  | _, .insertOutboxEvent row =>
    insertUnless (view.outboxEvents.any fun r => r.idempotencyKey = row.idempotencyKey)
      (view.outboxEvents.any fun r => r.id = row.id) row.id (.insertOutboxEvent row) own
  | _, .selectOutboxEvent key =>
    some ((view.outboxEvents.find? fun r => r.idempotencyKey = key).map (·.id), own)

/-- The unique keys and rows a statement waits for. -/
def Stmt.needs (view : Tables) : {β : Type} → Stmt β → List Key
  | _, .insertDelivery row => (Write.insertDelivery row).keys
  | _, .updateDelivery id status processedAt => (Write.finishDelivery id status processedAt).keys
  | _, .insertDedupKey row => (Write.insertDedupKey row).keys
  | _, .insertEvent row => (Write.insertEvent row).keys
  | _, .upsertInstance row => (Write.upsertInstance row).keys
  | _, .insertIncident row => (Write.insertIncident row).keys
  | _, .selectActive identity => ((view.active identity).map fun r => Key.incident r.id).toList
  | _, .selectLatest identity => ((view.latest identity).map fun r => Key.incident r.id).toList
  | _, .insertLink row => (Write.insertLink row).keys
  | _, .updateAlertState id state updatedAt => (Write.setAlertState id state updatedAt).keys
  | _, .insertRun row => (Write.insertRun row).keys
  | _, .selectActiveRun incidentId => ((view.activeRun incidentId).map fun r => Key.run r.id).toList
  | _, .insertJob row => (Write.insertJob row).keys
  | _, .updatePayload jobId payload => (Write.setPayload jobId payload).keys
  | _, .insertOutboxEvent row => (Write.insertOutboxEvent row).keys
  | _, .uuid4 | _, .selectLatestResolved _ | _, .selectJob _ | _, .selectOutboxEvent _ => []

/-- An insert writes its row, or finds the conflict it is to ignore. -/
theorem insertUnless_eq_some {conflict taken : Bool} {id : Uuid} {write : Write} {own own' : List Write}
    {answer : Option Uuid} :
    insertUnless conflict taken id write own = some (answer, own') ↔
      conflict = true ∧ answer = none ∧ own' = own ∨
      conflict = false ∧ taken = false ∧ answer = some id ∧ own' = own ++ [write] := by
  unfold insertUnless
  cases conflict <;> cases taken <;> simp [eq_comm]

/-- A row that is found is locked. -/
theorem heldKeys_lockFound (key : Uuid → Key) (found : Option Uuid) :
    heldKeys (lockFound key found) = (found.map key).toList := by
  cases found <;> rfl

/-- What a statement adds to the keys of its transaction it has waited for. -/
theorem Stmt.held_exec {β : Type} (s : Stmt β) {view : Tables} {own own' : List Write} {c : Uuid} {b : β}
    (h : s.exec view own c = some (b, own')) : ∀ k ∈ heldKeys own', k ∈ heldKeys own ∨ k ∈ s.needs view := by
  have append : ∀ write : Write, ∀ k ∈ heldKeys (own ++ [write]), k ∈ heldKeys own ∨ k ∈ write.keys := by
    intro write k hk
    rw [heldKeys_append, List.mem_append] at hk
    exact hk.imp_right fun hk => by simpa [heldKeys] using hk
  have locked : ∀ (key : Uuid → Key) (found : Option Incident),
    ∀ k ∈ heldKeys (own ++ lockFound key (found.map (·.id))),
      k ∈ heldKeys own ∨ k ∈ (found.map fun r => key r.id).toList := by
    intro key found k hk
    rw [heldKeys_append, List.mem_append, heldKeys_lockFound, Option.map_map] at hk
    exact hk
  cases s with
  | uuid4 | selectLatestResolved | selectJob | selectOutboxEvent =>
    cases h
    exact fun k hk => .inl hk
  | insertDelivery row | insertEvent row =>
    simp only [exec] at h
    split at h
    · cases h
    · cases h
      exact append _
  | insertDedupKey row =>
    simp only [exec] at h
    split at h
    · cases h
      exact fun k hk => .inl hk
    · cases h
      exact append _
  | updateDelivery | upsertInstance | updateAlertState | updatePayload =>
    cases h
    exact append _
  | insertLink row =>
    simp only [exec, Option.some.injEq, Prod.mk.injEq] at h
    obtain ⟨-, rfl⟩ := h
    split
    · exact fun k hk => .inl hk
    · exact append _
  | selectActive identity | selectLatest identity =>
    cases h
    exact locked .incident _
  | selectActiveRun incidentId =>
    cases h
    intro k hk
    rw [heldKeys_append, List.mem_append, heldKeys_lockFound, Option.map_map] at hk
    exact hk
  | insertIncident row | insertRun row | insertJob row | insertOutboxEvent row =>
    rcases insertUnless_eq_some.1 h with ⟨-, -, rfl⟩ | ⟨-, -, -, rfl⟩
    · exact fun k hk => .inl hk
    · exact append _

/-- The dialect of ingestion. -/
def sql : Dialect Stmt Uuid Tables (List Write) Key where
  merge := Tables.merge
  blank := []
  holds := heldKeys
  needs s _ store own := s.needs (store.merge own)
  run s c store own := s.exec (store.merge own) own c
  merge_blank _ := rfl
  holds_blank := rfl
  holds_run s _ _ _ _ _ h := s.held_exec h

end SreAgent.Ingestion
