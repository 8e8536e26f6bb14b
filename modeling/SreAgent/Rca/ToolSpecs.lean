import SreAgent.Rca.EvidenceTools

/-!
# What the parts of a tool call do

One lemma for each procedure of a session. All but the inserts and the caches only read: what they
leave is what they found and the rows other transactions have committed meanwhile.
-/

namespace SreAgent.Rca
open Base Procedure

/-! ## What the environment does -/

/-- The rows committed meanwhile. -/
def committed : List Answer → List EvidenceRecord := List.flatMap fun answer => match answer with
  | .done rows => rows
  | _ => []

/-- Other transactions do no more than add rows. -/
theorem acts_eq (used : List Answer) (b : Branch) :
    acts Answer.act used b = b.meanwhile (committed used) := by
  induction used generalizing b with
  | nil => exact congrArg (fun records => { b with records }) (List.append_nil b.records).symm
  | cons answer used ih =>
    change acts Answer.act used (answer.act b) = _
    rw [ih]
    cases answer
    case done rows =>
      exact congrArg (fun records => { b with records }) (List.append_assoc b.records rows (committed used))
    all_goals rfl

/-- A reading of the clock before the deadline, and none but readings of the clock after it. -/
def Checked (deadline : Timestamp) (used : List Answer) : Prop :=
  ∃ before now after, used = before ++ .clock (some now) :: after ∧ now < deadline ∧ ∀ answer ∈ after,
    ∃ reading, answer = .clock reading

theorem Checked.append {deadline : Timestamp} {used : List Answer} (earlier : List Answer)
    (h : Checked deadline used) :
    Checked deadline (earlier ++ used) := by
  obtain ⟨before, now, after, rfl, lt, clocks⟩ := h
  exact ⟨earlier ++ before, now, after, (List.append_assoc _ _ _).symm, lt, clocks⟩

theorem Checked.append_nil {deadline : Timestamp} {used : List Answer} (h : Checked deadline used) :
    Checked deadline (used ++ []) := by
  rwa [List.append_nil]

/-- Procedures that only read. -/
abbrev ToolReads (env : Answer → Prop) {α : Type} (x : ToolM α) (b : Branch)
    (P : α → List Answer → Prop) : Prop :=
  x.Reads env Answer.act b P

namespace EvidenceToolSession

variable {env : Answer → Prop} {checks : Checks} {config : SessionConfig} {b : Branch}

/-! ## The clock and the deadline -/

theorem answer_reads : ToolReads env answer b fun a used => env a ∧ used = [a] := reads_ask

theorem clock_reads : ToolReads env clock b fun now used => used = [.clock now] := by
  refine answer_reads.bind ?_
  rintro a _ ⟨-, rfl⟩
  cases a
  case clock now => exact reads_pure rfl
  all_goals exact reads_stop

theorem awaiting_reads : ToolReads env awaiting b fun _ _ => True := by
  refine answer_reads.bind ?_
  rintro a _ ⟨-, rfl⟩
  cases a
  case done => exact reads_pure trivial
  case raises e => exact reads_raise e
  all_goals exact reads_stop

/-- Once the check passes the clock read a moment before the deadline. -/
theorem ensureBeforeDeadline_reads : ToolReads env (ensureBeforeDeadline config) b fun _ used =>
    ∃ now, used = [.clock (some now)] ∧ now < config.deadline := by
  refine clock_reads.bind ?_
  rintro (_ | now) _ rfl
  · exact reads_raise _
  · dsimp only
    split
    · exact reads_raise _
    · next before => exact reads_pure ⟨now, rfl, not_le.1 before⟩

/-- The check of the deadline is a reading before it. -/
theorem ensureBeforeDeadline_checked : ToolReads env (ensureBeforeDeadline config) b fun _ used =>
      Checked config.deadline used := by
  refine ensureBeforeDeadline_reads.mono ?_
  rintro _ _ ⟨now, rfl, lt⟩
  exact ⟨[], now, [], rfl, lt, nofun⟩

theorem remainingSeconds_reads : ToolReads env (remainingSeconds config) b fun _ _ => True := by
  refine clock_reads.bind ?_
  rintro (_ | now) _ rfl
  · exact reads_raise _
  · dsimp only
    split
    · exact reads_raise _
    · exact reads_pure trivial

/-! ## Queries -/

/-- The rows are those of the table when the deadline is checked. -/
theorem listPersisted_reads : ToolReads env (listPersisted config) b fun persisted used =>
    listSpecialistEvidence config.request.rcaRunId config.specialistRunId (acts Answer.act used b).records =
      some persisted ∧
      Checked config.deadline used := by
  refine remainingSeconds_reads.bind fun _ u₁ _ => ?_
  refine awaiting_reads.bind fun _ u₂ _ => ?_
  refine reads_get.bind ?_
  rintro _ _ ⟨rfl, rfl⟩
  split
  · exact reads_raise _
  · next persisted listed =>
    refine ensureBeforeDeadline_reads.bind ?_
    rintro _ _ ⟨now, rfl, lt⟩
    refine reads_pure ⟨?_, ?_⟩
    · rw [← acts_append] at listed
      rw [← listed, List.nil_append, List.append_nil, ← List.append_assoc, acts_append]
      rfl
    · exact ⟨u₁ ++ u₂, now, [], by simp, lt, nofun⟩

/-! ## Tools -/

theorem checkTools_reads (tools : List AllowedTool) (names : List String) :
    ToolReads env (checkTools checks config tools names) b fun _ used => used = [] := by
  induction tools generalizing names with
  | nil => exact reads_pure rfl
  | cons tool tools ih =>
    unfold checkTools
    dsimp only
    split
    · exact reads_raise_bind _
    · split
      · exact reads_raise_bind _
      · exact ih _

/-- The tools the collector is given, if any: the first five of those available. -/
theorem approvedTools_reads : ToolReads env (approvedTools checks config) b fun approved used => used = [] ∧
    (approved = none ∨ approved = some (config.request.availableTools.take 5)) := by
  unfold approvedTools
  split
  · exact reads_pure ⟨rfl, .inl rfl⟩
  · split
    · exact reads_pure ⟨rfl, .inl rfl⟩
    · refine (checkTools_reads _ _).bind ?_
      rintro _ _ rfl
      exact reads_pure ⟨rfl, .inr rfl⟩

/-- Drafts that pass are valid, and are not changed. -/
theorem validatedDrafts_reads (drafts : List EvidenceDraft) (approved : List AllowedTool) :
    ToolReads env (validatedDrafts config drafts approved) b fun valid used =>
      used = [] ∧ valid = drafts ∧ ∀ draft ∈ drafts, ValidDraft config approved draft := by
  unfold validatedDrafts
  split
  · next valid => exact reads_pure ⟨rfl, rfl, valid⟩
  · exact reads_raise _

/-! ## Receipts -/

/-- The record is evidence of the session's specialist run and kind. -/
def OwnedRecord (config : SessionConfig) (record : PersistedEvidence) : Prop :=
  record.rcaRunId = config.request.rcaRunId ∧ record.specialistRunId = config.specialistRunId ∧
    record.sourceEndpoint = config.kind.value ∧
      (config.kind.value ++ ".").toList <+: record.evidenceType.toList

/-- A record that passes is owned by the branch. -/
theorem ensureRecordOwned_reads (record : PersistedEvidence) :
    ToolReads env (ensureRecordOwned config record) b fun _ used => used = [] ∧
      OwnedRecord config record := by
  unfold ensureRecordOwned
  split
  · exact reads_raise _
  · next owned =>
    rw [not_or, not_or, not_or, not_not, not_not, not_not, not_not] at owned
    exact reads_pure ⟨rfl, owned⟩

/-- The chunks of a record. -/
def ChunksOf (checks : Checks) (config : SessionConfig) (record : PersistedEvidence)
    (chunks : List EvidenceChunk) : Prop :=
  buildEvidenceChunks checks.interpreter checks.floatText record.reference record.structuredData
    config.chunkChars config.maxChunks
    config.maxTotalChars = some chunks

theorem chunks_reads (record : PersistedEvidence) :
    ToolReads env (chunks checks config record) b fun chunks used => used = [] ∧
      ChunksOf checks config record chunks := by
  unfold chunks
  split
  · exact reads_raise _
  · next built => exact reads_pure ⟨rfl, built⟩

/-- The chunks of a record are those of one the branch owns. -/
theorem recordChunks_reads (record : PersistedEvidence) :
    ToolReads env (recordChunks checks config record) b fun chunks _ =>
    OwnedRecord config record ∧ ChunksOf checks config record chunks := by
  refine ensureBeforeDeadline_reads.bind fun _ _ _ => ?_
  refine (ensureRecordOwned_reads record).bind ?_
  rintro _ _ ⟨-, owned⟩
  refine (chunks_reads record).bind ?_
  rintro chunks _ ⟨-, built⟩
  exact ensureBeforeDeadline_reads.bind fun _ _ _ => reads_pure ⟨owned, built⟩

/-- The receipt of records and their chunks. -/
def receiptOf (config : SessionConfig) (persisted : List PersistedEvidence)
    (allChunks : List (List EvidenceChunk)) : EvidenceReceipt where
  specialist := config.kind
  references := persisted.map PersistedEvidence.reference
  firstChunks := allChunks.filterMap List.head?
  totalChunks := (allChunks.map List.length).sum
  truncated := allChunks.any fun chunks => chunks.any EvidenceChunk.truncated

/-- A receipt is built from owned records, and before the deadline. -/
theorem buildReceipt_reads (persisted : List PersistedEvidence) :
    ToolReads env (buildReceipt checks config persisted) b fun receipt used => Checked config.deadline used ∧
      ∃ allChunks, receipt = receiptOf config persisted allChunks ∧
        List.Forall₂ (fun record chunks => OwnedRecord config record ∧
          ChunksOf checks config record chunks) persisted allChunks := by
  refine (reads_each (fun record _ => recordChunks_reads record) persisted b).bind fun allChunks u built => ?_
  refine ensureBeforeDeadline_checked.bind fun _ v checked => ?_
  exact reads_pure ⟨checked.append_nil.append u, allChunks, rfl, built⟩

theorem emptyReceipt_reads : ToolReads env (emptyReceipt config) b fun receipt used =>
    receipt = ⟨config.kind, [], [], 0, false⟩ ∧ Checked config.deadline used :=
  ensureBeforeDeadline_checked.bind fun _ _ checked => reads_pure ⟨rfl, checked.append_nil⟩

/-! ## Ownership -/

/-- A row of the session's specialist run and kind. -/
def OwnedRow (config : SessionConfig) (row : EvidenceRecord) : Prop :=
  row.Of config.request.rcaRunId config.specialistRunId ∧ row.sourceEndpoint = config.kind.value ∧
    (config.kind.value ++ ".").toList <+: row.evidenceType.toList

/-- A chunk of a row. -/
def ChunkOf (checks : Checks) (config : SessionConfig) (row : EvidenceRecord)
    (chunk : EvidenceChunk) : Prop :=
  chunk.reference.id = row.id ∧ ∃ record, persistedEvidence row = some record ∧
    ∃ chunks, ChunksOf checks config record chunks ∧ chunk ∈ chunks

/-- The chunk is one of a row of the session. -/
def OwnedChunk (checks : Checks) (config : SessionConfig) (records : List EvidenceRecord)
    (chunk : EvidenceChunk) : Prop :=
  ∃ row ∈ records, OwnedRow config row ∧ ChunkOf checks config row chunk

/-- What a receipt names and shows is of rows of the session. -/
structure OwnedReceipt (checks : Checks) (config : SessionConfig) (records : List EvidenceRecord)
    (receipt : EvidenceReceipt) : Prop where
  specialist : receipt.specialist = config.kind
  references : ∀ reference ∈ receipt.references, ∃ row ∈ records, OwnedRow config row ∧ row.id = reference.id
  firstChunks : ∀ chunk ∈ receipt.firstChunks, OwnedChunk checks config records chunk

/-- A chunk stays owned as records are added. -/
theorem OwnedChunk.mono {records records' : List EvidenceRecord} (sub : records ⊆ records')
    {chunk : EvidenceChunk} (h : OwnedChunk checks config records chunk) :
    OwnedChunk checks config records' chunk := by
  obtain ⟨row, mem, owned⟩ := h
  exact ⟨row, sub mem, owned⟩

theorem OwnedReceipt.mono {records records' : List EvidenceRecord} (sub : records ⊆ records')
    {receipt : EvidenceReceipt} (h : OwnedReceipt checks config records receipt) :
    OwnedReceipt checks config records' receipt where
  specialist := h.specialist
  references reference mem := by
    obtain ⟨row, stored, owned⟩ := h.references reference mem
    exact ⟨row, sub stored, owned⟩
  firstChunks chunk mem := (h.firstChunks chunk mem).mono sub

/-- The chunks of a record carry its reference. -/
theorem ChunksOf.reference {record : PersistedEvidence} {chunks : List EvidenceChunk}
    (h : ChunksOf checks config record chunks) {chunk : EvidenceChunk} (mem : chunk ∈ chunks) :
    chunk.reference = record.reference := by
  unfold ChunksOf buildEvidenceChunks at h
  rw [if_pos config.limits] at h
  obtain ⟨-, h⟩ := Option.ite_none_right_eq_some.1 h
  obtain ⟨index, -, built⟩ := exists_of_forall₂ (mapM_eq_some.1 h) mem
  exact (EvidenceChunk.of_validate built).1

/-- An owned record is read from an owned row. -/
theorem OwnedRecord.row {record : PersistedEvidence} (owned : OwnedRecord config record)
    {row : EvidenceRecord} (read : persistedEvidence row = some record) :
    OwnedRow config row ∧ record.reference = ⟨row.id⟩ := by
  obtain ⟨rca, specialist, endpoint, type_⟩ := owned
  unfold persistedEvidence at read
  split at read
  · cases read
    exact ⟨⟨⟨rca, specialist⟩, endpoint, type_⟩, rfl⟩
  · cases read
    exact ⟨⟨⟨rca, specialist⟩, endpoint, type_⟩, rfl⟩
  · cases read

/-- A chunk of an owned record that was read from a row. -/
theorem OwnedRecord.chunk {record : PersistedEvidence} (owned : OwnedRecord config record)
    {row : EvidenceRecord} (read : persistedEvidence row = some record) {chunks : List EvidenceChunk}
    (built : ChunksOf checks config record chunks) {chunk : EvidenceChunk} (mem : chunk ∈ chunks) :
    OwnedRow config row ∧ ChunkOf checks config row chunk := by
  obtain ⟨ownedRow, reference⟩ := owned.row read
  refine ⟨ownedRow, ?_, record, read, chunks, built, mem⟩
  rw [built.reference mem, reference]

/-- The receipt of listed records is owned. -/
theorem receiptOf_owned {persisted : List PersistedEvidence} {allChunks : List (List EvidenceChunk)}
    {records : List EvidenceRecord}
    (listed : listSpecialistEvidence config.request.rcaRunId config.specialistRunId records =
      some persisted)
    (built : List.Forall₂ (fun record chunks => OwnedRecord config record ∧
        ChunksOf checks config record chunks) persisted allChunks) :
    OwnedReceipt checks config records (receiptOf config persisted allChunks) where
  specialist := rfl
  references reference mem := by
    obtain ⟨record, hrecord, rfl⟩ := List.mem_map.1 mem
    obtain ⟨row, stored, read⟩ := mem_of_listed listed hrecord
    obtain ⟨chunks, -, owned, -⟩ := exists_of_forall₂ built.flip hrecord
    obtain ⟨ownedRow, same⟩ := owned.row read
    exact ⟨row, List.mem_of_mem_filter stored, ownedRow, by rw [same]⟩
  firstChunks chunk mem := by
    obtain ⟨chunks, hchunks, first⟩ := List.mem_filterMap.1 mem
    obtain ⟨record, hrecord, owned, chunksOf⟩ := exists_of_forall₂ built hchunks
    obtain ⟨row, stored, read⟩ := mem_of_listed listed hrecord
    exact ⟨row, List.mem_of_mem_filter stored, owned.chunk read chunksOf (List.mem_of_mem_head? first)⟩

/-! ## Reading a chunk -/

/-- A chunk that is read belongs to a stored record, and was read before the deadline. -/
theorem readOnce_reads (evidenceId : Uuid) (chunkIndex : Int) :
    ToolReads env (readOnce checks config evidenceId chunkIndex) b fun chunk used =>
    OwnedChunk checks config (acts Answer.act used b).records chunk ∧ Checked config.deadline used := by
  refine remainingSeconds_reads.bind fun _ u₁ _ => ?_
  refine awaiting_reads.bind fun _ u₂ _ => ?_
  refine reads_get.bind ?_
  rintro _ _ ⟨rfl, rfl⟩
  split
  · exact reads_raise _
  · next found got =>
    refine ensureBeforeDeadline_reads.bind fun _ u₃ _ => ?_
    cases found with
    | none => exact reads_raise _
    | some record =>
      refine (ensureRecordOwned_reads record).bind ?_
      rintro _ _ ⟨rfl, owned⟩
      refine (chunks_reads record).bind ?_
      rintro chunks _ ⟨rfl, built⟩
      refine ensureBeforeDeadline_checked.bind fun _ u₄ checked => ?_
      split
      · exact reads_raise _
      · next chunk at_ =>
        refine reads_pure ⟨?_, ?_⟩
        · obtain ⟨row, stored, read⟩ := mem_of_got got
          have mem : row ∈ (acts Answer.act u₂ (acts Answer.act u₁ b)).records :=
            List.mem_of_mem_filter stored
          refine OwnedChunk.mono ?_ ⟨row, mem, owned.chunk read built (List.mem_of_getElem? at_)⟩
          simp only [acts_append, List.nil_append, List.append_nil]
          rw [acts_eq u₄, acts_eq u₃]
          exact fun row mem => List.mem_append_left _ (List.mem_append_left _ mem)
        · have last := ((checked.append_nil.append u₃).append u₂).append u₁
          simpa only [List.nil_append] using last

end EvidenceToolSession

end SreAgent.Rca
