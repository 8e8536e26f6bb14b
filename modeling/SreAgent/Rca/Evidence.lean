import SreAgent.Base.Sha256
import SreAgent.Rca.Models
import SreAgent.Base.Options
import SreAgent.Base.CanonicalJson
import SreAgent.Base.JsonPart

/-!
# Evidence records and their chunks

`insert_evidence` copies a draft into a row of its specialist run; the rows of a specialist run are
listed by the time of their observation. A chunk is a slice of the canonical text of a record.
-/

namespace SreAgent.Rca
open Base

/-! ## `evidence_records` -/

/-- `value.isoformat()`, for an instant of UTC. -/
def isoformat (instant : Timestamp) : String :=
  String.ofList ((IsoTime.text instant.toNat).toList.dropLast ++ "+00:00".toList)

structure EvidenceRecord where
  id : Uuid
  observedAt : Timestamp
  rcaRunId : Uuid
  specialistRunId : Uuid
  evidenceType : String
  sourceAgent : String
  sourceEndpoint : String
  toolName : String
  timeWindowStart : Timestamp
  timeWindowEnd : Timestamp
  structuredData : PyJson
  rawResult : List UInt8
  metadata : Json
  contentHash : String

/-- `evidence_metadata`. -/
def EvidenceDraft.metadata (draft : EvidenceDraft) : Json :=
  .obj [("contentType", .str draft.contentType), ("inputSha256", .str draft.inputSha256),
    ("inputScope", draft.inputScope.dump), ("normalizedScope", draft.normalizedScope.dump),
    ("requestWindowStart", .str (isoformat draft.requestWindowStart)),
    ("requestWindowEnd", .str (isoformat draft.requestWindowEnd))]

/-- The row `insert_evidence` writes for a draft. -/
def EvidenceDraft.record (draft : EvidenceDraft) (rcaRunId specialistRunId id : Uuid) : EvidenceRecord where
  id := id
  observedAt := draft.observedAt
  rcaRunId := rcaRunId
  specialistRunId := specialistRunId
  evidenceType := draft.capability
  sourceAgent := draft.endpointIdentity.value.toUpper
  sourceEndpoint := draft.endpointIdentity.value
  toolName := draft.tool
  timeWindowStart := draft.windowStart
  timeWindowEnd := draft.windowEnd
  structuredData := draft.structuredJson
  rawResult := draft.rawResult
  metadata := draft.metadata
  contentHash := Sha256.hexdigest draft.rawResult

structure PersistedEvidence where
  reference : EvidenceReference
  rcaRunId : Uuid
  specialistRunId : Uuid
  evidenceType : String
  sourceEndpoint : String
  toolName : String
  structuredData : PyJson

/-- `_persisted_evidence`, or its `TypeError`. -/
def persistedEvidence (row : EvidenceRecord) : Option PersistedEvidence :=
  match row.structuredData with
  | .obj _ | .arr _ =>
    some ⟨⟨row.id⟩, row.rcaRunId, row.specialistRunId, row.evidenceType, row.sourceEndpoint, row.toolName,
      row.structuredData⟩
  | _ => none

/-- The row is one of the specialist run. -/
def EvidenceRecord.Of (rcaRunId specialistRunId : Uuid) (row : EvidenceRecord) : Prop :=
  row.rcaRunId = rcaRunId ∧ row.specialistRunId = specialistRunId

instance (rcaRunId specialistRunId : Uuid) (row : EvidenceRecord) :
    Decidable (row.Of rcaRunId specialistRunId) :=
  inferInstanceAs (Decidable (_ ∧ _))

/-- The rows of a specialist run, in the order they were inserted. -/
def evidenceOf (rcaRunId specialistRunId : Uuid) (rows : List EvidenceRecord) : List EvidenceRecord :=
  rows.filter fun row => row.Of rcaRunId specialistRunId

/-- `list_specialist_evidence`. -/
def listSpecialistEvidence (rcaRunId specialistRunId : Uuid) (rows : List EvidenceRecord) :
    Option (List PersistedEvidence) :=
  ((evidenceOf rcaRunId specialistRunId rows).insertionSort fun a b =>
    a.observedAt < b.observedAt ∨ a.observedAt = b.observedAt ∧ a.id ≤ b.id).mapM persistedEvidence

/-- `get_specialist_evidence`. -/
def getSpecialistEvidence (rcaRunId specialistRunId evidenceId : Uuid) (rows : List EvidenceRecord) :
    Option (Option PersistedEvidence) :=
  match (evidenceOf rcaRunId specialistRunId rows).find? fun row => row.id = evidenceId with
  | none => some none
  | some row => (persistedEvidence row).map some

section Listed

variable {rcaRunId specialistRunId evidenceId : Uuid} {rows : List EvidenceRecord}
  {listed : List PersistedEvidence} {record : PersistedEvidence}

/-- A listed record is read from a row of the specialist run. -/
theorem mem_of_listed (h : listSpecialistEvidence rcaRunId specialistRunId rows = some listed)
    (hrecord : record ∈ listed) :
    ∃ row ∈ evidenceOf rcaRunId specialistRunId rows, persistedEvidence row = some record := by
  obtain ⟨row, hrow, found⟩ := exists_of_forall₂ (mapM_eq_some.1 h) hrecord
  exact ⟨row, (List.mem_insertionSort _).1 hrow, found⟩

/-- No record is listed exactly if the specialist run has no row. -/
theorem listed_eq_nil (h : listSpecialistEvidence rcaRunId specialistRunId rows = some listed) :
    listed = [] ↔ evidenceOf rcaRunId specialistRunId rows = [] := by
  have same := (mapM_eq_some.1 h).length_eq
  rw [List.length_insertionSort] at same
  rw [← List.length_eq_zero_iff, ← List.length_eq_zero_iff, same]

theorem mem_of_got (h : getSpecialistEvidence rcaRunId specialistRunId evidenceId rows = some (some record)) :
    ∃ row ∈ evidenceOf rcaRunId specialistRunId rows, persistedEvidence row = some record := by
  unfold getSpecialistEvidence at h
  split at h
  · cases h
  · next row found =>
    obtain ⟨_, hrow, ⟨⟩⟩ := Option.map_eq_some_iff.1 h
    exact ⟨row, List.mem_of_find?_eq_some found, hrow⟩

end Listed

/-! ## Chunks -/

structure EvidenceChunk where
  reference : EvidenceReference
  chunkIndex : Nat
  chunkCount : Nat
  content : String
  truncated : Bool
  chunkCount_range : 0 < chunkCount ∧ chunkCount ≤ 4
  content_length : content.length ≤ 8000

/-- `EvidenceChunk(...)`, or a validation error; a content that is no text is refused. -/
def EvidenceChunk.validate (reference : EvidenceReference) (chunkIndex chunkCount : Nat) (content : PyStr)
    (truncated : Bool) : Option EvidenceChunk :=
  match content.text? with
  | none => none
  | some text =>
    if h : (0 < chunkCount ∧ chunkCount ≤ 4) ∧ text.length ≤ 8000 then
      some ⟨reference, chunkIndex, chunkCount, text, truncated, h.1, h.2⟩
    else none

/-- A chunk is what it is made of. -/
theorem EvidenceChunk.of_validate {reference : EvidenceReference} {chunkIndex chunkCount : Nat}
    {content : PyStr} {truncated : Bool} {chunk : EvidenceChunk}
    (h : EvidenceChunk.validate reference chunkIndex chunkCount content truncated = some chunk) :
    chunk.reference = reference ∧ chunk.chunkIndex = chunkIndex ∧ chunk.chunkCount = chunkCount ∧
      content.text? = some chunk.content ∧ chunk.truncated = truncated := by
  unfold EvidenceChunk.validate at h
  split at h
  · cases h
  · next text read =>
    split at h
    · cases h
      exact ⟨rfl, rfl, rfl, read, rfl⟩
    · cases h

/-- `_validate_limits`. -/
def ValidLimits (chunkChars maxChunks maxTotalChars : Nat) : Prop :=
  (0 < chunkChars ∧ chunkChars ≤ 8000) ∧ (0 < maxChunks ∧ maxChunks ≤ 4) ∧
    (0 < maxTotalChars ∧ maxTotalChars ≤ 32000) ∧
    maxTotalChars ≤ chunkChars * maxChunks

instance (chunkChars maxChunks maxTotalChars : Nat) :
    Decidable (ValidLimits chunkChars maxChunks maxTotalChars) := by
  unfold ValidLimits
  infer_instance

/-- `build_evidence_chunks`, or an exception: of `_validate_limits`, of `json.dumps`, or of a chunk. -/
def buildEvidenceChunks (i : JsonParse.Interpreter) (floatText : FloatVal → String)
    (reference : EvidenceReference) (structuredJson : PyJson) (chunkChars maxChunks maxTotalChars : Nat) :
    Option (List EvidenceChunk) :=
  if ValidLimits chunkChars maxChunks maxTotalChars then
    if JsonParse.writes i i.maxDepth structuredJson then
      let canonical := JsonText.canonical floatText structuredJson
      let truncated := decide (maxTotalChars < canonical.length)
      let bounded := canonical.take maxTotalChars
      let chunkCount := (bounded.length + chunkChars - 1) / chunkChars
      (List.range chunkCount).mapM fun index =>
        EvidenceChunk.validate reference index chunkCount
          ⟨(bounded.drop (index * chunkChars)).take chunkChars⟩ truncated
    else none
  else none

end SreAgent.Rca
