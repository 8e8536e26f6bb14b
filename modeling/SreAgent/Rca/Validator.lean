import SreAgent.Ingestion.Statements
import SreAgent.Rca.Analysis
import SreAgent.Rca.Branches

/-!
# Validated analyses

`SpecialistAnalysisValidator` checks the draft of a model and edits it where its input was truncated.
The root agent checks what it is handed once more, and `upsert_specialist_analysis` stores the columns
of an audited analysis.
-/

namespace SreAgent.Rca
open Base Ingestion

/-- An object passed for an analysis: its fields, where they have their declared types, or what
pydantic reads of the dump of another object. -/
inductive AnalysisObject where
  | fields (a : AnalysisFields)
  | other (read : Option SpecialistAnalysisDraft)

/-- The observations of an object that can be read. -/
def AnalysisObject.observations : AnalysisObject → List ObservationFields
  | .fields a => a.observations
  | .other none => []
  | .other (some draft) => draft.observations

/-- `SpecialistAnalysisDraft(...)`, or a validation error. -/
def SpecialistAnalysisDraft.validate (a : AnalysisFields) : Option SpecialistAnalysisDraft :=
  if h : a.Valid then some ⟨a, h⟩ else none

/-- `SpecialistAnalysisDraft.model_validate(draft.model_dump(mode="python"))`. -/
def AnalysisObject.modelValidate : AnalysisObject → Option SpecialistAnalysisDraft
  | .fields a => SpecialistAnalysisDraft.validate a
  | .other read => read

inductive SpecialistValidationCode where
  | ANALYSIS_SCHEMA_INVALID | ANALYSIS_UNKNOWN_EVIDENCE
  deriving DecidableEq

structure SpecialistAnalysisValidator where
  maxObservations : Nat
  range : 1 ≤ maxObservations ∧ maxObservations ≤ 20

/-- `model_copy(update=...)` of an analysis of truncated input. -/
def AnalysisFields.truncated (a : AnalysisFields) : AnalysisFields :=
  { a with
    status := if a.status = .COMPLETE then .PARTIAL else a.status
    missingEvidence := a.missingEvidence ++ [.ANALYSIS_INPUT_TRUNCATED] }

/-- `SpecialistAnalysisValidator.validate`. -/
def SpecialistAnalysisValidator.validate (v : SpecialistAnalysisValidator) (draft : AnalysisObject)
    (expectedSpecialist : SpecialistKind) (ownedEvidence : List EvidenceReference) (inputTruncated : Bool) :
    Except SpecialistValidationCode AnalysisFields :=
  match draft.modelValidate with
  | none => .error .ANALYSIS_SCHEMA_INVALID
  | some validated =>
    if validated.specialist ≠ expectedSpecialist then .error .ANALYSIS_SCHEMA_INVALID
    else if v.maxObservations < validated.observations.length then .error .ANALYSIS_SCHEMA_INVALID
    else if ∃ reference ∈ validated.cited, reference ∉ ownedEvidence then .error .ANALYSIS_UNKNOWN_EVIDENCE
    else if inputTruncated = true ∧ .ANALYSIS_INPUT_TRUNCATED ∉ validated.missingEvidence
      then .ok validated.truncated
    else .ok validated.toAnalysisFields

/-! ## What the root agent is handed -/

/-- An object passed for a reference. -/
inductive ReferenceObject where
  | reference (r : EvidenceReference)
  | other

/-- `_ValidationCode`. -/
inductive RootValidationCode where
  | UNKNOWN_EVIDENCE_REFERENCE | REPORT_SCHEMA_INVALID
  deriving DecidableEq

/-- `_canonical_reference`. -/
def canonicalReference : ReferenceObject → Except RootValidationCode EvidenceReference
  | .reference r => .ok r
  | .other => .error .REPORT_SCHEMA_INVALID

/-- `_canonical_analysis`: an object of the exact types, validated. -/
def canonicalAnalysis : AnalysisObject → Except RootValidationCode SpecialistAnalysisDraft
  | .fields a =>
    match SpecialistAnalysisDraft.validate a with
    | some draft => .ok draft
    | none => .error .REPORT_SCHEMA_INVALID
  | .other _ => .error .REPORT_SCHEMA_INVALID

/-- `_canonical_active_inputs`. -/
def canonicalActiveInputs (specialistAnalyses : List AnalysisObject) (knownEvidence : List ReferenceObject) :
    Except RootValidationCode (List SpecialistAnalysisDraft × List EvidenceReference) := do
  let canonicalAnalyses ← specialistAnalyses.mapM canonicalAnalysis
  let canonicalKnown ← knownEvidence.mapM canonicalReference
  if ∃ analysis ∈ canonicalAnalyses, ∃ reference ∈ analysis.cited, reference ∉ canonicalKnown then
    .error .UNKNOWN_EVIDENCE_REFERENCE
  else .ok (canonicalAnalyses, canonicalKnown)

/-! ## `upsert_specialist_analysis` -/

def AnalysisStatus.text : AnalysisStatus → String
  | .COMPLETE => "COMPLETE"
  | .PARTIAL => "PARTIAL"
  | .FAILED => "FAILED"

def ObservationRelation.text : ObservationRelation → String
  | .SUPPORTS => "SUPPORTS"
  | .CONTRADICTS => "CONTRADICTS"
  | .MISSING => "MISSING"

/-- `_reference_payload`, and `reference.model_dump(mode="json")`. -/
def EvidenceReference.payload (r : EvidenceReference) : Json := .obj [("id", .str r.id.text)]

/-- `_observation_payload`. -/
def ObservationFields.payload (o : ObservationFields) : Json :=
  .obj [("statement", .str o.statement), ("confidence", .float o.confidence),
    ("relation", .str o.relation.text), ("evidence", .arr (o.evidence.map EvidenceReference.payload))]

/-- `_analysis_payload`, and `analysis.model_dump(mode="json")`. -/
def AnalysisFields.payload (a : AnalysisFields) : Json :=
  .obj [("specialist", .str a.specialist.value), ("status", .str a.status.text),
    ("observations", .arr (a.observations.map ObservationFields.payload)),
    ("missing_evidence", .arr (a.missingEvidence.map fun code => .str code.text))]

/-- `specialist_runs.status` of an analysis. -/
inductive SpecialistRunStatus where
  | SUCCEEDED | PARTIAL | FAILED
  deriving DecidableEq

/-- The columns that `upsert_specialist_analysis` writes. -/
structure AnalysisColumns where
  status : SpecialistRunStatus
  failureCode : Option StableSpecialistCode
  analysisResult : Json
  modelName : String
  skillName : String
  skillSha256 : String

/-- What is stored for the status of an analysis. -/
def AnalysisFields.runStatus (a : AnalysisFields) : SpecialistRunStatus :=
  if a.observations = [] then .FAILED
  else
    match a.status with
    | .COMPLETE => .SUCCEEDED
    | .PARTIAL => .PARTIAL
    | .FAILED => .FAILED

/-- The failure code that is stored with it. -/
def AnalysisFields.failureCode (a : AnalysisFields) : Option StableSpecialistCode :=
  match a.missingEvidence with
  | code :: _ => some code
  | [] => if a.runStatus = .FAILED then some .ANALYSIS_FAILED else none

inductive UpsertError where
  | ownership
  | database
  deriving DecidableEq

/-- `upsert_specialist_analysis`, on the tables it reads: the run of the specialist it updates, and
the columns. -/
def upsertSpecialistAnalysis (specialistRuns : List SpecialistRun) (records : List EvidenceRecord)
    (rcaRunId : Uuid) (specialist : SpecialistKind) (analysis : AnalysisFields)
    (modelName skillName skillSha256 : String) :
    Except UpsertError (SpecialistRun × AnalysisColumns) :=
  if analysis.specialist ≠ specialist then .error .ownership
  else
    match findSpecialistRun rcaRunId specialist specialistRuns with
    | none => .error .ownership
    | some run =>
      if ∃ reference ∈ analysis.cited, ¬ ∃ row ∈ records, row.id = reference.id ∧ row.rcaRunId = rcaRunId ∧
        row.specialistRunId = run.id then
        .error .ownership
      else if storable analysis.payload = false then .error .database
      else .ok (run, ⟨analysis.runStatus, analysis.failureCode, analysis.payload, modelName, skillName,
        skillSha256⟩)

/-! ## A draft that is accepted -/

section Accepted

variable {v : SpecialistAnalysisValidator} {draft : AnalysisObject} {expectedSpecialist : SpecialistKind}
  {ownedEvidence : List EvidenceReference}
  {inputTruncated : Bool} {a r : AnalysisFields}

/-- A valid analysis is accepted as it is. -/
theorem validate_valid (h : a.Valid) : SpecialistAnalysisDraft.validate a = some ⟨a, h⟩ := dif_pos h

theorem of_modelValidate {validated : SpecialistAnalysisDraft} (h : draft.modelValidate = some validated) :
    validated.observations = draft.observations := by
  cases draft with
  | fields a =>
    unfold AnalysisObject.modelValidate SpecialistAnalysisDraft.validate at h
    dsimp only at h
    split at h
    · cases h
      rfl
    · cases h
  | other read =>
    cases h
    rfl

/-- The edit of a truncated analysis keeps what its validators check. -/
theorem AnalysisFields.Valid.truncated (h : a.Valid) : a.truncated.Valid where
  observations := h.observations
  length := h.length
  status := by
    have status := h.status
    unfold AnalysisFields.ValidStatus at status ⊢
    unfold AnalysisFields.truncated
    cases known : a.status with
    | COMPLETE =>
      rw [known] at status
      exact .inl status.1
    | PARTIAL => exact .inr (by simp)
    | FAILED =>
      rw [known] at status
      exact status

/-- A result of `validate`: it is valid and of the expected specialist, its observations are those of
the draft and few enough, it cites owned evidence alone, and it says so where its input was truncated.
-/
structure Consistent (v : SpecialistAnalysisValidator) (draft : AnalysisObject)
    (expectedSpecialist : SpecialistKind) (ownedEvidence : List EvidenceReference) (inputTruncated : Bool)
    (r : AnalysisFields) : Prop where
  valid : r.Valid
  specialist : r.specialist = expectedSpecialist
  observations : r.observations = draft.observations
  length : r.observations.length ≤ v.maxObservations
  owned : r.cited ⊆ ownedEvidence
  truncated : inputTruncated = true → r.status ≠ .COMPLETE ∧ .ANALYSIS_INPUT_TRUNCATED ∈ r.missingEvidence

/-- What the validator accepts is consistent. -/
theorem consistent_of_validate (h : v.validate draft expectedSpecialist ownedEvidence inputTruncated =
      .ok r) :
    Consistent v draft expectedSpecialist ownedEvidence inputTruncated r := by
  unfold SpecialistAnalysisValidator.validate at h
  split at h
  · cases h
  · next validated read =>
    have observations := of_modelValidate read
    split_ifs at h with other long unknown edited
    · cases h
      refine ⟨validated.valid.truncated, not_not.1 other, observations, Nat.le_of_not_lt long,
        fun reference cited => ?_, fun _ => ⟨?_, ?_⟩⟩
      · by_contra missing
        exact unknown ⟨reference, cited, missing⟩
      · unfold AnalysisFields.truncated
        dsimp only
        split
        · decide
        · next incomplete => exact incomplete
      · exact List.mem_append_right _ List.mem_cons_self
    · cases h
      refine ⟨validated.valid, not_not.1 other, observations, Nat.le_of_not_lt long,
        fun reference cited => ?_, fun truncated => ?_⟩
      · by_contra missing
        exact unknown ⟨reference, cited, missing⟩
      · have named : .ANALYSIS_INPUT_TRUNCATED ∈ validated.missingEvidence := by
          by_contra absent
          exact edited ⟨truncated, absent⟩
        refine ⟨fun complete => ?_, named⟩
        have status := validated.valid.status
        unfold AnalysisFields.ValidStatus at status
        rw [complete] at status
        rw [status.2] at named
        cases named

/-- A consistent result is accepted as it is. -/
theorem Consistent.validate (h : Consistent v draft expectedSpecialist ownedEvidence inputTruncated r) :
    v.validate (.fields r) expectedSpecialist ownedEvidence inputTruncated = .ok r := by
  have read : (AnalysisObject.fields r).modelValidate = some ⟨r, h.valid⟩ := validate_valid h.valid
  unfold SpecialistAnalysisValidator.validate
  rw [read]
  dsimp only
  rw [if_neg (not_not.2 h.specialist), if_neg (Nat.not_lt.2 h.length), if_neg, if_neg]
  · rintro ⟨truncated, absent⟩
    exact absent (h.truncated truncated).2
  · rintro ⟨reference, cited, missing⟩
    exact missing (h.owned cited)

/-- An analysis that some validator returned, with the evidence owned at that time. -/
def Accepted (item : AnalysisFields × List EvidenceReference) : Prop :=
  ∃ (v : SpecialistAnalysisValidator) (draft : AnalysisObject) (expectedSpecialist : SpecialistKind)
    (inputTruncated : Bool), v.validate draft expectedSpecialist item.2 inputTruncated = .ok item.1

/-- Valid analyses are made canonical without a change. -/
theorem mapM_canonicalAnalysis {as : List AnalysisFields} (valid : ∀ a ∈ as, a.Valid) :
    ∃ drafts, (as.map AnalysisObject.fields).mapM canonicalAnalysis = .ok drafts ∧
      drafts.map SpecialistAnalysisDraft.toAnalysisFields = as := by
  induction as with
  | nil => exact ⟨[], rfl, rfl⟩
  | cons a as ih =>
    obtain ⟨drafts, eq, same⟩ := ih fun b hb => valid b (List.mem_cons_of_mem a hb)
    have first : canonicalAnalysis (.fields a) = .ok ⟨a, valid a List.mem_cons_self⟩ := by
      simp only [canonicalAnalysis, validate_valid (valid a List.mem_cons_self)]
    refine ⟨⟨a, valid a List.mem_cons_self⟩ :: drafts, ?_, congrArg (a :: ·) same⟩
    rw [List.map_cons, List.mapM_cons, first, eq]
    rfl

theorem mapM_canonicalReference (known : List EvidenceReference) :
    (known.map ReferenceObject.reference).mapM canonicalReference = .ok known := by
  induction known with
  | nil => rfl
  | cons reference known ih =>
    rw [List.map_cons, List.mapM_cons, ih]
    rfl

/-- The root agent takes accepted analyses with their evidence, and changes none of them. -/
theorem canonicalActiveInputs_of_accepted {items : List (AnalysisFields × List EvidenceReference)}
    {known : List EvidenceReference} (accepted : ∀ item ∈ items, Accepted item)
    (covers : ∀ item ∈ items, item.2 ⊆ known) :
    ∃ drafts, drafts.map SpecialistAnalysisDraft.toAnalysisFields = items.map Prod.fst ∧
      canonicalActiveInputs (items.map fun item => .fields item.1)
      (known.map .reference) = .ok (drafts, known) := by
  have valid : ∀ a ∈ items.map Prod.fst, a.Valid ∧ a.cited ⊆ known := by
    intro a ha
    obtain ⟨item, hitem, rfl⟩ := List.mem_map.1 ha
    obtain ⟨v, draft, expected, truncated, h⟩ := accepted item hitem
    have consistent := consistent_of_validate h
    exact ⟨consistent.valid, fun reference cited => covers item hitem (consistent.owned cited)⟩
  obtain ⟨drafts, eq, same⟩ := mapM_canonicalAnalysis fun a ha => (valid a ha).1
  refine ⟨drafts, same, ?_⟩
  rw [List.map_map] at eq
  unfold canonicalActiveInputs
  rw [show items.map (fun item => AnalysisObject.fields item.1) =
    items.map (AnalysisObject.fields ∘ Prod.fst) from rfl, eq, mapM_canonicalReference]
  refine if_neg ?_
  rintro ⟨draft, hdraft, reference, cited, missing⟩
  have mem : draft.toAnalysisFields ∈ items.map Prod.fst := same ▸ List.mem_map_of_mem hdraft
  exact missing ((valid _ mem).2 cited)

/-- What is stored of a valid analysis: success without a code where it is complete, and a failure
where it has no observations. -/
theorem AnalysisFields.Valid.stored (h : a.Valid) :
    (a.runStatus = .SUCCEEDED ∧ a.failureCode = none ↔ a.status = .COMPLETE) ∧
      (a.runStatus = .FAILED ↔ a.observations = []) := by
  have status := h.status
  unfold AnalysisFields.ValidStatus at status
  unfold AnalysisFields.failureCode AnalysisFields.runStatus
  cases known : a.status with
  | COMPLETE =>
    rw [known] at status
    simp [status.1, status.2]
  | PARTIAL =>
    by_cases none : a.observations = []
    · simp [none]
    · simp [none]
  | FAILED =>
    rw [known] at status
    simp [status]

end Accepted

end SreAgent.Rca
