import SreAgent.Rca.Models

/-!
# Analyses of the specialists

An analysis is a draft whose validators have run, or a copy of one made with `model_copy`, which runs
none: `AnalysisFields` is what both hold, and `SpecialistAnalysisDraft` adds what the validators check.
-/

namespace SreAgent.Rca
open Base

namespace StableSpecialistCode

/-- The text of a code. -/
def text : StableSpecialistCode → String
  | .NO_SAFE_MCP_CAPABILITY => "NO_SAFE_MCP_CAPABILITY"
  | .MCP_TIMEOUT => "MCP_TIMEOUT"
  | .MCP_TRANSPORT => "MCP_TRANSPORT"
  | .MCP_PAYLOAD_TOO_LARGE => "MCP_PAYLOAD_TOO_LARGE"
  | .MCP_RESULT_INVALID => "MCP_RESULT_INVALID"
  | .ANALYSIS_TIMEOUT => "ANALYSIS_TIMEOUT"
  | .ANALYSIS_SCHEMA_INVALID => "ANALYSIS_SCHEMA_INVALID"
  | .ANALYSIS_UNKNOWN_EVIDENCE => "ANALYSIS_UNKNOWN_EVIDENCE"
  | .ANALYSIS_INPUT_TRUNCATED => "ANALYSIS_INPUT_TRUNCATED"
  | .ANALYSIS_FAILED => "ANALYSIS_FAILED"

def all : List StableSpecialistCode :=
  [.NO_SAFE_MCP_CAPABILITY, .MCP_TIMEOUT, .MCP_TRANSPORT, .MCP_PAYLOAD_TOO_LARGE, .MCP_RESULT_INVALID,
    .ANALYSIS_TIMEOUT,
    .ANALYSIS_SCHEMA_INVALID, .ANALYSIS_UNKNOWN_EVIDENCE, .ANALYSIS_INPUT_TRUNCATED, .ANALYSIS_FAILED]

/-- The code of a text. -/
def ofText (s : String) : Option StableSpecialistCode := all.find? fun code => code.text = s

theorem ofText_text (code : StableSpecialistCode) : ofText code.text = some code := by
  cases code <;> decide

theorem text_of_ofText {s : String} {code : StableSpecialistCode} (h : ofText s = some code) :
    code.text = s := by
  have found := List.find?_some h
  exact of_decide_eq_true found

theorem text_injective {code code' : StableSpecialistCode} (h : code.text = code'.text) : code = code' :=
  Option.some.inj ((ofText_text code).symm.trans ((congrArg ofText h).trans (ofText_text code')))

end StableSpecialistCode

/-- `_STABLE_SPECIALIST_CODES`. -/
def stableSpecialistCodes : List String := StableSpecialistCode.all.map StableSpecialistCode.text

/-- The text of every code is in the set the source declares. -/
theorem text_mem_stable (code : StableSpecialistCode) : code.text ∈ stableSpecialistCodes := by
  apply List.mem_map_of_mem
  cases code <;> decide

inductive AnalysisStatus where
  | COMPLETE | PARTIAL | FAILED
  deriving DecidableEq, Repr

inductive ObservationRelation where
  | SUPPORTS | CONTRADICTS | MISSING
  deriving DecidableEq, Repr

/-- The fields of a `SpecialistObservation`. -/
structure ObservationFields where
  statement : String
  confidence : FloatVal
  relation : ObservationRelation
  evidence : List EvidenceReference
  deriving DecidableEq

/-- `Field(ge=0, le=1)`: at least 0 and at most 1, which a NaN is not. -/
def InUnitInterval : FloatVal → Prop
  | .finite q => 0 ≤ q ∧ q ≤ 1
  | .infinite _ => False
  | .nan => False

instance : DecidablePred InUnitInterval := fun x => by
  cases x <;> unfold InUnitInterval <;> infer_instance

/-- What a `SpecialistObservation` is validated for. -/
structure ObservationFields.Valid (o : ObservationFields) : Prop where
  statement : o.statement ≠ ""
  confidence : InUnitInterval o.confidence
  evidence : o.relation ≠ .MISSING → o.evidence ≠ []

instance : DecidablePred ObservationFields.Valid := fun o =>
  decidable_of_iff (o.statement ≠ "" ∧ InUnitInterval o.confidence ∧
    (o.relation ≠ .MISSING → o.evidence ≠ []))
    ⟨fun h => ⟨h.1, h.2.1, h.2.2⟩, fun h => ⟨h.statement, h.confidence, h.evidence⟩⟩

/-- The fields of a `SpecialistAnalysisDraft`. -/
structure AnalysisFields where
  specialist : SpecialistKind
  status : AnalysisStatus
  observations : List ObservationFields
  missingEvidence : List StableSpecialistCode
  deriving DecidableEq

/-- The evidence an analysis cites. -/
def AnalysisFields.cited (a : AnalysisFields) : List EvidenceReference :=
  a.observations.flatMap ObservationFields.evidence

/-- `validate_status`. -/
def AnalysisFields.ValidStatus (a : AnalysisFields) : Prop :=
  match a.status with
  | .COMPLETE => a.observations ≠ [] ∧ a.missingEvidence = []
  | .PARTIAL => a.observations ≠ [] ∨ a.missingEvidence ≠ []
  | .FAILED => a.observations = []

instance : DecidablePred AnalysisFields.ValidStatus := fun a => by
  unfold AnalysisFields.ValidStatus
  split <;> infer_instance

/-- What a `SpecialistAnalysisDraft` is validated for. -/
structure AnalysisFields.Valid (a : AnalysisFields) : Prop where
  observations : ∀ o ∈ a.observations, o.Valid
  length : a.observations.length ≤ 20
  status : a.ValidStatus

instance : DecidablePred AnalysisFields.Valid := fun a =>
  decidable_of_iff ((∀ o ∈ a.observations, o.Valid) ∧ a.observations.length ≤ 20 ∧ a.ValidStatus)
    ⟨fun h => ⟨h.1, h.2.1, h.2.2⟩, fun h => ⟨h.observations, h.length, h.status⟩⟩

/-- An analysis whose validators have run. -/
structure SpecialistAnalysisDraft extends AnalysisFields where
  valid : toAnalysisFields.Valid

structure SpecialistAnalysisResult where
  analysis : AnalysisFields
  knownEvidence : List EvidenceReference
  deriving DecidableEq

structure SpecialistFailure where
  specialist : SpecialistKind
  code : String
  deriving DecidableEq

/-- `SpecialistAnalysisBundle`, whose failures have stable codes. -/
structure SpecialistAnalysisBundle where
  results : List SpecialistAnalysisResult
  failures : List SpecialistFailure
  stable : ∀ failure ∈ failures, failure.code ∈ stableSpecialistCodes

/-- `SpecialistAnalysisBundle(...)`, or a validation error. -/
def SpecialistAnalysisBundle.validate (results : List SpecialistAnalysisResult)
    (failures : List SpecialistFailure) :
    Option SpecialistAnalysisBundle :=
  if h : ∀ failure ∈ failures, failure.code ∈ stableSpecialistCodes then some ⟨results, failures, h⟩ else none

end SreAgent.Rca
