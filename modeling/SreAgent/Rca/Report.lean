import SreAgent.Lifecycle.Tables
import SreAgent.Rca.Validator

/-!
# Reports before they are stored

`RcaReportDraft` as its validators leave it, where a confidence is any float that they pass, and the
synthesizer, which checks the citations of a draft and takes its completeness away.
-/

namespace SreAgent.Rca
open Base

/-- `EvidenceClaim`. -/
structure EvidenceClaim where
  statement : String
  relation : ObservationRelation
  evidence : List EvidenceReference
  statement_ne : statement ≠ ""
  evidence_ne : evidence ≠ []

/-- `RcaHypothesis`. -/
structure RcaHypothesis where
  statement : String
  confidence : FloatVal
  claims : List EvidenceClaim
  statement_ne : statement ≠ ""
  confidence_range : InUnitInterval confidence
  claims_ne : claims ≠ []

/-- `RcaReportDraft`, whose validators have run. -/
structure RcaReportDraft where
  status : Lifecycle.ResultStatus
  summaryZhTw : String
  hypotheses : List RcaHypothesis
  missingEvidence : List String
  remediation : List String
  verificationSteps : List String
  summary_ne : summaryZhTw ≠ ""
  complete_cited : status = .COMPLETE → hypotheses ≠ [] ∧ missingEvidence = []
  failed_bare : status = .FAILED → hypotheses = []

/-- The evidence a report cites. -/
def RcaReportDraft.cited (draft : RcaReportDraft) : List EvidenceReference :=
  draft.hypotheses.flatMap fun hypothesis => hypothesis.claims.flatMap EvidenceClaim.evidence

namespace RcaSynthesizer

/-- `validate`; `none` is its `ValueError`, of which there is one only. -/
def validate (draft : RcaReportDraft) (knownEvidence : List EvidenceReference) : Option RcaReportDraft :=
  if ∀ reference ∈ draft.cited, reference ∈ knownEvidence then some draft else none

/-- `with_specialist_failures`. -/
def withSpecialistFailures (draft : RcaReportDraft) : RcaReportDraft :=
  if draft.status ≠ .COMPLETE then draft
  else
    { draft with
      status := .PARTIAL
      missingEvidence := draft.missingEvidence ++ ["SPECIALIST_FAILURE"]
      complete_cited := nofun
      failed_bare := nofun }

/-- `with_incomplete_specialist_analyses`. -/
def withIncompleteSpecialistAnalyses (draft : RcaReportDraft)
    (specialistAnalyses : List SpecialistAnalysisDraft) : RcaReportDraft :=
  if ∀ analysis ∈ specialistAnalyses, analysis.status = .COMPLETE then draft else withSpecialistFailures draft

/-- `insufficient_evidence`. -/
def insufficientEvidence (provider : Option Ingestion.Provider) : RcaReportDraft where
  status := .PARTIAL
  summaryZhTw := "證據不足，無法確認根因；" ++ if provider = some .AWS then "目前沒有 AWS MCP 證據。" else "目前沒有可用的 MCP 證據。"
  hypotheses := []
  missingEvidence := ["NO_SAFE_MCP_EVIDENCE"]
  remediation := ["請由值班人員確認監控資料與資源範圍。"]
  verificationSteps := ["補齊證據後重新執行 RCA。"]
  summary_ne := by split <;> decide
  complete_cited := nofun
  failed_bare := fun _ => rfl

/-- `failed_analysis`. -/
def failedAnalysis : RcaReportDraft where
  status := .FAILED
  summaryZhTw := "Specialist 分析失敗，沒有可用證據，無法確認根因。"
  hypotheses := []
  missingEvidence := ["NO_USABLE_SPECIALIST_EVIDENCE"]
  remediation := ["請確認 MCP 服務狀態後重新執行 RCA。"]
  verificationSteps := ["重新執行後確認至少取得一項可追溯證據。"]
  summary_ne := by decide
  complete_cited := nofun
  failed_bare := fun _ => rfl

variable {draft report : RcaReportDraft} {known : List EvidenceReference}

/-- A report is valid exactly if it cites known references only. -/
theorem validate_eq_some : validate draft known = some report ↔
      report = draft ∧ ∀ reference ∈ draft.cited, reference ∈ known := by
  unfold validate
  split
  · next owned => exact ⟨fun h => ⟨(Option.some.inj h).symm, owned⟩, fun h => congrArg some h.1.symm⟩
  · next foreign => exact ⟨nofun, fun h => absurd h.2 foreign⟩

/-- A report that names failures is not complete, and cites what it cited. -/
theorem withSpecialistFailures_status : (withSpecialistFailures draft).status ≠ .COMPLETE := by
  unfold withSpecialistFailures
  split
  · assumption
  · exact nofun

/-- Naming the failures changes no citation. -/
theorem withSpecialistFailures_cited : (withSpecialistFailures draft).cited = draft.cited := by
  unfold withSpecialistFailures
  split <;> rfl

theorem withIncompleteSpecialistAnalyses_cited {analyses : List SpecialistAnalysisDraft} :
    (withIncompleteSpecialistAnalyses draft analyses).cited = draft.cited := by
  unfold withIncompleteSpecialistAnalyses
  split
  · rfl
  · exact withSpecialistFailures_cited

end RcaSynthesizer

end SreAgent.Rca
