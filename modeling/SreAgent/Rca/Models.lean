import SreAgent.Base.JsonText
import SreAgent.Base.IsoTime
import SreAgent.Base.Time
import SreAgent.Ingestion.Normalizer

/-!
# Values of an analysis

Scopes, tools, evidence and analyses, each with what its model validators enforce.
-/

namespace SreAgent.Rca
open Base Ingestion

inductive SpecialistKind where
  | METRICS | TRACE | LOG
  deriving DecidableEq, Repr

namespace SpecialistKind

/-- The value of a kind; also the identity of its endpoint. -/
def value : SpecialistKind → String
  | .METRICS => "metrics"
  | .TRACE => "trace"
  | .LOG => "log"

/-- `_SPECIALIST_ORDER`. -/
def order : List SpecialistKind := [.METRICS, .TRACE, .LOG]

/-- `_SPECIALIST_TYPES`. -/
def type : SpecialistKind → String
  | .METRICS => "METRICS"
  | .TRACE => "TRACES"
  | .LOG => "LOGS"

/-- Every kind is in the order. -/
theorem mem_order (kind : SpecialistKind) : kind ∈ order := by
  cases kind <;> decide

end SpecialistKind

structure CloudScope where
  provider : Provider
  scopeId : String
  safe : Bool
  scopeId_ne : scopeId ≠ ""
  deriving DecidableEq

theorem shop_ne : "shop" ≠ "" := by decide

/-- `scope.model_dump(mode="json")`. -/
def CloudScope.dump (scope : CloudScope) : Json :=
  .obj [("provider", .str scope.provider.value), ("scope_id", .str scope.scopeId), ("safe", .bool scope.safe)]

structure AllowedTool where
  name : String
  capability : String
  endpointIdentity : SpecialistKind
  inputSchema : Json

structure SpecialistRequest where
  incidentId : Uuid
  rcaRunId : Uuid
  alertIssue : String
  scope : Option CloudScope
  windowStart : Timestamp
  windowEnd : Timestamp
  availableTools : List AllowedTool
  alertIssue_ne : alertIssue ≠ ""
  window_le : windowStart ≤ windowEnd

/-- `dict[str, Any] | list[Any]`. -/
def Structured {σ : Type} : Json σ → Prop
  | .obj _ | .arr _ => True
  | _ => False

/-- `[0-9a-f]{64}`. -/
def Sha256Text (s : String) : Prop := s.toList.length = 64 ∧ ∀ c ∈ s.toList, c ∈ "0123456789abcdef".toList

/-- `EvidenceDraft`, with its provenance. -/
structure EvidenceDraft where
  endpointIdentity : SpecialistKind
  capability : String
  tool : String
  inputScope : CloudScope
  normalizedScope : CloudScope
  observedAt : Timestamp
  requestWindowStart : Timestamp
  requestWindowEnd : Timestamp
  windowStart : Timestamp
  windowEnd : Timestamp
  structuredJson : PyJson
  rawResult : List UInt8
  contentType : String
  inputSha256 : String
  structured : Structured structuredJson
  contentType_length : 1 ≤ contentType.length ∧ contentType.length ≤ 255
  inputSha256_hex : Sha256Text inputSha256
  scope_safe : inputScope.safe = true ∧ inputScope.provider = .GCP
  scope_same : inputScope = normalizedScope
  capability_of : (endpointIdentity.value ++ ".").toList <+: capability.toList
  tool_of : endpointIdentity.value.toList <+: tool.toList
  window : requestWindowStart ≤ windowStart ∧ windowStart ≤ windowEnd ∧ windowEnd ≤ requestWindowEnd

structure EvidenceReference where
  id : Uuid
  deriving DecidableEq

inductive SpecialistAnalysisMode where
  | DISABLED | SHADOW | ACTIVE
  deriving DecidableEq

/-- `StableSpecialistCode`. -/
inductive StableSpecialistCode where
  | NO_SAFE_MCP_CAPABILITY | MCP_TIMEOUT | MCP_TRANSPORT | MCP_PAYLOAD_TOO_LARGE | MCP_RESULT_INVALID
  | ANALYSIS_TIMEOUT | ANALYSIS_SCHEMA_INVALID | ANALYSIS_UNKNOWN_EVIDENCE | ANALYSIS_INPUT_TRUNCATED
  | ANALYSIS_FAILED
  deriving DecidableEq, Repr

end SreAgent.Rca
