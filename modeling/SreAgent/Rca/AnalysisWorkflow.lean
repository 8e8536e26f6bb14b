import SreAgent.Base.Retries
import SreAgent.Base.Slots
import SreAgent.Rca.Discovery

/-!
# `SpecialistAnalysisWorkflow`

The router selects the kinds with tools; each runs its branch in a task of its own, at most twice, and
files what comes of it under its kind. What the branches returned is sorted once more, so that an
analysis without observations counts as a failure.
-/

namespace SreAgent.Rca
open Base Retries Slots

/-! ## Routes -/

inductive RouteReasonCode where
  | METRICS_AVAILABLE | METRICS_CAPABILITY_MISSING | TRACE_AVAILABLE | TRACE_CAPABILITY_MISSING
  | LOG_AVAILABLE | LOG_CAPABILITY_MISSING | NON_GCP_OR_UNSAFE_SCOPE
  deriving DecidableEq

structure RoutePlan where
  selected : List SpecialistKind
  reasonCodes : List RouteReasonCode

/-- `_AVAILABLE`. -/
def SpecialistKind.available : SpecialistKind → RouteReasonCode
  | .METRICS => .METRICS_AVAILABLE
  | .TRACE => .TRACE_AVAILABLE
  | .LOG => .LOG_AVAILABLE

/-- `_MISSING`. -/
def SpecialistKind.missing : SpecialistKind → RouteReasonCode
  | .METRICS => .METRICS_CAPABILITY_MISSING
  | .TRACE => .TRACE_CAPABILITY_MISSING
  | .LOG => .LOG_CAPABILITY_MISSING

/-- `RuleRouter.route`. -/
def route (context : IncidentContext) (capabilities : CapabilitySet) : RoutePlan :=
  match context.scope.filter fun scope => scope.provider = .GCP ∧ scope.safe = true with
  | none => ⟨[], [.NON_GCP_OR_UNSAFE_SCOPE]⟩
  | some _ =>
    let offered := fun kind => !(capabilities.forSpecialist kind).isEmpty
    ⟨SpecialistKind.order.filter offered, SpecialistKind.order.map fun kind => if offered kind
      then kind.available else kind.missing⟩

/-- A routed specialist has a tool. -/
theorem tools_of_routed {context : IncidentContext} {capabilities : CapabilitySet} {kind : SpecialistKind}
    (h : kind ∈ (route context capabilities).selected) : capabilities.forSpecialist kind ≠ [] := by
  unfold route at h
  split at h
  · cases h
  · have offered := (List.mem_filter.1 h).2
    intro none
    rw [none] at offered
    cases offered

/-! ## The end of a branch -/

/-- `_VALIDATION_CODES`. -/
def validationCodes : List String := ["ANALYSIS_SCHEMA_INVALID", "ANALYSIS_UNKNOWN_EVIDENCE"]

/-- `_exception_code`. -/
def exceptionCode (allowedCodes : List String) (e : Raised) : StableSpecialistCode :=
  match e.code with
  | none => .ANALYSIS_FAILED
  | some code =>
    if code ∈ allowedCodes then (StableSpecialistCode.ofText code).getD .ANALYSIS_FAILED else .ANALYSIS_FAILED

/-- `_failure`. -/
def stableFailure (kind : SpecialistKind) (code : StableSpecialistCode) : SpecialistFailure :=
  ⟨kind, code.text⟩

/-- The `except` clauses of `invoke`: a failure, or nothing where it tries again. -/
def invokeCode (attempt : Nat) (e : Raised) : Option StableSpecialistCode :=
  if e.timeoutError then some .ANALYSIS_TIMEOUT
  else if e.transport then if attempt = 0 then none else some .MCP_TRANSPORT
  else if e.mcpPayloadTooLarge then some .MCP_PAYLOAD_TOO_LARGE
  else if e.mcpResultInvalid then some .MCP_RESULT_INVALID
  else if e.analysisValidation then some (exceptionCode validationCodes e)
  else
    let code := exceptionCode stableSpecialistCodes e
    if code = .MCP_TRANSPORT ∧ attempt = 0 then none else some code

/-- How an invoked branch ends. -/
inductive BranchEnd where
  | returned (result : SpecialistAnalysisResult)
  | raised (e : Raised)

/-- What `invoke` makes of the end of a branch. -/
def settleBranch (kind : SpecialistKind) (attempt : Nat) : BranchEnd →
      Verdict SpecialistAnalysisResult SpecialistFailure
  | .returned result =>
    if result.analysis.specialist ≠ kind then .failed (stableFailure kind .ANALYSIS_SCHEMA_INVALID)
      else .filed result
  | .raised e =>
    match invokeCode attempt e with
    | none => .again
    | some code => .failed (stableFailure kind code)

/-- `_remaining_seconds`, of a reading that may be naive. -/
def remaining (deadline : Timestamp) (now : Option Timestamp) : Option Int :=
  match now with
  | none => none
  | some now => if 0 < deadline - now then some (deadline - now) else none

/-- `invoke`: its two attempts, the check before each, and what it makes of their ends. -/
def invoke (deadline : Timestamp) :
    Policy SpecialistKind (Option Timestamp) BranchEnd SpecialistAnalysisResult SpecialistFailure where
  limit := 2
  refuses kind now :=
    match remaining deadline now with
    | none => some (stableFailure kind .ANALYSIS_TIMEOUT)
    | some _ => none
  settle := settleBranch

/-! ## Bundles -/

/-- An analysis that is moved to the failures. -/
def AnalysisFields.Unusable (a : AnalysisFields) : Prop := a.status = .FAILED ∨ a.observations = []

instance (a : AnalysisFields) : Decidable a.Unusable := inferInstanceAs (Decidable (_ ∨ _))

/-- `_returned_analysis_failure_code`. -/
def returnedAnalysisFailureCode (analysis : AnalysisFields) : StableSpecialistCode :=
  (analysis.missingEvidence.find? fun code => code.text ∈ stableSpecialistCodes).getD .ANALYSIS_FAILED

/-- The dictionaries of `normalize_specialist_analysis_bundle`. -/
structure Sorted where
  results : SpecialistKind → Option SpecialistAnalysisResult
  failures : SpecialistKind → Option SpecialistFailure

def SpecialistAnalysisResult.specialist (result : SpecialistAnalysisResult) : SpecialistKind :=
  result.analysis.specialist

/-- The failure an unusable result becomes. -/
def SpecialistAnalysisResult.failure (result : SpecialistAnalysisResult) : SpecialistFailure :=
  stableFailure result.specialist (returnedAnalysisFailureCode result.analysis)

def Sorted.sort (d : Sorted) (result : SpecialistAnalysisResult) : Sorted :=
  if result.analysis.Unusable
    then { d with failures := Function.update d.failures result.specialist (some result.failure) }
  else { d with results := Function.update d.results result.specialist (some result) }

/-- `normalize_specialist_analysis_bundle`. -/
def normalizeSpecialistAnalysisBundle (bundle : SpecialistAnalysisBundle) : Option SpecialistAnalysisBundle :=
  let d :=
    bundle.results.foldl Sorted.sort
      ⟨fun _ => none, file SpecialistFailure.specialist bundle.failures fun _ => none⟩
  SpecialistAnalysisBundle.validate (inOrder SpecialistKind.order d.results)
    (inOrder SpecialistKind.order d.failures)

/-- The failures of discovery, as failures of specialists. -/
def discoveryFailures (capabilities : CapabilitySet) : SpecialistKind → Option SpecialistFailure :=
  file SpecialistFailure.specialist
    (capabilities.discoveryFailures.map fun failure => stableFailure failure.specialist failure.code.stable)
    fun _ => none

/-- The tasks of a run, before the first attempt. -/
def startAnalyses (context : IncidentContext) (capabilities : CapabilitySet) :
    State SpecialistKind SpecialistAnalysisResult SpecialistFailure :=
  .start (route context capabilities).selected (discoveryFailures capabilities)

/-- What `SpecialistAnalysisWorkflow.run` returns when its tasks have ended. -/
def analyses (context : IncidentContext) (capabilities : CapabilitySet)
    (s : State SpecialistKind SpecialistAnalysisResult SpecialistFailure) :
    Option SpecialistAnalysisBundle :=
  if (route context capabilities).selected = []
    then SpecialistAnalysisBundle.validate [] (inOrder SpecialistKind.order (discoveryFailures capabilities))
  else
    (SpecialistAnalysisBundle.validate (inOrder SpecialistKind.order s.results)
      (inOrder SpecialistKind.order s.failures)).bind
      normalizeSpecialistAnalysisBundle

end SreAgent.Rca
