import Mathlib
import SreAgent.Trace.Worker

/-!
# The trace the worker stores

Among the candidates the worker takes the one that ranks highest for the alert, keeps at most
`max_spans` of its spans together with their ancestors, lists them in preorder, and writes the
result as the dictionary that is stored with the evidence.
-/

namespace SreAgent.Trace
open Base JsonParse ParentChain

/-! ## Ranking -/

namespace CandidateTrace

variable (c : CandidateTrace)

/-- `span_by_id`. -/
def spanById (id : String) : Option WorkerSpan := c.spans.find? fun span => span.spanId = id

/-- The parent of a span, where it is known. -/
def parentOf : String → Option (Option String) := entry (workerLinks c.spans)

/-- `has_error`: the root or a critical span failed. -/
def hasError : Bool :=
  (c.spanById c.rootSpanId).any (fun root => root.status = "ERROR") ||
    c.spans.any fun span => span.status = "ERROR" && span.criticalPath

end CandidateTrace

/-- `str.lower`, as far as it yields characters of tokens: ASCII letters, the dotted capital I and the
Kelvin sign. -/
def lower (cs : List Char) : List Char :=
  cs.flatMap fun c =>
    if c.toNat = 304 then ['i', Char.ofNat 775] else if c.toNat = 8490 then ['k'] else [c.toLower]

def isTokenStart (c : Char) : Bool := c.isLower || c.isDigit

/-- `_TOKEN_PATTERN.findall`. -/
def tokens (cs : List Char) : List (List Char) :=
  ((cs.splitOnP fun c => !(isTokenStart c || c = '.' || c = '_' || c = '/' || c = '-')).map
    (List.dropWhile fun c => !isTokenStart c)).filter (· ≠ [])

/-- `_issue_match_score`. -/
def issueMatchScore (c : CandidateTrace) (alertIssue : String) : Nat :=
  let issueTokens := ((tokens (lower alertIssue.toList)).filter fun token => 3 ≤ token.length).dedup
  let traceText := [' '].intercalate (c.spans.map fun span =>
    lower (span.serviceName.toList ++ ' ' :: span.operationName.toList))
  (issueTokens.filter fun token => token <:+: traceText).length

/-- The key of `a` is at most the key of `b`. -/
def RanksAtMost (alertIssue : String) (a b : CandidateTrace) : Prop :=
  if a.hasError ≠ b.hasError then b.hasError = true
  else if a.latencyAnomalyScore ≠ b.latencyAnomalyScore then a.latencyAnomalyScore < b.latencyAnomalyScore
  else if issueMatchScore a alertIssue ≠ issueMatchScore b alertIssue then
    issueMatchScore a alertIssue < issueMatchScore b alertIssue
  else if a.durationMs ≠ b.durationMs then a.durationMs < b.durationMs
  else a.traceId ≤ b.traceId

instance (alertIssue : String) : DecidableRel (RanksAtMost alertIssue) := fun a b => by
  unfold RanksAtMost
  infer_instance

/-- `sorted` by the key, in reverse: equal candidates stay in order. -/
def ranked (alertIssue : String) (candidates : List CandidateTrace) : List CandidateTrace :=
  candidates.insertionSort fun a b => RanksAtMost alertIssue b a

/-! ## Truncation -/

/-- Siblings and stable order: by start, then by id. -/
def WorkerSpan.Earlier (a b : WorkerSpan) : Prop :=
  a.startOffsetMs < b.startOffsetMs ∨ a.startOffsetMs = b.startOffsetMs ∧ a.spanId ≤ b.spanId

instance : DecidableRel WorkerSpan.Earlier := fun a b => by
  unfold WorkerSpan.Earlier
  infer_instance

structure SelectedTrace where
  candidate : CandidateTrace
  selectedSpanIds : List String
  representativeScore : WithTop ℚ
  truncated : Bool

namespace CandidateTrace

variable (c : CandidateTrace)

/-- A span and its ancestors. -/
def chain : Nat → String → List String
  | 0, _ => []
  | fuel + 1, id =>
    match c.parentOf id with
    | some (some parent) => id :: chain fuel parent
    | _ => [id]

/-- `_ancestor_closure`. -/
def ancestorClosure (ids : List String) : Finset String :=
  (ids.flatMap (c.chain (c.spans.length + 1))).toFinset

/-- The selected children of a parent, the roots for none, by start and id. -/
def childrenOf (selected : Finset String) (parent : Option String) : List String :=
  ((c.spans.filter fun span => span.spanId ∈ selected ∧ span.parentSpanId = parent).insertionSort
    WorkerSpan.Earlier).map WorkerSpan.spanId

/-- `_topological_order`: `visit` calls itself for every level below the root. -/
def topologicalOrder (rt : Runtime) (selected : Finset String) : Except PyError (List String) :=
  match preorderWithin (c.childrenOf selected) rt.frames with
  | some ids => .ok ids
  | none => .error .recursionError

/-- `_stable_span_ids` of all spans. -/
def stableSpanIds : List String := (c.spans.insertionSort WorkerSpan.Earlier).map WorkerSpan.spanId

/-- `_add_with_ancestors`. -/
def addWithAncestors (maxSpans : Nat) (selected : Finset String) (id : String) : Finset String :=
  let joined := selected ∪ c.ancestorClosure [id]
  if joined.card ≤ maxSpans then joined else selected

/-- The critical spans and their ancestors, and the root. -/
def criticalClosure : Finset String :=
  insert c.rootSpanId (c.ancestorClosure ((c.spans.filter WorkerSpan.criticalPath).map WorkerSpan.spanId))

/-- The critical and the failed spans and their ancestors, and the root. -/
def requiredIds : Finset String :=
  let criticalIds := (c.spans.filter WorkerSpan.criticalPath).map WorkerSpan.spanId
  let errorIds := (c.spans.filter fun span => span.status = "ERROR").map WorkerSpan.spanId
  insert c.rootSpanId (c.ancestorClosure (criticalIds ++ errorIds))

/-- The spans `_truncate` selects. -/
def selectIds (rt : Runtime) (maxSpans : Nat) : Except PyError (Finset String) :=
  if maxSpans < c.requiredIds.card then do
    let ordered ← c.topologicalOrder rt c.criticalClosure
    return (ordered.take maxSpans).toFinset
  else return c.stableSpanIds.foldl (c.addWithAncestors maxSpans) c.requiredIds

/-- `_representative_score`. -/
def representativeScore (rt : Runtime) : WithTop ℚ :=
  rt.sum (rt.sum (if c.hasError then 1 else 0) c.latencyAnomalyScore) (rt.quotient c.durationMs 1000000000)

/-- `_truncate`. -/
def truncate (rt : Runtime) (maxSpans : Nat) : Except PyError SelectedTrace := do
  let selectedIds ← c.selectIds rt maxSpans
  let selectedSpanIds ← c.topologicalOrder rt selectedIds
  return ⟨c, selectedSpanIds, c.representativeScore rt, selectedSpanIds.length < c.spans.length⟩

end CandidateTrace

/-! ## The stored dictionary -/

/-- A float of the dictionary. -/
def floatJson (q : ℚ) : Json := .float (.finite q)

/-- A float that may be infinite. -/
def magnitudeJson : WithTop ℚ → Json
  | some q => floatJson q
  | none => .float (.infinite false)

def textOrNull : Option String → Json
  | none => .null
  | some s => .str s

def Scalar.toJson : Scalar → Json
  | .str s => .str s
  | .int n => .int n
  | .float x => .float x
  | .bool b => .bool b

/-- `to_storage_dict` of a span. -/
def WorkerSpan.toStorageDict (span : WorkerSpan) : JsonObject :=
  [("spanId", .str span.spanId), ("parentSpanId", textOrNull span.parentSpanId),
    ("serviceName", .str span.serviceName),
    ("operationName", .str span.operationName), ("startOffsetMs", floatJson span.startOffsetMs),
    ("durationMs", floatJson span.durationMs), ("status", .str span.status), ("kind", .str span.kind),
    ("criticalPath", .bool span.criticalPath),
    ("attributes", .obj (span.attributes.map fun (key, value) => (key, value.toJson)))]

/-- `value.astimezone(UTC)`, which fails outside the calendar. -/
def asUtc (startedAt : Int × Int) : Except PyError Int :=
  if 0 ≤ startedAt.1 - startedAt.2 ∧ startedAt.1 - startedAt.2 < 315537897600000000
    then .ok (startedAt.1 - startedAt.2)
  else .error .overflowError

/-- `_utc_timestamp`. -/
def utcTimestamp (startedAt : Int × Int) : Except PyError String :=
  (asUtc startedAt).map fun t => IsoTime.text t.toNat

/-- `to_storage_dict` of the selected trace. -/
def SelectedTrace.toStorageDict (t : SelectedTrace) : Except PyError JsonObject :=
  match t.candidate.spanById t.candidate.rootSpanId with
  | none => .error .keyError
  | some root => do
    let startedAt ← utcTimestamp t.candidate.startedAt
    return [("schemaVersion", .int 1), ("traceId", .str t.candidate.traceId),
      ("rootServiceName", .str root.serviceName),
      ("rootOperationName", .str root.operationName), ("startedAt", .str startedAt),
      ("durationMs", magnitudeJson t.candidate.durationMs), ("spanCount", .int t.candidate.spans.length),
      ("representativeScore", magnitudeJson t.representativeScore), ("truncated", .bool t.truncated),
      ("spans",
        .arr ((t.selectedSpanIds.filterMap t.candidate.spanById).map fun span => .obj span.toStorageDict))]

/-- `_MAX_RESPONSE_SPANS`. -/
def maxResponseSpans : Nat := 100

/-- `normalize_trace_evidence`. -/
def normalizeTraceEvidence (rt : Runtime) (payload : Json) (alertIssue : String) (maxSpans : Int) :
    Except PyError (Option JsonObject) :=
  if maxSpans < 1 then .ok none
  else do
    let candidates ← parseCandidates rt (candidateObjects payload)
    match ranked alertIssue candidates with
    | [] => return none
    | best :: _ =>
      let selected ← best.truncate rt (min maxSpans.toNat maxResponseSpans)
      return some (← selected.toStorageDict)

end SreAgent.Trace
