import SreAgent.Trace.Torn

/-!
# What leaves `normalize_trace_evidence`

`_parse_candidate` catches `TypeError` and `ValueError`. A server address nested too deeply raises
another exception, and three things are computed after all candidates are parsed: the order of the
spans, the start in UTC, and the sums of floats. `normalize_storable_iff` says when none of them
keeps a dictionary of finite numbers from being returned.
-/

namespace SreAgent.Trace
open Base JsonParse ParentChain

/-! ## The dictionary -/

section Dictionary

variable {i : Interpreter} {rt : Runtime}

/-- A float is never kept as an attribute. -/
theorem finite_of_kept {service operation key : String} {value : Scalar}
    (kept : keepsAttribute i service operation key value = .ok true) : value.toJson.Finite := by
  cases value with
  | float x =>
    unfold keepsAttribute at kept
    split_ifs at kept <;> cases kept
  | str | int | bool => simp [Scalar.toJson, Json.Finite]

/-- A filtered span has finite numbers. -/
theorem finite_span {span : WorkerSpan} (filtered : span.Filtered i) :
    (Json.obj span.toStorageDict).Finite := by
  have attributes : (Json.obj (span.attributes.map fun item => (item.1, item.2.toJson))).Finite := by
    refine Json.finite_obj.2 fun item hitem => ?_
    obtain ⟨⟨key, value⟩, hattribute, rfl⟩ := List.mem_map.1 hitem
    exact finite_of_kept (filtered _ hattribute)
  have parent : (textOrNull span.parentSpanId).Finite := by
    cases span.parentSpanId <;> simp [textOrNull, Json.Finite]
  refine Json.finite_obj.2 ?_
  simp only [WorkerSpan.toStorageDict, List.forall_mem_cons]
  exact ⟨trivial, parent, trivial, trivial, ⟨_, rfl⟩, ⟨_, rfl⟩, trivial, trivial, trivial, attributes,
    by simp⟩

/-- A magnitude is written finite where it is. -/
theorem finite_magnitudeJson {x : WithTop ℚ} : (magnitudeJson x).Finite ↔ x ≠ ⊤ := by
  cases x with
  | top =>
    refine iff_of_false ?_ (by simp)
    rintro ⟨q, h⟩
    cases h
  | coe q => exact iff_of_true ⟨q, rfl⟩ WithTop.coe_ne_top

/-- The numbers of the dictionary are finite where the duration and the score are. -/
theorem finite_dictionary {t : SelectedTrace} (filtered : ∀ span ∈ t.candidate.spans, span.Filtered i)
    (root : WorkerSpan) (startedAt : String) :
    (Json.obj (t.dictionary root startedAt)).Finite ↔
      t.candidate.durationMs ≠ ⊤ ∧ t.representativeScore ≠ ⊤ := by
  have spans :
      (Json.arr ((t.selectedSpanIds.filterMap t.candidate.spanById).map fun span =>
          .obj span.toStorageDict)).Finite := by
    refine Json.finite_arr.2 fun v hv => ?_
    obtain ⟨span, hspan, rfl⟩ := List.mem_map.1 hv
    obtain ⟨id, -, found⟩ := List.mem_filterMap.1 hspan
    exact finite_span (filtered span (List.mem_of_find?_eq_some found))
  rw [← finite_magnitudeJson, ← finite_magnitudeJson, Json.finite_obj]
  simp only [SelectedTrace.dictionary, List.forall_mem_cons]
  constructor
  · rintro ⟨-, -, -, -, -, duration, -, score, -⟩
    exact ⟨duration, score⟩
  · rintro ⟨duration, score⟩
    exact ⟨trivial, trivial, trivial, trivial, trivial, duration, trivial, score, trivial, spans, by simp⟩

end Dictionary

/-! ## Runs -/

/-- The filter of no span exhausts the stack on a server address before another one drops the candidate. -/
def Readable (rt : Runtime) (raw : JsonObject) : Prop :=
  ∀ trace root, readTrace rt raw = some trace → trace.WellFormed rt root →
    ¬ StopsWith rt.toInterpreter .recursionError trace.spans

/-- The start of the trace is an instant of the calendar in UTC too. -/
def CandidateTrace.InCalendar (c : CandidateTrace) : Prop :=
  0 ≤ c.startedAt.1 - c.startedAt.2 ∧ c.startedAt.1 - c.startedAt.2 < 315537897600000000

/-- What is computed of a trace after parsing stays within its limits: the stack, the calendar, and
the range of floats, for the duration and for the sum of the error, the anomaly score and a billionth
of it. -/
structure CandidateTrace.WithinLimits (rt : Runtime) (maxSpans : Nat) (c : CandidateTrace) : Prop where
  stack : c.FitsStack rt maxSpans
  calendar : c.InCalendar
  duration : c.durationMs ≠ ⊤
  score : rt.weigh (if c.hasError then 1 else 0) c ≠ ⊤

/-- A run returns a dictionary of finite numbers, or nothing where there is no valid trace or no room
for a span. -/
def ReturnsStorable (rt : Runtime) (payload : Json) (alertIssue : String) (maxSpans : Int) : Prop :=
  ∃ result, normalizeTraceEvidence rt payload alertIssue maxSpans = .ok result ∧
    (∀ d, result = some d → (Json.obj d).Finite) ∧
    (result = none → maxSpans < 1 ∨ validTraces rt (candidateObjects payload) = [])

section Runs

variable {rt : Runtime} {raw : JsonObject} {c : CandidateTrace}

/-- A trace is readable where it does not fail. -/
theorem readable_iff : Readable rt raw ↔ ∃ c, parseCandidate rt raw = .ok c := by
  constructor
  · intro readable
    cases parsed : parseCandidate rt raw with
    | ok c => exact ⟨c, rfl⟩
    | error e =>
      obtain ⟨-, trace, root, found, wellFormed, stops⟩ := parseCandidate_error parsed
      exact absurd stops (readable trace root found wellFormed)
  · rintro ⟨c, parsed⟩ trace root found wellFormed stops
    cases parsed.symm.trans (parse_of_stops found wellFormed stops)

/-- A start is converted to UTC exactly within the calendar. -/
theorem asUtc_of_inCalendar : (∃ instant, asUtc c.startedAt = .ok instant) ↔ c.InCalendar := by
  unfold asUtc CandidateTrace.InCalendar
  split
  · next range => exact iff_of_true ⟨_, rfl⟩ range
  · next range => exact iff_of_false nofun range

/-- A trace is stored as a dictionary of finite numbers exactly within its limits. -/
theorem stored_iff (h : c.Checked rt) (maxSpans : Nat) :
    (∃ d, (c.truncate rt maxSpans >>= SelectedTrace.toStorageDict) = .ok d ∧ (Json.obj d).Finite) ↔
      c.WithinLimits rt maxSpans := by
  obtain ⟨root, hroot, rootId, -⟩ := h.root
  have found : c.spanById c.rootSpanId = some root := h.toSpanTree.spanById_eq.2 ⟨hroot, rootId⟩
  have filtered : ∀ span ∈ c.spans, span.Filtered rt.toInterpreter :=
    fun span hspan => (h.spans span hspan).2.1
  have same : ∀ {t : SelectedTrace}, c.truncate rt maxSpans = .ok t →
      t.candidate = c ∧ t.representativeScore = rt.weigh (if c.hasError then 1 else 0) c := by
    intro t ht
    obtain ⟨-, -, -, ht⟩ := CandidateTrace.truncate_eq_ok ht
    rw [ht]
    exact ⟨rfl, rfl⟩
  constructor
  · rintro ⟨d, stored, finite⟩
    cases ht : c.truncate rt maxSpans with
    | error e =>
      rw [ht] at stored
      cases stored
    | ok t =>
      obtain ⟨candidate, score⟩ := same ht
      rw [ht] at stored
      have calendar : c.InCalendar := by
        refine asUtc_of_inCalendar.1 ?_
        cases started : asUtc c.startedAt with
        | ok instant => exact ⟨instant, rfl⟩
        | error e =>
          simp only [bind, Except.bind, SelectedTrace.toStorageDict, candidate, found, utcTimestamp,
            started, Except.map] at stored
          cases stored
      obtain ⟨root', instant, -, -, rfl⟩ := toStorageDict_eq_ok stored
      rw [finite_dictionary (candidate.symm ▸ filtered), candidate, score] at finite
      exact ⟨(CandidateTrace.truncate_returns_iff h.toSpanTree).1 ⟨t, ht⟩, calendar, finite.1, finite.2⟩
  · rintro ⟨stack, calendar, duration, score⟩
    obtain ⟨t, ht⟩ := (CandidateTrace.truncate_returns_iff h.toSpanTree).2 stack
    obtain ⟨instant, started⟩ := asUtc_of_inCalendar.2 calendar
    obtain ⟨candidate, weight⟩ := same ht
    refine ⟨t.dictionary root (IsoTime.text instant.toNat), ?_, ?_⟩
    · rw [ht]
      simp only [bind, Except.bind, SelectedTrace.toStorageDict, candidate, found, utcTimestamp, started,
        Except.map]
      simp only [SelectedTrace.dictionary, candidate, SelectedTrace.spans]
      rfl
    · rw [finite_dictionary (candidate.symm ▸ filtered), candidate, weight]
      exact ⟨duration, score⟩

variable {payload : Json} {alertIssue : String} {maxSpans : Int}

/-- The worker returns storable JSON exactly where every candidate can be read and the first in the
ranking stays within its limits. -/
theorem normalize_storable_iff : ReturnsStorable rt payload alertIssue maxSpans ↔
    maxSpans < 1 ∨ (∀ raw ∈ candidateObjects payload, Readable rt raw) ∧
      ∀ best, (ranked alertIssue (validTraces rt (candidateObjects payload))).head? = some best →
        best.WithinLimits rt (min maxSpans.toNat maxResponseSpans) := by
  by_cases pos : maxSpans < 1
  · refine iff_of_true ⟨none, ?_, fun _ h => (by cases h), fun _ => .inl pos⟩ (.inl pos)
    rw [normalizeTraceEvidence, if_pos pos]
  rw [or_iff_right pos]
  rcases normalize_eq payload alertIssue pos with ⟨⟨raw, hraw, e, stopped⟩, error⟩ | ⟨parsed, stored⟩
  · refine iff_of_false ?_ ?_
    · rintro ⟨result, returns, -⟩
      cases error.symm.trans returns
    · rintro ⟨readable, -⟩
      obtain ⟨c, hc⟩ := readable_iff.1 (readable raw hraw)
      cases hc.symm.trans stopped
  · rw [and_iff_right fun raw hraw => readable_iff.2 (parsed raw hraw), ReturnsStorable, stored, storedBest]
    cases hranked : ranked alertIssue (validTraces rt (candidateObjects payload)) with
    | nil =>
      refine iff_of_true ⟨none, rfl, fun _ h => (by cases h), fun _ => .inr ?_⟩ fun _ h => (by cases h)
      exact List.perm_nil.1 (hranked ▸ (List.perm_insertionSort _ _).symm)
    | cons best rest =>
      have inside : best ∈ validTraces rt (candidateObjects payload) :=
        (List.mem_insertionSort _).1 (hranked ▸ List.mem_cons_self : best ∈ ranked alertIssue _)
      obtain ⟨raw, -, valid⟩ := mem_validTraces.1 inside
      simp only [List.head?_cons, Option.some.injEq, forall_eq', ← stored_iff (parseCandidate_checked valid)]
      generalize (best.truncate rt (min maxSpans.toNat maxResponseSpans) >>=
        SelectedTrace.toStorageDict) = run
      cases run with
      | error e =>
        refine iff_of_false ?_ ?_ <;> rintro ⟨_, returns, -⟩ <;> cases returns
      | ok d =>
        constructor
        · rintro ⟨result, returns, finite, -⟩
          cases returns
          exact ⟨d, rfl, finite d rfl⟩
        · rintro ⟨d', returns, finite⟩
          cases returns
          exact ⟨some d, rfl, fun _ h => by cases h; exact finite, fun h => (by cases h)⟩

end Runs

/-! ## At the edges -/

theorem firstHour : 0 ≤ (1800000000 : Int) ∧ (1800000000 : Int) < 315537897600000000 := by decide

/-- Floats that overflow, and an instant of the first hour of year 1, an hour east of Greenwich. -/
def edgeRuntime : Runtime where
  toInterpreter := isoRuntime.toInterpreter
  digits_le := isoRuntime.digits_le
  depth_le := isoRuntime.depth_le
  round q := if q < floatBound then .finite q else .infinite false
  round_nonneg q h := by
    by_cases small : q < floatBound
    · exact .inr ⟨q, h, if_pos small⟩
    · exact .inl (if_neg small)
  frames := 1000
  readDatetime v :=
    match v with
    | .str s =>
      if s = "0001-01-01T00:30:00+01:00" then some ⟨1800000000, some 3600000000, firstHour⟩
        else isoRuntime.readDatetime v
    | _ => none

/-- A raw trace of one span. -/
def edgeTrace (id startedAt status : String) (start duration : Json) : Json :=
  .obj [("traceId", .str id), ("startedAt", .str startedAt), ("spans", .arr [.obj [("spanId", .str "1"),
    ("serviceName", .str "api"), ("operationName", .str "GET /a"), ("startOffsetMs", start),
    ("durationMs", duration),
    ("status", .str status), ("kind", .str "SERVER"), ("criticalPath", .bool true),
    ("attributes", .obj [])]])]

/-- A failed trace of year 1, and one that could be stored. -/
def earlyAndPlain : Json :=
  .arr [edgeTrace "a" "0001-01-01T00:30:00+01:00" "ERROR" (.int 0) (.int 1),
    edgeTrace "b" "2026-08-23T01:02:03Z" "OK" (.int 0) (.int 1)]

/-- A trace whose span ends beyond the range of floats. -/
def lateEnd : Json :=
  .arr [edgeTrace "a" "2026-08-23T01:02:03Z" "OK" (floatJson (2 ^ 1023)) (floatJson (2 ^ 1023))]

/-- The exception a run ends in. -/
def raisedBy : Except PyError (Option JsonObject) → Option PyError
  | .ok _ => none
  | .error e => some e

/-- The field holds an infinity. -/
def isInfinite : Option Json → Bool
  | some (.float (.infinite _)) => true
  | _ => false

/-- The trace of year 1 stops the other one from being returned, and an end that overflows is stored
as infinity. -/
theorem edges_not_storable :
    normalizeTraceEvidence edgeRuntime earlyAndPlain "latency" 100 = .error .overflowError ∧
      ¬ ReturnsStorable edgeRuntime earlyAndPlain "latency" 100 ∧
        ¬ ReturnsStorable edgeRuntime lateEnd "latency" 100 := by
  have raised : raisedBy (normalizeTraceEvidence edgeRuntime earlyAndPlain "latency" 100) =
      some .overflowError := by
    decide +kernel
  have early : normalizeTraceEvidence edgeRuntime earlyAndPlain "latency" 100 = .error .overflowError := by
    cases run : normalizeTraceEvidence edgeRuntime earlyAndPlain "latency" 100 with
    | ok result => rw [run] at raised; cases raised
    | error e =>
      rw [run] at raised
      exact congrArg Except.error (Option.some.inj raised)
  have infinite : (returned (normalizeTraceEvidence edgeRuntime lateEnd "latency" 100)).any (fun d =>
      isInfinite (JsonObject.get? d "durationMs")) = true := by
    decide +kernel
  refine ⟨early, ?_, ?_⟩
  · rintro ⟨result, returns, -⟩
    cases early.symm.trans returns
  · rintro ⟨result, returns, finite, -⟩
    obtain ⟨d, hd, stored⟩ := (Option.any_eq_true _ _).1 infinite
    cases (returned_eq_some hd).symm.trans returns
    have each := Json.finite_obj.1 (finite d rfl)
    unfold isInfinite at stored
    split at stored
    · next found =>
      obtain ⟨q, hq⟩ := each _ (JsonObject.mem_of_get? found)
      cases hq
    · cases stored

end SreAgent.Trace
