import Mathlib
import SreAgent.Trace.Selection

/-!
# What the worker knows of a candidate

A candidate that passed the worker's validation has spans whose labels, times and attributes were
checked one by one, and these spans are one tree (`CandidateTrace.Checked`).
-/

namespace SreAgent.Trace
open Base JsonParse ParentChain

/-- A label that passed its pattern and the JWT filter. -/
def PlainLabel (i : Interpreter) (pattern : List Char → Bool) (s : String) : Prop :=
  s ≠ "" ∧ pattern s.toList = true ∧ isCompactJwt i s = .ok false

/-- The checks of a span. -/
structure WorkerSpan.Checked (i : Interpreter) (span : WorkerSpan) : Prop where
  spanId : span.spanId ≠ ""
  serviceName : PlainLabel i serviceNamePattern span.serviceName
  operationName : PlainLabel i (fun cs => httpOperationPattern cs || identifierOperationPattern cs)
    span.operationName
  start : 0 ≤ span.startOffsetMs
  duration : 0 ≤ span.durationMs
  status : span.status ∈ statuses
  kind : span.kind ∈ kinds

/-- The attributes of a span are the kept ones. -/
def WorkerSpan.Filtered (i : Interpreter) (span : WorkerSpan) : Prop :=
  ∀ item ∈ span.attributes, keepsAttribute i span.serviceName span.operationName item.1 item.2 = .ok true

/-- The spans of a candidate are one tree under its root. -/
structure CandidateTrace.SpanTree (c : CandidateTrace) : Prop where
  tree : IsTree (workerLinks c.spans)
  root : ∃ root ∈ c.spans, root.spanId = c.rootSpanId ∧ root.parentSpanId = none

structure CandidateTrace.Checked (rt : Runtime) (c : CandidateTrace) : Prop extends c.SpanTree where
  traceId : c.traceId ≠ ""
  score : 0 ≤ c.latencyAnomalyScore
  duration : 0 ≤ c.durationMs
  spans : ∀ span ∈ c.spans, span.Checked rt.toInterpreter ∧ span.Filtered rt.toInterpreter ∧
    span.endMs rt ≤ rt.sum c.durationMs 1
  finite : (∀ span ∈ c.spans, span.endMs rt ≠ ⊤) → c.durationMs ≠ ⊤

section Fields

variable {i : Interpreter} {rt : Runtime}

/-- A number that is not negative rounds to one. -/
theorem round_finite_nonneg {q r : ℚ} (nonneg : 0 ≤ q) (h : rt.round q = .finite r) : 0 ≤ r := by
  rcases rt.round_nonneg q nonneg with infinite | ⟨s, hs, finite⟩
  · cases h.symm.trans infinite
  · cases h.symm.trans finite
    exact hs

theorem magnitude_nonneg {q : ℚ} (nonneg : 0 ≤ q) : 0 ≤ rt.magnitude q := by
  unfold Runtime.magnitude
  split
  · next h => exact WithTop.coe_nonneg.2 (round_finite_nonneg nonneg h)
  · exact le_top

theorem sum_nonneg {x y : WithTop ℚ} (hx : 0 ≤ x) (hy : 0 ≤ y) : 0 ≤ rt.sum x y := by
  induction x using WithTop.recTopCoe with
  | top => exact le_top
  | coe a =>
    induction y using WithTop.recTopCoe with
    | top => exact le_top
    | coe b => exact magnitude_nonneg (add_nonneg (WithTop.coe_nonneg.1 hx) (WithTop.coe_nonneg.1 hy))

theorem quotient_nonneg {x : WithTop ℚ} (hx : 0 ≤ x) {n : ℚ} (hn : 0 ≤ n) : 0 ≤ rt.quotient x n := by
  induction x using WithTop.recTopCoe with
  | top => exact le_top
  | coe a => exact magnitude_nonneg (div_nonneg (WithTop.coe_nonneg.1 hx) hn)

theorem nonNegative_nonneg {v : Json} {q : ℚ} (h : nonNegative rt v = some q) : 0 ≤ q := by
  unfold nonNegative at h
  split at h
  · next n =>
    split at h
    · cases h
    · next ok =>
      simp only [not_or, not_lt] at ok
      split at h
      · next hr =>
        cases h
        exact round_finite_nonneg (by exact_mod_cast ok.1) hr
      · cases h
  · split at h
    · cases h
    · next ok =>
      cases h
      exact not_lt.1 ok
  · cases h

theorem spanTime_nonneg {v : Option Json} {q : ℚ} (h : spanTime rt v = .valid q) : 0 ≤ q := by
  unfold spanTime at h
  split at h
  · cases h
  · split at h
    · split at h
      · next hq =>
        cases h
        exact nonNegative_nonneg hq
      · cases h
    · split at h
      · next hq =>
        cases h
        exact nonNegative_nonneg hq
      · cases h
    · cases h

theorem latencyScore_nonneg {v : Option Json} {q : ℚ} (h : latencyScore rt v = .valid q) : 0 ≤ q := by
  unfold latencyScore at h
  split at h
  · cases h
    exact le_refl _
  · split at h
    · next hq =>
      cases h
      exact nonNegative_nonneg hq
    · cases h

theorem traceDuration_nonneg {v : Option Json} {q : ℚ} (h : traceDuration rt v = .valid (some q)) :
    0 ≤ q := by
  unfold traceDuration at h
  split at h
  · cases h
  · cases h
  · split at h
    · next hq =>
      cases h
      exact nonNegative_nonneg hq
    · cases h

theorem literal_mem {texts : List String} {v : Option Json} {s : String} (h : literal texts v = .valid s) :
    s ∈ texts := by
  unfold literal at h
  split at h
  · split at h
    · next hs =>
      cases h
      exact hs
    · cases h
  · cases h

/-- A span that is accepted satisfies its own checks. -/
theorem validateSpan_checked {v : Json} {span : WorkerSpan} (h : validateSpan rt v = .valid span) :
    span.Checked rt.toInterpreter := by
  match v with
  | .obj d =>
    simp only [validateSpan, Outcome.map_eq_valid, Outcome.both_eq_valid] at h
    obtain ⟨⟨a₁, a₂, a₃, a₄, a₅, a₆, a₇, a₈, a₉, a₁₀, ⟨⟩⟩, ⟨h₁, -, h₃, h₄, h₅, h₆, h₇, h₈, -, -, -⟩, rfl⟩ := h
    exact ⟨(nonEmpty_eq_valid.1 h₁).2, (textField_eq_valid.1 h₃).2, (textField_eq_valid.1 h₄).2,
      spanTime_nonneg h₅, spanTime_nonneg h₆, literal_mem h₇, literal_mem h₈⟩
  | .null | .bool _ | .int _ | .float _ | .str _ | .arr _ => cases h

/-- Spans that are accepted satisfy theirs, and there is one. -/
theorem inputSpans_checked {v : Option Json} {spans : List WorkerSpan} (h : inputSpans rt v = .valid spans) :
    spans ≠ [] ∧ ∀ span ∈ spans, span.Checked rt.toInterpreter := by
  unfold inputSpans at h
  split at h
  · next items =>
    obtain ⟨spans', hall, hif⟩ := Outcome.andThen_eq_valid.1 h
    split at hif
    · cases hif
    · next nonempty =>
      cases hif
      refine ⟨fun none_ => nonempty ?_, fun span hspan => ?_⟩
      · rw [none_] at hall
        exact List.forall₂_nil_right_iff.1 (List.forall₂_map_left_iff.1 (Outcome.all_eq_valid.1 hall))
      · obtain ⟨item, -, hitem⟩ := List.mem_map.1 (Outcome.all_mem hall hspan)
        exact validateSpan_checked hitem
  · cases h

/-- A trace that is accepted satisfies the checks of its fields. -/
theorem validateTrace_checked {d : JsonObject} {trace : InputTrace} (h : validateTrace rt d = .valid trace) :
    trace.traceId ≠ "" ∧ 0 ≤ trace.latencyAnomalyScore ∧ (∀ q, trace.durationMs = some q → 0 ≤ q) ∧
      trace.spans ≠ [] ∧ ∀ span ∈ trace.spans, span.Checked rt.toInterpreter := by
  simp only [validateTrace, Outcome.map_eq_valid, Outcome.both_eq_valid] at h
  obtain ⟨⟨a₁, a₂, a₃, a₄, a₅, ⟨⟩⟩, ⟨h₁, -, h₃, h₄, h₅, -⟩, rfl⟩ := h
  dsimp only at h₄ ⊢
  refine ⟨(nonEmpty_eq_valid.1 h₁).2, latencyScore_nonneg h₃, ?_, inputSpans_checked h₅⟩
  rintro q rfl
  exact traceDuration_nonneg h₄

end Fields

/-! ## Attributes -/

section Attributes

variable {i : Interpreter} {service operation : String}

/-- What the filter keeps it would keep again. -/
theorem safeAttributes_kept {attributes safe : Attributes}
    (h : safeAttributes i service operation attributes = .ok safe) :
    ∀ item ∈ safe, keepsAttribute i service operation item.1 item.2 = .ok true := by
  induction attributes generalizing safe with
  | nil =>
    cases h
    simp
  | cons item rest ih =>
    obtain ⟨key, value⟩ := item
    simp only [safeAttributes] at h
    cases hkeep : keepsAttribute i service operation key value with
    | error e => rw [hkeep] at h; cases h
    | ok keep =>
      cases hrest : safeAttributes i service operation rest with
      | error e => rw [hkeep, hrest] at h; cases h
      | ok safe' =>
        rw [hkeep, hrest] at h
        have kept := ih hrest
        cases keep <;> cases h
        · exact kept
        · intro item hitem
          rcases List.mem_cons.1 hitem with rfl | hitem
          · exact hkeep
          · exact kept item hitem

/-- A filtered map passes the filter unchanged. -/
theorem safeAttributes_of_kept {attributes : Attributes}
    (kept : ∀ item ∈ attributes, keepsAttribute i service operation item.1 item.2 = .ok true) :
    safeAttributes i service operation attributes = .ok attributes := by
  induction attributes with
  | nil => rfl
  | cons item rest ih =>
    obtain ⟨key, value⟩ := item
    simp only [safeAttributes, kept (key, value) List.mem_cons_self,
      ih fun item hitem => kept item (List.mem_cons_of_mem _ hitem)]
    rfl

/-- Only allow-listed attributes are kept. -/
theorem allowed_of_kept {key : String} {value : Scalar}
    (h : keepsAttribute i service operation key value = .ok true) :
    key ∈ allowedAttributes := by
  unfold keepsAttribute at h
  split_ifs at h with h₁ h₂ h₃ h₄ h₅ h₆ h₇ h₈ h₉ <;> first | cases h | skip
  all_goals subst_vars; decide

/-- Normalization filters the attributes of each span, and keeps the rest. -/
theorem normalizeSpans_each {spans normalized : List WorkerSpan}
    (h : normalizeSpans i spans = .ok normalized) :
    List.Forall₂ (fun span span' => ∃ attributes, span' = { span with attributes } ∧
      safeAttributes i span.serviceName span.operationName span.attributes =
        .ok attributes) spans normalized := by
  induction spans generalizing normalized with
  | nil =>
    cases h
    exact .nil
  | cons span rest ih =>
    simp only [normalizeSpans] at h
    cases hattributes : safeAttributes i span.serviceName span.operationName span.attributes with
    | error e => rw [hattributes] at h; cases h
    | ok attributes =>
      cases hrest : normalizeSpans i rest with
      | error e => rw [hattributes, hrest] at h; cases h
      | ok normalized' =>
        rw [hattributes, hrest] at h
        cases h
        exact .cons ⟨attributes, rfl, hattributes⟩ (ih hrest)

end Attributes

/-! ## Candidates -/

section Candidates

variable {i : Interpreter} {rt : Runtime}

theorem map_fst_workerLinks (spans : List WorkerSpan) :
    (workerLinks spans).map Prod.fst = spans.map WorkerSpan.spanId := by
  simp [workerLinks]

/-- The checks of `_validated_candidate` leave a tree. -/
theorem isTree_of_checks {spans : List WorkerSpan} (distinct : (spans.map WorkerSpan.spanId).Nodup)
    {root : WorkerSpan} (oneRoot : (spans.filter fun span => span.parentSpanId = none) = [root])
    (parents : ∀ span ∈ spans, ∀ p, span.parentSpanId = some p → p ∈ spans.map WorkerSpan.spanId)
    (noCycle : hasCycle spans = false) : IsTree (workerLinks spans) := by
  have distinct' : ((workerLinks spans).map Prod.fst).Nodup := by rwa [map_fst_workerLinks]
  have parents' : ∀ link ∈ workerLinks spans, ∀ p, link.2 = some p →
      p ∈ (workerLinks spans).map Prod.fst := by
    intro link hlink p hp
    obtain ⟨span, hspan, rfl⟩ := List.mem_map.1 hlink
    rw [map_fst_workerLinks]
    exact parents span hspan p hp
  have root' : ((workerLinks spans).filter fun link => link.2 = none).length = 1 := by
    have : ((workerLinks spans).filter fun link => link.2 = none).length =
        (spans.filter fun span => span.parentSpanId = none).length := by
      simp [workerLinks, List.filter_map, Function.comp_def]
    rw [this, oneRoot]
    rfl
  refine (isTree_iff distinct' root').2 fun link hlink => ?_
  obtain ⟨span, hspan, rfl⟩ := List.mem_map.1 hlink
  have cases_ := walk_cases (entry_known (workerLinks spans)) span.spanId
  rw [map_fst_workerLinks, List.length_map] at cases_
  rcases cases_ with ⟨-, ends⟩ | ⟨-, dangles⟩ | ⟨h, -⟩
  · exact ends
  · exact absurd (List.mem_map_of_mem hlink) (unlisted_of_dangles parents' dangles)
  · have := List.any_eq_false.1 noCycle span hspan
    simp [h] at this

/-- A derived duration is no negative number. -/
theorem derivedDuration_nonneg {spans : List WorkerSpan} (h : ∀ span ∈ spans, 0 ≤ span.endMs rt) :
    0 ≤ derivedDuration rt spans := by
  induction spans with
  | nil => exact le_refl _
  | cons span rest ih =>
    cases rest with
    | nil => exact h span List.mem_cons_self
    | cons => exact le_max_of_le_left (h span List.mem_cons_self)

/-- A derived duration is finite where the ends are. -/
theorem derivedDuration_finite {spans : List WorkerSpan} (h : ∀ span ∈ spans, span.endMs rt ≠ ⊤) :
    derivedDuration rt spans ≠ ⊤ := by
  induction spans with
  | nil => exact WithTop.zero_ne_top
  | cons span rest ih =>
    cases rest with
    | nil => exact h span List.mem_cons_self
    | cons next rest =>
      rw [derivedDuration.eq_3 _ _ _ (by simp), ← lt_top_iff_ne_top, max_lt_iff]
      exact ⟨lt_top_iff_ne_top.2 (h span List.mem_cons_self),
        lt_top_iff_ne_top.2 (ih fun x hx => h x (List.mem_cons_of_mem _ hx))⟩

/-- A normalized span was one of the trace, with other attributes. -/
theorem normalizeSpans_mem {spans normalized : List WorkerSpan} (h : normalizeSpans i spans = .ok normalized)
    {span' : WorkerSpan} (hspan : span' ∈ normalized) :
    ∃ span ∈ spans, ∃ attributes, span' = { span with attributes } ∧
      safeAttributes i span.serviceName span.operationName span.attributes = .ok attributes := by
  have each := normalizeSpans_each h
  clear h
  induction each with
  | nil => cases hspan
  | cons head _ ih =>
    rcases List.mem_cons.1 hspan with rfl | hspan
    · exact ⟨_, List.mem_cons_self, head⟩
    · obtain ⟨span, hmem, rest⟩ := ih hspan
      exact ⟨span, List.mem_cons_of_mem _ hmem, rest⟩

/-- Normalization keeps the links. -/
theorem workerLinks_normalized {spans normalized : List WorkerSpan}
    (h : normalizeSpans i spans = .ok normalized) :
    workerLinks normalized = workerLinks spans := by
  have each := normalizeSpans_each h
  clear h
  induction each with
  | nil => rfl
  | cons head _ ih =>
    obtain ⟨attributes, rfl, -⟩ := head
    simpa [workerLinks] using ih

/-- Every span has its normalized one. -/
theorem mem_normalized {spans normalized : List WorkerSpan} (h : normalizeSpans i spans = .ok normalized)
    {span : WorkerSpan} (hspan : span ∈ spans) : ∃ attributes, { span with attributes } ∈ normalized := by
  have each := normalizeSpans_each h
  clear h
  induction each with
  | nil => cases hspan
  | cons head _ ih =>
    rcases List.mem_cons.1 hspan with rfl | hspan
    · obtain ⟨attributes, rfl, -⟩ := head
      exact ⟨attributes, List.mem_cons_self⟩
    · obtain ⟨attributes, hmem⟩ := ih hspan
      exact ⟨attributes, List.mem_cons_of_mem _ hmem⟩

/-- The checks of `_validated_candidate`. -/
structure InputTrace.WellFormed (rt : Runtime) (trace : InputTrace) (root : WorkerSpan) : Prop where
  distinct : (trace.spans.map WorkerSpan.spanId).Nodup
  oneRoot : (trace.spans.filter fun span => span.parentSpanId = none) = [root]
  parents : ∀ span ∈ trace.spans, ∀ p, span.parentSpanId = some p → p ∈ trace.spans.map WorkerSpan.spanId
  noCycle : hasCycle trace.spans = false
  inTime : ∀ span ∈ trace.spans, span.endMs rt ≤ rt.sum (trace.duration rt) 1

/-- The candidate of a well-formed trace, once its attributes are filtered. -/
def InputTrace.candidate (rt : Runtime) (trace : InputTrace) (root : WorkerSpan) (spans : List WorkerSpan) :
    CandidateTrace :=
  ⟨trace.traceId, trace.startedAt, trace.latencyAnomalyScore, trace.duration rt, root.spanId, spans⟩

/-- A well-formed trace becomes a candidate, if the filter of the attributes returns; any other is dropped. -/
theorem validatedCandidate_eq (rt : Runtime) (trace : InputTrace) :
    (∃ root, trace.WellFormed rt root ∧ validatedCandidate rt trace =
        (normalizeSpans rt.toInterpreter trace.spans).map fun spans => some (trace.candidate rt root spans)) ∨
      (∀ root, ¬ trace.WellFormed rt root) ∧ validatedCandidate rt trace = .ok none := by
  unfold validatedCandidate
  dsimp only
  split
  · next repeated => exact .inr ⟨fun root h => repeated h.distinct, rfl⟩
  · next distinct =>
    split
    · next root hroot =>
      split
      · next orphan =>
        refine .inr ⟨fun _ h => ?_, rfl⟩
        obtain ⟨span, hspan, missing⟩ := List.any_eq_true.1 orphan
        obtain ⟨p, hp, missing⟩ := Option.any_eq_true _ _ |>.1 missing
        exact of_decide_eq_true missing (h.parents span hspan p hp)
      · next parents =>
        split
        · next cycle => exact .inr ⟨fun _ h => absurd cycle (Bool.eq_false_iff.1 h.noCycle), rfl⟩
        · next noCycle =>
          split
          · next late =>
            refine .inr ⟨fun _ h => ?_, rfl⟩
            obtain ⟨span, hspan, late⟩ := List.any_eq_true.1 late
            exact not_le.2 (of_decide_eq_true late) (h.inTime span hspan)
          · next inTime =>
            refine .inl ⟨root, ⟨not_not.1 distinct, hroot, fun span hspan p hp => ?_, by simpa using noCycle,
              fun span hspan => ?_⟩, ?_⟩
            · by_contra missing
              exact parents (List.any_eq_true.2 ⟨span, hspan, by simpa [hp] using missing⟩)
            · by_contra late
              exact inTime (List.any_eq_true.2 ⟨span, hspan, decide_eq_true (not_le.1 late)⟩)
            · cases normalizeSpans rt.toInterpreter trace.spans <;> rfl
    · next other => exact .inr ⟨fun root h => other root h.oneRoot, rfl⟩

/-- How a candidate came about. -/
theorem validatedCandidate_eq_some {trace : InputTrace} {c : CandidateTrace}
    (h : validatedCandidate rt trace = .ok (some c)) :
    ∃ root spans, trace.WellFormed rt root ∧ normalizeSpans rt.toInterpreter trace.spans = .ok spans ∧
      c = trace.candidate rt root spans := by
  rcases validatedCandidate_eq rt trace with ⟨root, wellFormed, validated⟩ | ⟨-, none_⟩
  · rw [validated] at h
    cases hspans : normalizeSpans rt.toInterpreter trace.spans with
    | error e => rw [hspans] at h; cases h
    | ok spans =>
      rw [hspans] at h
      cases h
      exact ⟨root, spans, wellFormed, rfl, rfl⟩
  · cases none_.symm.trans h

/-- The spans of a candidate are a tree. -/
theorem spanTree_of_validated {trace : InputTrace} {c : CandidateTrace}
    (h : validatedCandidate rt trace = .ok (some c)) :
    c.SpanTree := by
  obtain ⟨root, spans, wellFormed, hspans, rfl⟩ := validatedCandidate_eq_some h
  have tree := isTree_of_checks wellFormed.distinct wellFormed.oneRoot wellFormed.parents wellFormed.noCycle
  refine ⟨by rwa [InputTrace.candidate, workerLinks_normalized hspans], ?_⟩
  have here : root ∈ trace.spans.filter fun span => span.parentSpanId = none := by simp [wellFormed.oneRoot]
  rw [List.mem_filter] at here
  obtain ⟨attributes, hmem⟩ := mem_normalized hspans here.1
  exact ⟨_, hmem, rfl, by simpa using here.2⟩

/-- A candidate of checked fields is checked. -/
theorem validatedCandidate_checked {trace : InputTrace} {c : CandidateTrace} (traceId : trace.traceId ≠ "")
    (score : 0 ≤ trace.latencyAnomalyScore) (duration : ∀ q, trace.durationMs = some q → 0 ≤ q)
    (checked : ∀ span ∈ trace.spans, span.Checked rt.toInterpreter)
    (h : validatedCandidate rt trace = .ok (some c)) :
    c.Checked rt := by
  have tree := spanTree_of_validated h
  obtain ⟨root, spans, wellFormed, hspans, rfl⟩ := validatedCandidate_eq_some h
  have ends : ∀ span ∈ trace.spans, 0 ≤ span.endMs rt := fun span hspan =>
    sum_nonneg (WithTop.coe_nonneg.2 (checked span hspan).start)
      (WithTop.coe_nonneg.2 (checked span hspan).duration)
  refine ⟨tree, traceId, score, ?_, ?_, fun finite => ?_⟩
  · unfold InputTrace.candidate InputTrace.duration
    cases hd : trace.durationMs with
    | none => exact derivedDuration_nonneg ends
    | some q => exact WithTop.coe_nonneg.2 (duration q hd)
  · intro span' hspan'
    obtain ⟨span, hspan, attributes, rfl, safe⟩ := normalizeSpans_mem hspans hspan'
    have ok := checked span hspan
    exact ⟨⟨ok.1, ok.2, ok.3, ok.4, ok.5, ok.6, ok.7⟩, safeAttributes_kept safe, wellFormed.inTime span hspan⟩
  · have ends : ∀ span ∈ trace.spans, span.endMs rt ≠ ⊤ := by
      intro span hspan
      obtain ⟨attributes, hmem⟩ := mem_normalized hspans hspan
      exact finite { span with attributes } hmem
    unfold InputTrace.candidate InputTrace.duration
    cases trace.durationMs with
    | none => exact derivedDuration_finite ends
    | some q => exact WithTop.coe_ne_top

/-- A candidate that is kept was checked. -/
theorem parseCandidate_checked {raw : JsonObject} {c : CandidateTrace}
    (h : parseCandidate rt raw = .ok (some c)) :
    c.Checked rt := by
  unfold parseCandidate at h
  split at h
  · cases h
  · split at h
    · cases h
    · split at h <;> cases h
    · next trace htrace =>
      split at h
      · next candidate hcandidate =>
        cases h
        obtain ⟨traceId, score, duration, -, checked⟩ := validateTrace_checked htrace
        exact validatedCandidate_checked traceId score duration checked hcandidate
      · split at h <;> cases h

/-- All candidates are checked. -/
theorem parseCandidates_checked {raws : List JsonObject} {candidates : List CandidateTrace}
    (h : parseCandidates rt raws = .ok candidates) : ∀ c ∈ candidates, c.Checked rt := by
  induction raws generalizing candidates with
  | nil =>
    cases h
    simp
  | cons raw rest ih =>
    simp only [parseCandidates] at h
    cases hc : parseCandidate rt raw with
    | error e => rw [hc] at h; cases h
    | ok candidate =>
      cases hrest : parseCandidates rt rest with
      | error e => rw [hc, hrest] at h; cases h
      | ok others =>
        rw [hc, hrest] at h
        cases h
        intro c hmem
        rcases List.mem_append.1 hmem with hmem | hmem
        · rw [Option.mem_toList] at hmem
          exact parseCandidate_checked (hc.trans (congrArg Except.ok hmem))
        · exact ih hrest c hmem

end Candidates

end SreAgent.Trace
