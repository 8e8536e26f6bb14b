import SreAgent.Base.Options
import SreAgent.Trace.Raises
import SreAgent.Trace.Candidates

/-!
# What becomes of a raw candidate

It is dropped, or becomes a candidate, or its attribute filter runs out of stack on a server address
and the exception leaves `normalize_trace_evidence`. The spans are filtered in turn: the first one
whose filter raises decides which exception it is, and a `ValueError` drops the candidate.
-/

namespace SreAgent.Trace
open Base JsonParse ParentChain

/-! ## Validation -/

section Validation

variable {rt : Runtime} {e : PyError}

/-- Two fields raise what either raises. -/
theorem raisesOnly_both {α β : Type} {x : Outcome PyError α} {y : Outcome PyError β}
    (hx : ∀ e, x = .raised e → e = .typeError) (hy : ∀ e, y = .raised e → e = .typeError) :
    ∀ e, Outcome.both x y = .raised e → e = .typeError := by
  intro e h
  cases x with
  | raised e' =>
    cases h
    exact hx _ rfl
  | valid a =>
    cases y with
    | raised e' =>
      cases h
      exact hy _ rfl
    | valid b => cases h
    | invalid => cases h
  | invalid =>
    cases y with
    | raised e' =>
      cases h
      exact hy _ rfl
    | valid b => cases h
    | invalid => cases h

theorem raisesOnly_of_not_raises {α : Type} {x : Outcome PyError α} (h : ¬ x.Raises) : ∀ e, x = .raised e →
      e = .typeError :=
  fun e raised => absurd ⟨e, raised⟩ h

theorem raisesOnly_map {α β : Type} {f : α → β} {x : Outcome PyError α}
    (h : ∀ e, x = .raised e → e = .typeError) :
    ∀ e, x.map f = .raised e → e = .typeError := by
  intro e raised
  cases x with
  | raised e' =>
    cases raised
    exact h _ rfl
  | valid a => cases raised
  | invalid => cases raised

theorem nonEmpty_total (v : Option Json) : ¬ (nonEmpty v).Raises := by
  unfold nonEmpty
  split
  · split <;> simp
  · simp

theorem spanTime_raised {v : Option Json} : ∀ e, spanTime rt v = .raised e → e = .typeError := by
  intro e h
  unfold spanTime at h
  split at h
  · cases h
  · split at h
    · split at h <;> cases h
    · split at h <;> cases h
    · cases h
      rfl

/-- A span that is no record of numbers may raise a `TypeError`, and nothing else. -/
theorem validateSpan_raised {v : Json} : ∀ e, validateSpan rt v = .raised e → e = .typeError := by
  match v with
  | .obj d =>
    have parent : ∀ v, ¬ (inputParent v).Raises := fun v => by
      unfold inputParent
      split <;> simp
    have attributes : ∀ v, ¬ (inputAttributes v).Raises := fun v => by
      unfold inputAttributes
      split
      · split <;> simp
      · simp
    refine raisesOnly_map (raisesOnly_both (raisesOnly_of_not_raises (nonEmpty_total _)) <|
      raisesOnly_both (raisesOnly_of_not_raises (parent _)) <|
      raisesOnly_both (raisesOnly_of_not_raises (nonEmpty_andThen_total (safeServiceName_total rt) _)) <|
      raisesOnly_both (raisesOnly_of_not_raises (nonEmpty_andThen_total (safeOperationName_total rt) _)) <|
      raisesOnly_both spanTime_raised <| raisesOnly_both spanTime_raised <|
      raisesOnly_both (raisesOnly_of_not_raises (literal_total _ _)) <|
      raisesOnly_both (raisesOnly_of_not_raises (literal_total _ _)) <|
      raisesOnly_both (raisesOnly_of_not_raises (strictBool_total _)) <|
      raisesOnly_both (raisesOnly_of_not_raises (attributes _))
        (raisesOnly_of_not_raises (noExtra_total _ _)))
  | .null | .bool _ | .int _ | .float _ | .str _ | .arr _ => nofun

theorem raisesOnly_all {α : Type} {xs : List (Outcome PyError α)}
    (h : ∀ x ∈ xs, ∀ e, x = .raised e → e = .typeError) :
    ∀ e, Outcome.all xs = .raised e → e = .typeError := by
  induction xs with
  | nil => nofun
  | cons x xs ih =>
    exact raisesOnly_map
      (raisesOnly_both (h x List.mem_cons_self) (ih fun y hy => h y (List.mem_cons_of_mem _ hy)))

/-- A trace raises a type error only. -/
theorem validateTrace_raised {d : JsonObject} : ∀ e, validateTrace rt d = .raised e → e = .typeError := by
  have started : ∀ v, ¬ (startedAt rt v).Raises := fun v => by
    unfold startedAt
    split
    · simp
    · split
      · simp
      · split <;> simp
  have score : ∀ v, ¬ (latencyScore rt v).Raises := fun v => by
    unfold latencyScore
    split
    · simp
    · split <;> simp
  have duration : ∀ v, ¬ (traceDuration rt v).Raises := fun v => by
    unfold traceDuration
    split
    · simp
    · simp
    · split <;> simp
  have spans : ∀ v, ∀ e, inputSpans rt v = .raised e → e = .typeError := by
    intro v e h
    unfold inputSpans at h
    split at h
    · next items =>
      cases hall : Outcome.all (items.map (validateSpan rt)) with
      | valid spans =>
        rw [hall] at h
        simp only [Outcome.andThen] at h
        split at h <;> cases h
      | invalid => rw [hall] at h; cases h
      | raised e' =>
        rw [hall] at h
        cases h
        refine raisesOnly_all (fun x hx => ?_) _ hall
        obtain ⟨item, -, rfl⟩ := List.mem_map.1 hx
        exact validateSpan_raised
    · cases h
  exact raisesOnly_map (raisesOnly_both (raisesOnly_of_not_raises (nonEmpty_total _)) <|
    raisesOnly_both (raisesOnly_of_not_raises (started _)) <|
      raisesOnly_both (raisesOnly_of_not_raises (score _)) <|
    raisesOnly_both (raisesOnly_of_not_raises (duration _)) <| raisesOnly_both (spans _)
      (raisesOnly_of_not_raises (noExtra_total _ _)))

end Validation

/-! ## Candidates -/

/-- The trace a raw candidate is read as. -/
def readTrace (rt : Runtime) (raw : JsonObject) : Option InputTrace :=
  match normalizeTraceKeys raw with
  | none => none
  | some data =>
    match validateTrace rt data with
    | .valid trace => some trace
    | _ => none

/-- The filter of the attributes of a span. -/
def WorkerSpan.filter (i : Interpreter) (span : WorkerSpan) : Except PyError Attributes :=
  safeAttributes i span.serviceName span.operationName span.attributes

/-- The first span whose filter does not return raises `e`. -/
def StopsWith (i : Interpreter) (e : PyError) (spans : List WorkerSpan) : Prop :=
  ∃ before span after, spans = before ++ span :: after ∧ (∀ s ∈ before, ∃ safe, s.filter i = .ok safe) ∧
    span.filter i = .error e

section Candidates

variable {rt : Runtime} {i : Interpreter} {e : PyError}

/-- Normalization fails where a span stops it. -/
theorem normalizeSpans_eq_error {spans : List WorkerSpan} : normalizeSpans i spans = .error e ↔
      StopsWith i e spans := by
  induction spans with
  | nil => exact iff_of_false nofun fun ⟨before, _, _, h, _⟩ => by cases before <;> cases h
  | cons span rest ih =>
    simp only [normalizeSpans]
    cases hfilter : safeAttributes i span.serviceName span.operationName span.attributes with
    | error e' =>
      constructor
      · intro h
        cases h
        exact ⟨[], span, rest, rfl, by simp, hfilter⟩
      · rintro ⟨before, s, after, h, returns, stops⟩
        cases before with
        | nil =>
          cases h
          cases hfilter.symm.trans stops
          rfl
        | cons first before =>
          cases h
          obtain ⟨safe, hsafe⟩ := returns span List.mem_cons_self
          cases hfilter.symm.trans hsafe
    | ok safe =>
      have step : (normalizeSpans i rest = .error e) ↔ StopsWith i e (span :: rest) := by
        rw [ih]
        constructor
        · rintro ⟨before, s, after, rfl, returns, stops⟩
          exact ⟨span :: before, s, after, rfl, List.forall_mem_cons.2 ⟨⟨safe, hfilter⟩, returns⟩, stops⟩
        · rintro ⟨before, s, after, h, returns, stops⟩
          cases before with
          | nil =>
            cases h
            cases hfilter.symm.trans stops
          | cons first before =>
            cases h
            exact ⟨before, s, after, rfl, fun x hx => returns x (List.mem_cons_of_mem _ hx), stops⟩
      rw [← step]
      cases normalizeSpans i rest <;> simp [bind, Except.bind, pure, Except.pure]

/-- An address fails with the limits of `json.loads` only. -/
theorem isSafeServerAddress_error {value : Scalar} (h : isSafeServerAddress i value = .error e) :
    e = .valueError ∨ e = .recursionError := by
  cases value with
  | str s =>
    simp only [isSafeServerAddress] at h
    split at h
    · cases h
    · cases hjwt : isCompactJwt i s with
      | ok jwt =>
        rw [hjwt] at h
        cases jwt <;> cases h
      | error e' =>
        rw [hjwt] at h
        cases h
        exact (isCompactJwt_error_cases hjwt).imp_right And.left
  | int | float | bool => cases h

/-- The filter of a span stops with a `ValueError` or for lack of stack. -/
theorem filter_error {span : WorkerSpan} (h : span.filter rt.toInterpreter = .error e) :
    e = .valueError ∨ e = .recursionError := by
  unfold WorkerSpan.filter at h
  generalize span.attributes = attributes at h
  induction attributes with
  | nil => cases h
  | cons item rest ih =>
    obtain ⟨key, value⟩ := item
    simp only [safeAttributes] at h
    cases hkeep : keepsAttribute rt.toInterpreter span.serviceName span.operationName key value with
    | error e' =>
      rw [hkeep] at h
      cases h
      by_cases address : key = "server.address"
      · subst address
        exact isSafeServerAddress_error hkeep
      · obtain ⟨keep, hok⟩ := keepsAttribute_total rt span.serviceName span.operationName address value
        cases hok.symm.trans hkeep
    | ok keep =>
      rw [hkeep] at h
      cases hrest : safeAttributes rt.toInterpreter span.serviceName span.operationName rest with
      | error e' =>
        rw [hrest] at h
        cases h
        exact ih hrest
      | ok safe =>
        rw [hrest] at h
        cases keep <;> cases h

/-- How a raw candidate ends. -/
theorem parseCandidate_cases (rt : Runtime) (raw : JsonObject) :
    (∃ trace root spans, readTrace rt raw = some trace ∧ trace.WellFormed rt root ∧
        normalizeSpans rt.toInterpreter trace.spans = .ok spans ∧
        parseCandidate rt raw = .ok (some (trace.candidate rt root spans))) ∨
      ((∀ trace root, readTrace rt raw = some trace → trace.WellFormed rt root →
          StopsWith rt.toInterpreter .valueError trace.spans) ∧ parseCandidate rt raw = .ok none) ∨
      (∃ trace root, readTrace rt raw = some trace ∧ trace.WellFormed rt root ∧
        StopsWith rt.toInterpreter .recursionError trace.spans) ∧
          parseCandidate rt raw = .error .recursionError := by
  unfold parseCandidate readTrace
  cases normalizeTraceKeys raw with
  | none => exact .inr (.inl ⟨nofun, rfl⟩)
  | some data =>
    dsimp only
    cases hvalid : validateTrace rt data with
    | invalid => exact .inr (.inl ⟨nofun, rfl⟩)
    | raised e =>
      refine .inr (.inl ⟨nofun, ?_⟩)
      rw [validateTrace_raised e hvalid]
      rfl
    | valid trace =>
      dsimp only
      rcases validatedCandidate_eq rt trace with ⟨root, wellFormed, validated⟩ | ⟨malformed, none_⟩
      · rw [validated]
        cases hspans : normalizeSpans rt.toInterpreter trace.spans with
        | ok spans => exact .inl ⟨trace, root, spans, rfl, wellFormed, hspans, rfl⟩
        | error e =>
          have stops := normalizeSpans_eq_error.1 hspans
          obtain ⟨before, span, after, -, -, hfilter⟩ := id stops
          rcases filter_error hfilter with rfl | rfl
          · refine .inr (.inl ⟨fun trace' root' same _ => ?_, rfl⟩)
            cases same
            exact stops
          · exact .inr (.inr ⟨⟨trace, root, rfl, wellFormed, stops⟩, rfl⟩)
      · rw [none_]
        refine .inr (.inl ⟨fun trace' root' same wellFormed => ?_, rfl⟩)
        cases same
        exact absurd wellFormed (malformed root')

/-- A candidate fails in a filter of its spans, and only by nesting. -/
theorem parseCandidate_error {raw : JsonObject} (h : parseCandidate rt raw = .error e) : e = .recursionError ∧
    ∃ trace root, readTrace rt raw = some trace ∧ trace.WellFormed rt root ∧
      StopsWith rt.toInterpreter .recursionError trace.spans := by
  rcases parseCandidate_cases rt raw with ⟨_, _, _, -, -, -, found⟩ | ⟨-, found⟩ | ⟨stops, found⟩
  · cases found.symm.trans h
  · cases found.symm.trans h
  · cases found.symm.trans h
    exact ⟨rfl, stops⟩

/-! ## All candidates -/

/-- The candidates among raw ones that pass validation. -/
def validTraces (rt : Runtime) (raws : List JsonObject) : List CandidateTrace :=
  raws.filterMap fun raw =>
    match parseCandidate rt raw with
    | .ok c => c
    | .error _ => none

/-- Without a failure the valid traces are the candidates. -/
theorem parseCandidates_eq_ok {raws : List JsonObject}
    (h : ∀ raw ∈ raws, ∃ c, parseCandidate rt raw = .ok c) :
    parseCandidates rt raws = .ok (validTraces rt raws) := by
  induction raws with
  | nil => rfl
  | cons raw rest ih =>
    obtain ⟨c, hc⟩ := h raw List.mem_cons_self
    rw [parseCandidates, hc, ih fun x hx => h x (List.mem_cons_of_mem _ hx)]
    unfold validTraces
    cases c <;> simp [hc, bind, Except.bind, pure, Except.pure]

/-- A failure of one trace is that of all. -/
theorem parseCandidates_eq_error {raws : List JsonObject} {raw : JsonObject} (hraw : raw ∈ raws)
    (h : parseCandidate rt raw = .error e) : parseCandidates rt raws = .error .recursionError := by
  induction raws with
  | nil => cases hraw
  | cons first rest ih =>
    rw [parseCandidates]
    cases hfirst : parseCandidate rt first with
    | error e' =>
      rw [(parseCandidate_error hfirst).1]
      rfl
    | ok c =>
      rcases List.mem_cons.1 hraw with rfl | hraw
      · cases hfirst.symm.trans h
      · rw [ih hraw]
        rfl

end Candidates

end SreAgent.Trace
