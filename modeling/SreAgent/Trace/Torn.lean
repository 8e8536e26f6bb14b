import SreAgent.Trace.Independent
import SreAgent.Trace.Tokens

/-!
# Candidates that end in two ways

A candidate with two spans whose attribute filters raise different exceptions is dropped or stops
everything, as the one or the other comes first. `normalize_independent_iff` says when that shows.
-/

namespace SreAgent.Trace
open Base JsonParse ParentChain

/-! ## The spans of a raw candidate -/

/-- An item of the list of spans is read as a span. -/
def ReadsSpan (rt : Runtime) (item : Json) (span : WorkerSpan) : Prop :=
  ∃ v, normalizeSpanKeys item = some v ∧ validateSpan rt v = .valid span

section Front

variable {rt : Runtime} {e : PyError} {raw raw' : JsonObject} {trace : InputTrace} {item : Json}
  {span span' : WorkerSpan}

theorem ReadsSpan.unique (h : ReadsSpan rt item span) (h' : ReadsSpan rt item span') : span = span' := by
  obtain ⟨v, hv, valid⟩ := h
  obtain ⟨v', hv', valid'⟩ := h'
  cases hv.symm.trans hv'
  cases valid.symm.trans valid'
  rfl

/-- The keys of a raw trace that can be read are distinct. -/
theorem nodup_of_aliases {normalized : JsonObject} (h : normalizeAliases traceAliases raw = some normalized) :
    (JsonObject.keys raw).Nodup ∧ JsonObject.get? normalized "spans" = JsonObject.get? raw "spans" := by
  rw [normalizeAliases_eq] at h
  dsimp only at h
  split at h
  · next distinct =>
    cases h
    refine ⟨?_, ?_⟩
    · simp only [JsonObject.keys, List.map_map] at distinct ⊢
      exact List.Nodup.of_map (canonicalKey traceAliases) (by simpa [Function.comp_def] using distinct)
    · have spans : canonicalKey traceAliases "spans" = "spans" := by decide
      clear distinct
      induction raw with
      | nil => rfl
      | cons item raw ih =>
        rw [List.map_cons, JsonObject.get?_cons, JsonObject.get?_cons, ih]
        by_cases key : item.1 = "spans"
        · rw [if_pos key, if_pos (by rw [key, spans])]
        · rw [if_neg key, if_neg fun same => key (canonicalKey_spans (same.trans spans.symm))]
  · cases h

theorem reads_forall₂ {items xs : List Json} {spans : List WorkerSpan}
    (normal : List.Forall₂ (fun item v => normalizeSpanKeys item = some v) items xs)
    (each : List.Forall₂ (fun v span => validateSpan rt v = .valid span) xs spans) :
    List.Forall₂ (ReadsSpan rt) items spans := by
  induction normal generalizing spans with
  | nil =>
    cases each
    exact .nil
  | cons head _ ih =>
    cases each with
    | cons valid rest => exact .cons ⟨_, head, valid⟩ (ih rest)

/-- The spans of a trace are read from the items under `spans`, in their order. -/
theorem readTrace_spans (found : readTrace rt raw = some trace) : (JsonObject.keys raw).Nodup ∧
    ∃ items, JsonObject.get? raw "spans" = some (.arr items) ∧
      List.Forall₂ (ReadsSpan rt) items trace.spans := by
  unfold readTrace at found
  cases hdata : normalizeTraceKeys raw with
  | none => rw [hdata] at found; cases found
  | some data =>
    rw [hdata] at found
    obtain ⟨normalized, items, xs, haliases, hitems, hxs, rfl⟩ := normalizeTraceKeys_eq_some.1 hdata
    obtain ⟨distinct, same⟩ := nodup_of_aliases haliases
    refine ⟨distinct, items, same ▸ hitems, ?_⟩
    have present : "spans" ∈ JsonObject.keys normalized := List.mem_map_of_mem (JsonObject.mem_of_get? hitems)
    dsimp only at found
    split at found
    · next validated valid =>
      cases found
      simp only [validateTrace, Outcome.map_eq_valid, Outcome.both_eq_valid] at valid
      obtain ⟨⟨a₁, a₂, a₃, a₄, spans, ⟨⟩⟩, ⟨-, -, -, -, hspans, -⟩, rfl⟩ := valid
      rw [get?_setItem present, if_pos rfl] at hspans
      simp only [inputSpans, Outcome.andThen_eq_valid, Outcome.all_eq_valid,
        List.forall₂_map_left_iff] at hspans
      obtain ⟨spans', each, hif⟩ := hspans
      split at hif
      · cases hif
      · cases hif
        exact reads_forall₂ (mapM_eq_some.1 hxs) each
    · cases found

/-- The same raw trace with one of its spans listed first. -/
theorem exists_front (found : readTrace rt raw = some trace) (hspan : span ∈ trace.spans) :
    ∃ raw' trace', RearrangedTrace raw raw' ∧ readTrace rt raw' = some trace' ∧ trace.Reordered trace' ∧
      ∃ rest, trace'.spans = span :: rest := by
  obtain ⟨distinct, items, hitems, each⟩ := readTrace_spans found
  obtain ⟨item, hitem, reads⟩ := exists_of_forall₂ each hspan
  obtain ⟨before, after, rfl⟩ := List.append_of_mem hitem
  have present : "spans" ∈ JsonObject.keys raw := List.mem_map_of_mem (JsonObject.mem_of_get? hitems)
  have rearranged : RearrangedTrace raw (setItem raw "spans" (.arr (item :: (before ++ after)))) := by
    rw [setItem, if_pos present]
    refine List.forall₂_map_right_iff.2 (List.forall₂_same.2 fun field hfield => ?_)
    by_cases key : field.1 = "spans"
    · have value : field.2 = .arr (before ++ item :: after) := by
        obtain ⟨name, value⟩ := field
        subst key
        have listed := JsonObject.mem_of_get? hitems
        exact congrArg Prod.snd (List.inj_on_of_nodup_map distinct hfield listed rfl)
      rw [if_pos key]
      exact ⟨by rw [key],
        .inr ⟨key, _, _, value, rfl, _, List.forall₂_same.2 fun v _ => .same v, List.perm_middle⟩⟩
    · rw [if_neg key]
      exact ⟨rfl, .inl rfl⟩
  obtain ⟨trace', found', reordered⟩ := readTrace_rearranged rearranged found
  refine ⟨_, trace', rearranged, found', reordered, ?_⟩
  obtain ⟨-, items', hitems', each'⟩ := readTrace_spans found'
  rw [get?_setItem present, if_pos rfl] at hitems'
  cases hitems'
  cases hspans : trace'.spans with
  | nil => rw [hspans] at each'; cases each'
  | cons first rest =>
    rw [hspans] at each'
    cases each' with
    | cons reads' _ => exact ⟨rest, congrArg (· :: rest) (reads'.unique reads)⟩

/-- The exception of the first filter that raises drops the candidate, or leaves. -/
theorem parse_of_stops {root : WorkerSpan} (found : readTrace rt raw = some trace)
    (wellFormed : trace.WellFormed rt root) (stopped : StopsWith rt.toInterpreter e trace.spans) :
    parseCandidate rt raw = if e = .valueError then .ok none else .error .recursionError := by
  have error := normalizeSpans_eq_error.2 stopped
  rcases parseCandidate_cases rt raw with ⟨trace', root', spans, found', -, filtered, -⟩ | ⟨stops, parsed⟩ |
    ⟨⟨trace', root', found', -, stops⟩, parsed⟩
  · cases found.symm.trans found'
    cases error.symm.trans filtered
  · cases error.symm.trans (normalizeSpans_eq_error.2 (stops trace root found wellFormed))
    exact parsed
  · cases found.symm.trans found'
    cases error.symm.trans (normalizeSpans_eq_error.2 stops)
    exact parsed

/-- A candidate one of whose filters raises ends with that exception, once the span is listed first. -/
theorem exists_stopped (stops : MayStop rt e raw) : ∃ raw', RearrangedTrace raw raw' ∧
    parseCandidate rt raw' = if e = .valueError then .ok none else .error .recursionError := by
  obtain ⟨trace, root, found, wellFormed, span, hspan, filter⟩ := stops
  obtain ⟨raw', trace', rearranged, found', reordered, rest, hspans⟩ := exists_front found hspan
  exact ⟨raw', rearranged, parse_of_stops found' (reordered.wellFormed wellFormed)
    ⟨[], span, rest, hspans, by simp, filter⟩⟩

end Front

/-! ## Results -/

/-- The filters of two spans raise different exceptions. -/
def Torn (rt : Runtime) (raw : JsonObject) : Prop :=
  MayStop rt .valueError raw ∧ MayStop rt .recursionError raw

/-- A candidate that stops everything, in whatever order its spans are listed. -/
def Stops (rt : Runtime) (raw : JsonObject) : Prop :=
  MayStop rt .recursionError raw ∧ ¬ MayStop rt .valueError raw

/-- A valid trace that ranks highest. -/
def Highest (rt : Runtime) (alertIssue : String) (raws : List JsonObject) (c : CandidateTrace) : Prop :=
  c ∈ validTraces rt raws ∧ ∀ b ∈ validTraces rt raws, rankKey alertIssue b ≤ rankKey alertIssue c

/-- Every rearranged payload has the same result, and what is stored is the trace that ranks highest. -/
structure Independent (rt : Runtime) (payload : Json) (alertIssue : String) (maxSpans : Int) : Prop where
  same : ∀ payload', Rearranged rt (candidateObjects payload) (candidateObjects payload') →
    normalizeTraceEvidence rt payload' alertIssue maxSpans =
      normalizeTraceEvidence rt payload alertIssue maxSpans
  highest : ∀ d, normalizeTraceEvidence rt payload alertIssue maxSpans = .ok (some d) →
    ∃ c, Highest rt alertIssue (candidateObjects payload) c ∧
      (c.truncate rt (min maxSpans.toNat maxResponseSpans) >>= SelectedTrace.toStorageDict) = .ok d

/-- No candidate ends in two ways, or the result is an exception in any case. -/
def Steady (rt : Runtime) (payload : Json) (alertIssue : String) (maxSpans : Int) : Prop :=
  maxSpans < 1 ∨ (∀ raw ∈ candidateObjects payload, ¬ Torn rt raw) ∨
    (∃ raw ∈ candidateObjects payload, Stops rt raw) ∨
    ∃ best, Highest rt alertIssue (candidateObjects payload) best ∧
      ¬ best.FitsStack rt (min maxSpans.toNat maxResponseSpans)

section Results

variable {rt : Runtime} {raws raws' : List JsonObject} {payload : Json} {alertIssue : String} {maxSpans : Int}

/-- Valid traces are trees. -/
theorem tree_of_validTraces {c : CandidateTrace} (h : c ∈ validTraces rt raws) : c.SpanTree := by
  obtain ⟨raw, -, valid⟩ := mem_validTraces.1 h
  exact (parseCandidate_checked valid).toSpanTree

/-- The head of the ranking ranks highest. -/
theorem highest_of_ranked {best : CandidateTrace} {rest : List CandidateTrace}
    (h : ranked alertIssue (validTraces rt raws) = best :: rest) : Highest rt alertIssue raws best := by
  obtain ⟨inside, most⟩ := @ranks_of_head _ best _ (by rw [h]; rfl)
  exact ⟨inside, fun b hb => ranksAtMost_iff.1 (most b hb)⟩

/-- Two traces with distinct ids cannot both rank highest. -/
theorem Highest.unique {a b : CandidateTrace}
    (distinct : ((validTraces rt raws).map CandidateTrace.traceId).Nodup)
    (ha : Highest rt alertIssue raws a) (hb : Highest rt alertIssue raws b) : a = b := by
  have same := le_antisymm (hb.2 a ha.1) (ha.2 b hb.1)
  have id : a.traceId = b.traceId := congrArg (fun key => (ofLex (ofLex (ofLex (ofLex key).2).2).2).2) same
  exact List.inj_on_of_nodup_map distinct ha.1 hb.1 id

theorem toStorageDict_error {t : SelectedTrace} {e : PyError} (h : t.toStorageDict = .error e) :
    e ≠ .recursionError := by
  unfold SelectedTrace.toStorageDict utcTimestamp asUtc at h
  split at h
  · cases h
    nofun
  · split at h
    · cases h
    · cases h
      nofun

/-- Storing the trace that ranks highest runs out of stack where its truncation does. -/
theorem storedBest_recursionError (distinct : ((validTraces rt raws).map CandidateTrace.traceId).Nodup)
    {n : Nat} :
    storedBest rt alertIssue n (validTraces rt raws) = .error .recursionError ↔
      ∃ best, Highest rt alertIssue raws best ∧ ¬ best.FitsStack rt n := by
  unfold storedBest
  cases hranked : ranked alertIssue (validTraces rt raws) with
  | nil =>
    refine iff_of_false nofun fun ⟨best, highest, _⟩ => ?_
    have inside : best ∈ ranked alertIssue (validTraces rt raws) := (List.mem_insertionSort _).2 highest.1
    rw [hranked] at inside
    cases inside
  | cons best rest =>
    have highest := highest_of_ranked hranked
    have returns := @CandidateTrace.truncate_returns_iff best rt n (tree_of_validTraces highest.1)
    dsimp only
    constructor
    · intro h
      refine ⟨best, highest, fun fits => ?_⟩
      obtain ⟨t, ht⟩ := returns.2 fits
      cases hdict : t.toStorageDict with
      | ok d =>
        simp only [ht, bind, Except.bind, hdict] at h
        cases h
      | error e =>
        simp only [ht, bind, Except.bind, hdict] at h
        cases h
        exact toStorageDict_error hdict rfl
    · rintro ⟨best', highest', deep⟩
      cases highest'.unique distinct highest
      cases ht : best.truncate rt n with
      | ok t => exact absurd (returns.1 ⟨t, ht⟩) deep
      | error e =>
        cases CandidateTrace.truncate_error ht
        rfl

theorem stops_rearranged {raw raw' : JsonObject} (h : RearrangedTrace raw raw') (stops : Stops rt raw) :
    Stops rt raw' :=
  ⟨mayStop_rearranged h stops.1, fun value => stops.2 (mayStop_rearranged h.symm value)⟩

theorem exists_stops_rearranged (h : Rearranged rt raws raws') (stops : ∃ raw ∈ raws, Stops rt raw) :
    ∃ raw ∈ raws', Stops rt raw := by
  obtain ⟨kept, kept', dropped, added, perm, perm', each, hdropped, -⟩ := h
  obtain ⟨raw, hraw, stopped⟩ := stops
  rcases List.mem_append.1 (perm.mem_iff.1 hraw) with hkept | hdrop
  · obtain ⟨raw', hraw', rearranged⟩ := exists_of_forall₂ each.flip hkept
    exact ⟨raw', perm'.mem_iff.2 (List.mem_append_left _ hraw'), stops_rearranged rearranged stopped⟩
  · cases (hdropped raw hdrop).symm.trans (error_of_mayStop stopped.1 stopped.2)

/-- Rearranged payloads are rearranged back. -/
theorem Rearranged.symm (h : Rearranged rt raws raws') : Rearranged rt raws' raws := by
  obtain ⟨kept, kept', dropped, added, perm, perm', each, hdropped, hadded⟩ := h
  exact ⟨kept', kept, added, dropped, perm', perm, each.flip.imp fun _ _ => RearrangedTrace.symm, hadded,
    hdropped⟩

/-- Where no candidate ends in two ways, one stops a rearranged payload only if one stops the payload. -/
theorem stops_of_error (h : Rearranged rt raws raws') (whole : ∀ raw ∈ raws, ¬ Torn rt raw)
    (stops : ∃ raw ∈ raws', ∃ e, parseCandidate rt raw = .error e) : ∃ raw ∈ raws, Stops rt raw := by
  obtain ⟨kept, kept', dropped, added, perm, perm', each, -, hadded⟩ := h
  obtain ⟨raw', hraw', e, stopped⟩ := stops
  rcases List.mem_append.1 (perm'.mem_iff.1 hraw') with hkept | hadd
  · obtain ⟨raw, hraw, rearranged⟩ := exists_of_forall₂ each hkept
    have inside := perm.mem_iff.2 (List.mem_append_left dropped hraw)
    have may := mayStop_rearranged rearranged.symm (mayStop_of_error stopped).2
    exact ⟨raw, inside, may, fun value => whole raw inside ⟨value, may⟩⟩
  · cases (hadded raw' hadd).symm.trans stopped

/-- A candidate that stops everything is among the candidates of both payloads, or of none. -/
theorem normalize_of_stops (pos : ¬ maxSpans < 1) (stops : ∃ raw ∈ candidateObjects payload, Stops rt raw) :
    normalizeTraceEvidence rt payload alertIssue maxSpans = .error .recursionError := by
  obtain ⟨raw, hraw, stopped⟩ := stops
  rcases normalize_eq payload alertIssue pos with ⟨-, error⟩ | ⟨parsed, -⟩
  · exact error
  · obtain ⟨c, hc⟩ := parsed raw hraw
    cases hc.symm.trans (error_of_mayStop stopped.1 stopped.2)

/-- A steady payload has one result in any order. -/
theorem same_of_steady
    (distinct : ((validTraces rt (candidateObjects payload)).map CandidateTrace.traceId).Nodup)
    (steady : Steady rt payload alertIssue maxSpans) {payload' : Json}
    (h : Rearranged rt (candidateObjects payload) (candidateObjects payload')) :
    normalizeTraceEvidence rt payload' alertIssue maxSpans =
      normalizeTraceEvidence rt payload alertIssue maxSpans := by
  by_cases pos : maxSpans < 1
  · simp only [normalizeTraceEvidence, if_pos pos]
  have stored : storedBest rt alertIssue (min maxSpans.toNat maxResponseSpans)
    (validTraces rt (candidateObjects payload')) =
      storedBest rt alertIssue (min maxSpans.toNat maxResponseSpans)
        (validTraces rt (candidateObjects payload)) :=
    storedBest_sameTraces (validTraces_rearranged h) (fun c => tree_of_validTraces) distinct _
  rcases steady with none_ | whole | stops | deep
  · exact absurd none_ pos
  · by_cases stops : ∃ raw ∈ candidateObjects payload, Stops rt raw
    · rw [normalize_of_stops pos stops, normalize_of_stops pos (exists_stops_rearranged h stops)]
    · rcases normalize_eq payload alertIssue pos with ⟨errors, -⟩ | ⟨-, here⟩
      · obtain ⟨raw, hraw, e, he⟩ := errors
        have may := (mayStop_of_error he).2
        exact absurd ⟨raw, hraw, may, fun value => whole raw hraw ⟨value, may⟩⟩ stops
      · rcases normalize_eq payload' alertIssue pos with ⟨errors, -⟩ | ⟨-, there⟩
        · exact absurd (stops_of_error h whole errors) stops
        · rw [here, there, stored]
  · rw [normalize_of_stops pos stops, normalize_of_stops pos (exists_stops_rearranged h stops)]
  · rw [(storedBest_recursionError distinct).2 deep] at stored
    have here : normalizeTraceEvidence rt payload alertIssue maxSpans = .error .recursionError := by
      rcases normalize_eq payload alertIssue pos with ⟨-, error⟩ | ⟨-, found⟩
      · exact error
      · rw [found, (storedBest_recursionError distinct).2 deep]
    have there : normalizeTraceEvidence rt payload' alertIssue maxSpans = .error .recursionError := by
      rcases normalize_eq payload' alertIssue pos with ⟨-, error⟩ | ⟨-, found⟩
      · exact error
      · rw [found, stored]
    rw [here, there]

/-- What is stored is the trace that ranks highest. -/
theorem highest_of_stored {d : JsonObject}
    (found : normalizeTraceEvidence rt payload alertIssue maxSpans = .ok (some d)) :
    ∃ c, Highest rt alertIssue (candidateObjects payload) c ∧
      (c.truncate rt (min maxSpans.toNat maxResponseSpans) >>= SelectedTrace.toStorageDict) = .ok d := by
  have pos : ¬ maxSpans < 1 := fun none_ => by
    rw [normalizeTraceEvidence, if_pos none_] at found
    cases found
  rcases normalize_eq payload alertIssue pos with ⟨-, error⟩ | ⟨-, stored⟩
  · cases error.symm.trans found
  · rw [stored, storedBest] at found
    cases hranked : ranked alertIssue (validTraces rt (candidateObjects payload)) with
    | nil => rw [hranked] at found; cases found
    | cons best rest =>
      rw [hranked] at found
      dsimp only at found
      refine ⟨best, highest_of_ranked hranked, ?_⟩
      generalize (best.truncate rt (min maxSpans.toNat maxResponseSpans) >>= SelectedTrace.toStorageDict) =
        result at found ⊢
      cases result with
      | error e => cases found
      | ok d' =>
        cases found
        rfl

/-- Each candidate of a list in an order of its own. -/
theorem exists_forall₂ {α β : Type} {R : α → β → Prop} {P : β → Prop} {l : List α}
    (h : ∀ a ∈ l, ∃ b, R a b ∧ P b) :
    ∃ l', List.Forall₂ R l l' ∧ ∀ b ∈ l', P b := by
  induction l with
  | nil => exact ⟨[], .nil, by simp⟩
  | cons a l ih =>
    obtain ⟨b, hb, hP⟩ := h a List.mem_cons_self
    obtain ⟨l', each, all⟩ := ih fun a ha => h a (List.mem_cons_of_mem _ ha)
    exact ⟨b :: l', .cons hb each, List.forall_mem_cons.2 ⟨hP, all⟩⟩

theorem rearranged_of_each (each : List.Forall₂ RearrangedTrace raws raws') : Rearranged rt raws raws' :=
  ⟨raws, raws', [], [], by simp, by simp, each, by simp, by simp⟩

theorem candidateObjects_arr (raws : List JsonObject) : candidateObjects (.arr (raws.map .obj)) = raws := by
  rw [candidateObjects, objects, List.filterMap_map]
  exact List.filterMap_some

/-- Unless one candidate stops everything, the spans can be listed so that every candidate is read. -/
theorem exists_read (none_ : ¬ ∃ raw ∈ raws, Stops rt raw) :
    ∃ raws', Rearranged rt raws raws' ∧ ∀ raw ∈ raws', ∃ c, parseCandidate rt raw = .ok c := by
  obtain ⟨raws', each, read⟩ : ∃ raws', List.Forall₂ RearrangedTrace raws raws' ∧ ∀ raw ∈ raws', ∃ c,
      parseCandidate rt raw = .ok c := by
    refine exists_forall₂ fun raw hraw => ?_
    cases parsed : parseCandidate rt raw with
    | ok c => exact ⟨raw, .refl raw, c, parsed⟩
    | error e =>
      have may := (mayStop_of_error parsed).2
      have value : MayStop rt .valueError raw := by
        by_contra not
        exact none_ ⟨raw, hraw, may, not⟩
      obtain ⟨raw', rearranged, stopped⟩ := exists_stopped value
      exact ⟨raw', rearranged, none, stopped⟩
  exact ⟨raws', rearranged_of_each each, read⟩

/-- A candidate that may stop everything does so, its spans listed in another order. -/
theorem exists_stopping {raw : JsonObject} (hraw : raw ∈ raws) (may : MayStop rt .recursionError raw) :
    ∃ raws', Rearranged rt raws raws' ∧ ∃ raw ∈ raws', ∃ e, parseCandidate rt raw = .error e := by
  obtain ⟨before, after, rfl⟩ := List.append_of_mem hraw
  obtain ⟨raw', rearranged, stopped⟩ := exists_stopped may
  have same : ∀ l : List JsonObject, List.Forall₂ RearrangedTrace l l :=
    fun l => List.forall₂_same.2 fun raw _ => .refl raw
  refine ⟨before ++ raw' :: after, rearranged_of_each ?_, raw', by simp, _, stopped⟩
  exact List.rel_append (same before) (.cons rearranged (same after))

/-- The result does not depend on order or spelling, exactly where no candidate ends in two ways or
the result is an exception in any case. -/
theorem normalize_independent_iff
    (distinct : ((validTraces rt (candidateObjects payload)).map CandidateTrace.traceId).Nodup) :
    Independent rt payload alertIssue maxSpans ↔ Steady rt payload alertIssue maxSpans := by
  refine ⟨fun independent => ?_,
    fun steady => ⟨fun _ => same_of_steady distinct steady, fun _ => highest_of_stored⟩⟩
  by_contra unsteady
  simp only [Steady, not_or] at unsteady
  obtain ⟨pos, torn, none_, fits⟩ := unsteady
  push Not at torn
  obtain ⟨raw, hraw, -, may⟩ := torn
  -- listed in one way every candidate is read, in another way one of them stops everything
  obtain ⟨raws, rearranged, read⟩ := exists_read none_
  obtain ⟨raws', rearranged', raw', hraw', e, stopped⟩ := exists_stopping hraw may
  rw [← candidateObjects_arr raws] at rearranged read
  rw [← candidateObjects_arr raws'] at rearranged' hraw'
  have same := (independent.same _ rearranged).trans (independent.same _ rearranged').symm
  rcases normalize_eq (.arr (raws.map .obj)) alertIssue pos with ⟨⟨raw'', hraw'', e'', stops⟩, -⟩ | ⟨-, here⟩
  · obtain ⟨c, hc⟩ := read raw'' hraw''
    cases hc.symm.trans stops
  · rcases normalize_eq (.arr (raws'.map .obj)) alertIssue pos with ⟨-, there⟩ | ⟨reads, -⟩
    · rw [here, there, storedBest_sameTraces (validTraces_rearranged rearranged)
        (fun c => tree_of_validTraces) distinct] at same
      exact fits ((storedBest_recursionError distinct).1 same)
    · obtain ⟨c, hc⟩ := reads raw' hraw'
      cases hc.symm.trans stopped

end Results

/-! ## Two addresses that cannot be read -/

/-- A span that calls an address. -/
def addressed (id : String) (parent : Option String) (address : String) : Json :=
  .obj [("spanId", .str id), ("parentSpanId", textOrNull parent), ("serviceName", .str "api"),
    ("operationName", .str "call"),
    ("startOffsetMs", .int 0), ("durationMs", .int 1), ("status", .str "OK"), ("kind", .str "CLIENT"),
    ("criticalPath", .bool false), ("attributes", .obj [("server.address", .str address)])]

def addressedSpan (id : String) (parent : Option String) (address : String) : WorkerSpan :=
  ⟨id, parent, "api", "call", 0, 1, "OK", "CLIENT", false, [("server.address", .str address)]⟩

/-- A raw trace of the given spans. -/
def addressedTrace (spans : List Json) : JsonObject :=
  [("traceId", .str "4bf92f35"), ("startedAt", .str "2026-08-23T01:02:03Z"), ("durationMs", .int 1),
    ("spans", .arr spans)]

section Addresses

theorem reads_addressed {id : String} (named : id ≠ "") (parent : Option String) (address : String) :
    ReadsSpan isoRuntime (addressed id parent address) (addressedSpan id parent address) := by
  refine ⟨_, rfl, ?_⟩
  have service : safeServiceName isoRuntime.toInterpreter "api" = .valid "api" := by decide +kernel
  have operation : safeOperationName isoRuntime.toInterpreter "call" = .valid "call" := by decide +kernel
  have zero : spanTime isoRuntime (some (.int 0)) = .valid 0 := by decide +kernel
  have one : spanTime isoRuntime (some (.int 1)) = .valid 1 := by decide +kernel
  have status : literal statuses (some (.str "OK")) = .valid "OK" := by decide +kernel
  have kind : literal kinds (some (.str "CLIENT")) = .valid "CLIENT" := by decide +kernel
  have parent_ : inputParent (some (textOrNull parent)) = .valid parent := by cases parent <;> rfl
  simp only [validateSpan, Outcome.map_eq_valid, Outcome.both_eq_valid]
  exact ⟨(id, parent, "api", "call", 0, 1, "OK", "CLIENT", false, [("server.address", .str address)], ()),
    ⟨if_neg named, parent_, service, operation, zero, one, status, kind, rfl, rfl, rfl⟩, rfl⟩

theorem readTrace_addressed {items : List Json} {spans : List WorkerSpan}
    (each : List.Forall₂ (ReadsSpan isoRuntime) items spans) (nonempty : items ≠ []) :
    readTrace isoRuntime (addressedTrace items) =
      some ⟨"4bf92f35", (63923043723000000, 0), 0, some 1, spans⟩ := by
  obtain ⟨xs, normal, valid⟩ : ∃ xs, items.mapM normalizeSpanKeys = some xs ∧
      List.Forall₂ (fun v span => validateSpan isoRuntime v = .valid span) xs spans := by
    clear nonempty
    induction each with
    | nil => exact ⟨[], rfl, .nil⟩
    | cons head _ ih =>
      obtain ⟨v, hv, valid⟩ := head
      obtain ⟨xs, hxs, rest⟩ := ih
      exact ⟨v :: xs, by rw [List.mapM_cons, hv, hxs]; rfl, .cons valid rest⟩
  have nonempty' : xs ≠ [] := by
    rintro rfl
    cases valid
    cases each
    exact nonempty rfl
  have keys : normalizeTraceKeys (addressedTrace items) =
      some [("trace_id", .str "4bf92f35"), ("started_at", .str "2026-08-23T01:02:03Z"),
        ("duration_ms", .int 1), ("spans", .arr xs)] :=
    normalizeTraceKeys_eq_some.2 ⟨_, items, xs, rfl, rfl, normal, rfl⟩
  have started : startedAt isoRuntime (some (.str "2026-08-23T01:02:03Z")) =
      .valid (63923043723000000, 0) := by decide +kernel
  have one : traceDuration isoRuntime (some (.int 1)) = .valid (some 1) := by decide +kernel
  have listed : inputSpans isoRuntime (some (.arr xs)) = .valid spans := by
    rw [inputSpans, Outcome.andThen_eq_valid]
    exact ⟨spans, Outcome.all_eq_valid.2 (List.forall₂_map_left_iff.2 valid), if_neg nonempty'⟩
  have valid_ : validateTrace isoRuntime [("trace_id", .str "4bf92f35"),
    ("started_at", .str "2026-08-23T01:02:03Z"),
      ("duration_ms", .int 1), ("spans", .arr xs)] =
        .valid ⟨"4bf92f35", (63923043723000000, 0), 0, some 1, spans⟩ := by
    simp only [validateTrace, Outcome.map_eq_valid, Outcome.both_eq_valid]
    exact ⟨("4bf92f35", (63923043723000000, 0), 0, some 1, spans, ()),
      ⟨rfl, started, rfl, one, listed, rfl⟩, rfl⟩
  rw [readTrace, keys]
  dsimp only
  rw [valid_]

theorem wellFormed_addressed (s t : String) : InputTrace.WellFormed isoRuntime
    ⟨"4bf92f35", (63923043723000000, 0), 0, some 1,
      [addressedSpan "a" none s, addressedSpan "b" (some "a") t]⟩
    (addressedSpan "a" none s) where
  distinct := by
    show ["a", "b"].Nodup
    decide
  oneRoot := rfl
  parents := by
    simp [addressedSpan]
  noCycle := rfl
  inTime := by
    have early : isoRuntime.sum (0 : ℚ) (1 : ℚ) ≤ isoRuntime.sum (1 : ℚ) 1 := by decide +kernel
    exact List.forall_mem_cons.2 ⟨early, List.forall_mem_cons.2 ⟨early, by simp⟩⟩

theorem filter_addressed {i : Interpreter} {e : PyError} {id quad : String} {parent : Option String} {n : Nat}
    (digits : Base64.isPart quad.toList = true) (raises : isCompactJwt i (token quad n) = .error e) :
    (addressedSpan id parent (token quad n)).filter i = .error e := by
  rw [WorkerSpan.filter, addressedSpan]
  dsimp only
  rw [safeAttributes, keepsAddress_token digits raises]
  rfl

/-- A trace whose first span names a long numeral as its address, and the other a nested document. -/
def numeralFirst : List Json :=
  [addressed "a" none (numeralToken 1434), addressed "b" (some "a") (nestedToken 334)]

/-- The same spans in the other order. -/
def nestedFirst : List Json :=
  [addressed "b" (some "a") (nestedToken 334), addressed "a" none (numeralToken 1434)]

/-- With the numeral first the trace is dropped. -/
theorem parse_numeralFirst : parseCandidate isoRuntime (addressedTrace numeralFirst) = .ok none := by
  have found :=
    readTrace_addressed (.cons (reads_addressed (show "a" ≠ "" by decide) none (numeralToken 1434))
    (.cons (reads_addressed (show "b" ≠ "" by decide) (some "a") (nestedToken 334)) .nil))
      (List.cons_ne_nil _ _)
  have fails := isCompactJwt_numeral (show isoRuntime.maxDigits < 3 * 1434 by decide) (by decide)
  exact parse_of_stops found (wellFormed_addressed _ _)
    ⟨[], _, _, rfl, by simp, filter_addressed (by decide) fails⟩

/-- With the nested document first the exception leaves. -/
theorem parse_nestedFirst : parseCandidate isoRuntime (addressedTrace nestedFirst) =
      .error .recursionError := by
  have found :=
    readTrace_addressed (.cons (reads_addressed (show "b" ≠ "" by decide) (some "a") (nestedToken 334))
    (.cons (reads_addressed (show "a" ≠ "" by decide) none (numeralToken 1434)) .nil)) (List.cons_ne_nil _ _)
  have wellFormed := wellFormed_addressed (numeralToken 1434) (nestedToken 334)
  have reordered : InputTrace.Reordered
      ⟨"4bf92f35", (63923043723000000, 0), 0, some 1,
        [addressedSpan "a" none (numeralToken 1434), addressedSpan "b" (some "a") (nestedToken 334)]⟩
      ⟨"4bf92f35", (63923043723000000, 0), 0, some 1,
        [addressedSpan "b" (some "a") (nestedToken 334), addressedSpan "a" none (numeralToken 1434)]⟩ :=
    ⟨rfl, rfl, rfl, rfl, .swap _ _ _⟩
  have fails := isCompactJwt_nested (show isoRuntime.maxDepth < 3 * 334 by decide) (by decide)
  exact parse_of_stops found (reordered.wellFormed wellFormed)
    ⟨[], _, _, rfl, by simp, filter_addressed (by decide) fails⟩

/-- The order of two spans decides whether the worker answers. -/
theorem order_of_spans_shows :
    ((validTraces isoRuntime (candidateObjects (.arr [.obj (addressedTrace numeralFirst)]))).map
      CandidateTrace.traceId).Nodup ∧
      normalizeTraceEvidence isoRuntime (.arr [.obj (addressedTrace numeralFirst)]) "latency" 100 = .ok none ∧
      normalizeTraceEvidence isoRuntime (.arr [.obj (addressedTrace nestedFirst)]) "latency" 100 =
        .error .recursionError ∧
      ¬ Independent isoRuntime (.arr [.obj (addressedTrace numeralFirst)]) "latency" 100 := by
  have dropped : ∀ raw ∈ candidateObjects (.arr [.obj (addressedTrace numeralFirst)]),
      parseCandidate isoRuntime raw = .ok none :=
    List.forall_mem_singleton.2 parse_numeralFirst
  have none_ := validTraces_dropped dropped
  have here : normalizeTraceEvidence isoRuntime (.arr [.obj (addressedTrace numeralFirst)]) "latency" 100 =
      .ok none := by
    rcases normalize_eq (.arr [.obj (addressedTrace numeralFirst)]) "latency" (show ¬ (100 : Int) <
      1 by decide) with
      ⟨⟨raw, hraw, e, stopped⟩, -⟩ | ⟨-, stored⟩
    · cases (dropped raw hraw).symm.trans stopped
    · rw [stored, none_]
      rfl
  have there : normalizeTraceEvidence isoRuntime (.arr [.obj (addressedTrace nestedFirst)]) "latency" 100 =
      .error .recursionError := by
    rcases normalize_eq (.arr [.obj (addressedTrace nestedFirst)]) "latency" (show ¬ (100 : Int) <
      1 by decide) with
      ⟨-, error⟩ | ⟨parsed, -⟩
    · exact error
    · obtain ⟨c, hc⟩ := parsed (addressedTrace nestedFirst) List.mem_cons_self
      cases hc.symm.trans parse_nestedFirst
  refine ⟨by simp [none_], here, there, fun independent => ?_⟩
  have swapped : RearrangedTrace (addressedTrace numeralFirst) (addressedTrace nestedFirst) := by
    have spans : RearrangedSpans numeralFirst nestedFirst :=
      ⟨numeralFirst, List.forall₂_same.2 fun v _ => .same v, .swap _ _ _⟩
    exact .cons ⟨rfl, .inl rfl⟩ (.cons ⟨rfl, .inl rfl⟩ (.cons ⟨rfl, .inl rfl⟩
      (.cons ⟨rfl, .inr ⟨rfl, _, _, rfl, rfl, spans⟩⟩ .nil)))
  have same :=
    independent.same (.arr [.obj (addressedTrace nestedFirst)]) (rearranged_of_each (.cons swapped .nil))
  cases there.symm.trans (same.trans here)

/-- Two valid candidates may be listed in any order. -/
theorem two_candidates_independent :
    ((validTraces isoRuntime (candidateObjects failedAndSlow)).map CandidateTrace.traceId).Nodup ∧
      Independent isoRuntime failedAndSlow "latency" 100 := by
  have distinct :
      ((validTraces isoRuntime (candidateObjects failedAndSlow)).map CandidateTrace.traceId).Nodup := by
    decide +kernel
  refine ⟨distinct, (normalize_independent_iff distinct).2 (.inr (.inl fun raw hraw torn => ?_))⟩
  have valid : ∀ raw ∈ candidateObjects failedAndSlow,
      (parseCandidate isoRuntime raw).toOption.join.isSome = true := by
    simp only [failedAndSlow, candidateObjects, objects]
    decide +kernel
  cases parsed : parseCandidate isoRuntime raw with
  | error e => simpa [parsed, Except.toOption] using valid raw hraw
  | ok c =>
    cases c with
    | none => simpa [parsed, Except.toOption] using valid raw hraw
    | some c => exact not_mayStop_of_valid parsed torn.1

end Addresses

end SreAgent.Trace
