import SreAgent.Trace.Spelling

/-!
# What the result depends on

Rearranging a payload leaves its valid traces alone, up to order, and so the chosen trace and its
dictionary (`storedBest_sameTraces`), whatever the order of candidates and spans and the spelling of
keys. What a payload with an unreadable server address ends in may still differ: that is `Torn`.
-/

namespace SreAgent.Trace
open Base JsonParse ParentChain

/-! ## Rearranged payloads -/

/-- Candidates in another order, each rearranged, without some and with other ones that fail validation. -/
def Rearranged (rt : Runtime) (raws raws' : List JsonObject) : Prop :=
  ∃ kept kept' dropped added, raws.Perm (kept ++ dropped) ∧ raws'.Perm (kept' ++ added) ∧
    List.Forall₂ RearrangedTrace kept kept' ∧ (∀ raw ∈ dropped, parseCandidate rt raw = .ok none) ∧
    ∀ raw ∈ added, parseCandidate rt raw = .ok none

/-- The filter of some span of a candidate that passes all other checks raises `e`. -/
def MayStop (rt : Runtime) (e : PyError) (raw : JsonObject) : Prop :=
  ∃ trace root, readTrace rt raw = some trace ∧ trace.WellFormed rt root ∧
    ∃ span ∈ trace.spans, span.filter rt.toInterpreter = .error e

section Symmetry

variable {d d' : JsonObject}

theorem RespelledSpan.symm {v v' : Json} (h : RespelledSpan v v') : RespelledSpan v' v := by
  cases h with
  | same => exact .same _
  | keys h => exact .keys (h.flip.imp fun _ _ same => ⟨same.1.symm, same.2.symm⟩)

theorem RearrangedSpans.symm {items items' : List Json} (h : RearrangedSpans items items') :
    RearrangedSpans items' items := by
  obtain ⟨listed, respelled, perm⟩ := h
  obtain ⟨listed', respelled', perm'⟩ :=
    List.perm_comp_forall₂ perm.symm (respelled.flip.imp fun _ _ => RespelledSpan.symm)
  exact ⟨listed', respelled', perm'⟩

/-- `spans` has no alias. -/
theorem canonicalKey_spans {key : String}
    (h : canonicalKey traceAliases key = canonicalKey traceAliases "spans") :
    key = "spans" := by
  have spans : canonicalKey traceAliases "spans" = "spans" := by decide
  rw [spans, canonicalKey] at h
  cases found : JsonObject.get? traceAliases key with
  | none =>
    rw [found] at h
    exact h
  | some name =>
    rw [found] at h
    have listed : ∀ item ∈ traceAliases, item.2 = "spans" → item.1 = "spans" := by decide
    exact listed _ (JsonObject.mem_of_get? found) h

/-- A rearranged trace is rearranged back. -/
theorem RearrangedTrace.symm (h : RearrangedTrace d d') : RearrangedTrace d' d := by
  refine h.flip.imp fun item' item field => ⟨field.key.symm, ?_⟩
  rcases field.value with same | ⟨key, items, items', hitems, hitems', spans⟩
  · exact .inl same.symm
  · exact .inr ⟨canonicalKey_spans (field.key.trans (congrArg _ key)), items', items, hitems', hitems,
      spans.symm⟩

theorem RearrangedTrace.refl (d : JsonObject) : RearrangedTrace d d :=
  List.forall₂_same.2 fun _ _ => ⟨rfl, .inl rfl⟩

end Symmetry

/-! ## Candidates that stop -/

section Stop

variable {rt : Runtime} {e : PyError} {raw raw' : JsonObject} {c : CandidateTrace}

/-- A rearranged trace stops with the same exception. -/
theorem mayStop_rearranged (h : RearrangedTrace raw raw') (stops : MayStop rt e raw) : MayStop rt e raw' := by
  obtain ⟨trace, root, found, wellFormed, span, hspan, filter⟩ := stops
  obtain ⟨trace', found', reordered⟩ := readTrace_rearranged h found
  exact ⟨trace', root, found', reordered.wellFormed wellFormed, span, reordered.spans.mem_iff.1 hspan, filter⟩

/-- A rearranged trace is accepted as the same trace in another order. -/
theorem parse_valid_rearranged (h : RearrangedTrace raw raw') (valid : parseCandidate rt raw = .ok (some c)) :
    ∃ c', parseCandidate rt raw' = .ok (some c') ∧ c.Reordered c' := by
  rcases parseCandidate_cases rt raw with ⟨trace, root, spans, found, wellFormed, filtered, parsed⟩ |
    ⟨-, parsed⟩ | ⟨-, parsed⟩
  · cases parsed.symm.trans valid
    obtain ⟨trace', found', reordered⟩ := readTrace_rearranged h found
    obtain ⟨spans', filtered', same⟩ := @InputTrace.Reordered.candidate _ _ _ root reordered _ filtered
    refine ⟨_, ?_, same⟩
    rcases parseCandidate_cases rt raw' with
      ⟨trace'', root'', spans'', found'', wellFormed'', filtered'', parsed'⟩ |
      ⟨stops, -⟩ | ⟨⟨trace'', root'', found'', -, stops⟩, -⟩
    · cases found'.symm.trans found''
      cases filtered'.symm.trans filtered''
      have oneRoot : [root''] = [root] :=
        wellFormed''.oneRoot.symm.trans (reordered.wellFormed wellFormed).oneRoot
      cases List.cons.inj oneRoot |>.1
      exact parsed'
    · cases filtered'.symm.trans
        (normalizeSpans_eq_error.2 (stops trace' root found' (reordered.wellFormed wellFormed)))
    · cases found'.symm.trans found''
      cases filtered'.symm.trans (normalizeSpans_eq_error.2 stops)
  · cases parsed.symm.trans valid
  · cases parsed.symm.trans valid

/-- A trace fails with a recursion error only. -/
theorem mayStop_of_error (h : parseCandidate rt raw = .error e) :
    e = .recursionError ∧ MayStop rt .recursionError raw := by
  obtain ⟨rfl, trace, root, found, wellFormed, before, span, after, hspans, -, filter⟩ :=
    parseCandidate_error h
  exact ⟨rfl, trace, root, found, wellFormed, span, by simp [hspans], filter⟩

/-- No filter of a valid candidate raises. -/
theorem not_mayStop_of_valid (valid : parseCandidate rt raw = .ok (some c)) : ¬ MayStop rt e raw := by
  rintro ⟨trace, root, found, wellFormed, span, hspan, filter⟩
  rcases parseCandidate_cases rt raw with ⟨trace', root', spans, found', -, filtered, -⟩ | ⟨-, parsed⟩ |
    ⟨-, parsed⟩
  · cases found.symm.trans found'
    obtain ⟨_, -, attributes, -, safe⟩ := exists_of_forall₂ (normalizeSpans_each filtered).flip hspan
    cases filter.symm.trans safe
  · cases parsed.symm.trans valid
  · cases parsed.symm.trans valid

/-- A candidate only one of whose exceptions can come first ends the same in every order. -/
theorem error_of_mayStop (stops : MayStop rt .recursionError raw) (whole : ¬ MayStop rt .valueError raw) :
    parseCandidate rt raw = .error .recursionError := by
  rcases parseCandidate_cases rt raw with ⟨_, _, _, -, -, -, valid⟩ | ⟨dropped, -⟩ | ⟨-, parsed⟩
  · exact absurd stops (not_mayStop_of_valid valid)
  · obtain ⟨trace, root, found, wellFormed, -⟩ := stops
    obtain ⟨before, s, after, hspans, -, hs⟩ := dropped trace root found wellFormed
    exact absurd ⟨trace, root, found, wellFormed, s, by simp [hspans], hs⟩ whole
  · exact parsed

end Stop

/-! ## Valid traces -/

/-- The same traces in another order, each with its spans in another order. -/
def SameTraces (cs cs' : List CandidateTrace) : Prop :=
  ∃ listed, List.Forall₂ CandidateTrace.Reordered cs listed ∧ listed.Perm cs'

section Valid

variable {rt : Runtime} {raws raws' : List JsonObject} {cs cs' : List CandidateTrace} {a b : CandidateTrace}

theorem validTraces_dropped (h : ∀ raw ∈ raws, parseCandidate rt raw = .ok none) :
    validTraces rt raws = [] := by
  refine List.filterMap_eq_nil_iff.2 fun raw hraw => ?_
  rw [h raw hraw]

theorem validTraces_perm (perm : raws.Perm raws') : (validTraces rt raws).Perm (validTraces rt raws') :=
  perm.filterMap _

theorem validTraces_append : validTraces rt (raws ++ raws') = validTraces rt raws ++ validTraces rt raws' :=
  List.filterMap_append

theorem mem_validTraces : a ∈ validTraces rt raws ↔ ∃ raw ∈ raws, parseCandidate rt raw = .ok (some a) := by
  rw [validTraces, List.mem_filterMap]
  refine exists_congr fun raw => and_congr_right fun _ => ?_
  cases parseCandidate rt raw <;> simp

theorem validTraces_valid {raw : JsonObject} (h : parseCandidate rt raw = .ok (some a)) :
    validTraces rt (raw :: raws) = a :: validTraces rt raws :=
  List.filterMap_cons_some (by rw [h])

theorem validTraces_invalid {raw : JsonObject} (h : ¬ ∃ c, parseCandidate rt raw = .ok (some c)) :
    validTraces rt (raw :: raws) = validTraces rt raws := by
  refine List.filterMap_cons_none ?_
  cases parsed : parseCandidate rt raw with
  | error e => rfl
  | ok c =>
    cases c with
    | none => rfl
    | some c => exact absurd ⟨c, parsed⟩ h

/-- Rearranged payloads have the same valid traces. -/
theorem validTraces_rearranged (h : Rearranged rt raws raws') :
    SameTraces (validTraces rt raws) (validTraces rt raws') := by
  obtain ⟨kept, kept', dropped, added, perm, perm', each, hdropped, hadded⟩ := h
  have same : List.Forall₂ CandidateTrace.Reordered (validTraces rt kept) (validTraces rt kept') := by
    clear perm perm'
    induction each with
    | nil => exact .nil
    | @cons raw raw' rest rest' head _ ih =>
      by_cases valid : ∃ c, parseCandidate rt raw = .ok (some c)
      · obtain ⟨c, valid⟩ := valid
        obtain ⟨c', valid', reordered⟩ := parse_valid_rearranged head valid
        rw [validTraces_valid valid, validTraces_valid valid']
        exact .cons reordered ih
      · have invalid' : ¬ ∃ c', parseCandidate rt raw' = .ok (some c') := by
          rintro ⟨c', valid'⟩
          obtain ⟨c, valid'', -⟩ := parse_valid_rearranged head.symm valid'
          exact valid ⟨c, valid''⟩
        rw [validTraces_invalid valid, validTraces_invalid invalid']
        exact ih
  have left : (validTraces rt raws).Perm (validTraces rt kept) := by
    have := @validTraces_perm rt _ _ perm
    rwa [validTraces_append, validTraces_dropped hdropped, List.append_nil] at this
  have right : (validTraces rt raws').Perm (validTraces rt kept') := by
    have := @validTraces_perm rt _ _ perm'
    rwa [validTraces_append, validTraces_dropped hadded, List.append_nil] at this
  obtain ⟨listed, each', perm''⟩ := List.perm_comp_forall₂ left same
  exact ⟨listed, each', perm''.trans right.symm⟩

/-- What is stored of the trace that ranks highest. -/
def storedBest (rt : Runtime) (alertIssue : String) (maxSpans : Nat) (cs : List CandidateTrace) :
    Except PyError (Option JsonObject) :=
  match ranked alertIssue cs with
  | [] => .ok none
  | best :: _ => (best.truncate rt maxSpans >>= SelectedTrace.toStorageDict).map some

/-- Either a trace fails and so does the whole, or the best of the valid ones is stored. -/
theorem normalize_eq (payload : Json) (alertIssue : String) {maxSpans : Int} (pos : ¬ maxSpans < 1) :
    (∃ raw ∈ candidateObjects payload, ∃ e, parseCandidate rt raw = .error e) ∧
        normalizeTraceEvidence rt payload alertIssue maxSpans = .error .recursionError ∨
      (∀ raw ∈ candidateObjects payload, ∃ c, parseCandidate rt raw = .ok c) ∧
        normalizeTraceEvidence rt payload alertIssue maxSpans =
          storedBest rt alertIssue (min maxSpans.toNat maxResponseSpans)
          (validTraces rt (candidateObjects payload)) := by
  unfold normalizeTraceEvidence
  rw [if_neg pos]
  by_cases stops : ∃ raw ∈ candidateObjects payload, ∃ e, parseCandidate rt raw = .error e
  · obtain ⟨raw, hraw, e, he⟩ := id stops
    refine .inl ⟨stops, ?_⟩
    rw [parseCandidates_eq_error hraw he]
    rfl
  · have parsed : ∀ raw ∈ candidateObjects payload, ∃ c, parseCandidate rt raw = .ok c := by
      intro raw hraw
      cases h : parseCandidate rt raw with
      | error e => exact absurd ⟨raw, hraw, e, h⟩ stops
      | ok c => exact ⟨c, rfl⟩
    refine .inr ⟨parsed, ?_⟩
    rw [parseCandidates_eq_ok parsed, storedBest]
    simp only [bind, Except.bind]
    cases ranked alertIssue (validTraces rt (candidateObjects payload)) with
    | nil => rfl
    | cons best rest =>
      dsimp only
      cases best.truncate rt (min maxSpans.toNat maxResponseSpans) with
      | error e => rfl
      | ok t =>
        dsimp only
        cases t.toStorageDict <;> rfl

theorem length_sameTraces (h : SameTraces cs cs') : cs.length = cs'.length := by
  obtain ⟨listed, each, perm⟩ := h
  rw [each.length_eq, perm.length_eq]

/-- The trace that ranks highest is the same in another order. -/
theorem best_sameTraces {alertIssue : String} (h : SameTraces cs cs') (trees : ∀ c ∈ cs, c.SpanTree)
    (distinct : (cs.map CandidateTrace.traceId).Nodup) (first : (ranked alertIssue cs).head? = some a)
    (first' : (ranked alertIssue cs').head? = some b) : a.Reordered b := by
  obtain ⟨listed, each, perm⟩ := h
  obtain ⟨ha, highest⟩ := ranks_of_head first
  obtain ⟨hb, highest'⟩ := ranks_of_head first'
  obtain ⟨a', ha', reorderedA⟩ := exists_of_forall₂ each.flip ha
  obtain ⟨b', hb', reorderedB⟩ := exists_of_forall₂ each (perm.mem_iff.2 hb)
  have le := ranksAtMost_iff.1 (highest b' hb')
  have le' := ranksAtMost_iff.1 (highest' a' (perm.mem_iff.1 ha'))
  rw [reorderedA.rankKey (trees a ha), reorderedB.rankKey (trees b' hb')] at le'
  have same : rankKey alertIssue a = rankKey alertIssue b' := le_antisymm le' le
  have id : a.traceId = b'.traceId := by
    have := congrArg (fun key => (ofLex (ofLex (ofLex (ofLex key).2).2).2).2) same
    exact this
  rwa [List.inj_on_of_nodup_map distinct ha hb' id]

/-- Of the same traces the same is stored. -/
theorem storedBest_sameTraces {alertIssue : String} (h : SameTraces cs cs') (trees : ∀ c ∈ cs, c.SpanTree)
    (distinct : (cs.map CandidateTrace.traceId).Nodup) (maxSpans : Nat) :
    storedBest rt alertIssue maxSpans cs' = storedBest rt alertIssue maxSpans cs := by
  have lengths : (ranked alertIssue cs).length = (ranked alertIssue cs').length := by
    unfold ranked
    rw [List.length_insertionSort, List.length_insertionSort, length_sameTraces h]
  unfold storedBest
  cases hcs : ranked alertIssue cs with
  | nil =>
    rw [hcs] at lengths
    rw [List.length_eq_zero_iff.1 lengths.symm]
  | cons best rest =>
    cases hcs' : ranked alertIssue cs' with
    | nil => rw [hcs, hcs'] at lengths; cases lengths
    | cons best' rest' =>
      have reordered := best_sameTraces h trees distinct (by rw [hcs]; rfl) (by rw [hcs']; rfl)
      have inside : best ∈ cs :=
        (List.mem_insertionSort _).1 (hcs ▸ List.mem_cons_self : best ∈ ranked alertIssue cs)
      dsimp only
      rw [reordered.stored_eq (trees best inside)]

end Valid

end SreAgent.Trace
