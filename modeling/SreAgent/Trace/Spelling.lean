import SreAgent.Trace.Parsed
import SreAgent.Trace.Reordered

/-!
# Order and spelling of the payload

Candidates and their spans may come in any order and with either spelling of their keys. A raw
candidate reads the same then, up to the order of its spans (`readTrace_rearranged`).
-/

namespace SreAgent.Trace
open Base JsonParse ParentChain

/-! ## Spellings -/

/-- The name a key stands for. -/
def canonicalKey (aliases : List (String × String)) (key : String) : String :=
  (JsonObject.get? aliases key).getD key

/-- The same items under other spellings of their keys. -/
def Respelled (aliases : List (String × String)) (d d' : JsonObject) : Prop :=
  List.Forall₂ (fun item item' => canonicalKey aliases item'.1 = canonicalKey aliases item.1 ∧
    item'.2 = item.2) d d'

/-- A span, perhaps with other spellings of its keys. -/
inductive RespelledSpan : Json → Json → Prop where
  | same (v : Json) : RespelledSpan v v
  | keys {d d' : JsonObject} : Respelled spanAliases d d' → RespelledSpan (.obj d) (.obj d')

/-- Spans with other spellings, in another order. -/
def RearrangedSpans (items items' : List Json) : Prop :=
  ∃ listed, List.Forall₂ RespelledSpan items listed ∧ listed.Perm items'

/-- A field of a trace under another spelling; the spans may be rearranged. -/
structure RearrangedField (item item' : String × Json) : Prop where
  key : canonicalKey traceAliases item'.1 = canonicalKey traceAliases item.1
  value : item'.2 = item.2 ∨ item.1 = "spans" ∧ ∃ items items', item.2 = .arr items ∧ item'.2 = .arr items' ∧
    RearrangedSpans items items'

/-- A raw trace with other spellings, its spans in another order. -/
def RearrangedTrace (d d' : JsonObject) : Prop := List.Forall₂ RearrangedField d d'

/-! ## Keys -/

section Keys

variable {aliases : List (String × String)} {d d' : JsonObject}

theorem normalizeAliases_eq (aliases : List (String × String)) (d : JsonObject) : normalizeAliases aliases d =
    let normalized := d.map fun item => (canonicalKey aliases item.1, item.2)
    if (JsonObject.keys normalized).Nodup then some normalized else none := rfl

/-- Other spellings of the keys normalize to the same object. -/
theorem normalizeAliases_respelled (h : Respelled aliases d d') :
    normalizeAliases aliases d' = normalizeAliases aliases d := by
  have same : (d'.map fun item => (canonicalKey aliases item.1, item.2)) =
      d.map fun item => (canonicalKey aliases item.1, item.2) := by
    unfold Respelled at h
    induction h with
    | nil => rfl
    | cons head _ ih => rw [List.map_cons, List.map_cons, head.1, head.2, ih]
  rw [normalizeAliases_eq, normalizeAliases_eq, same]

/-- A respelled span is normalized alike. -/
theorem normalizeSpanKeys_respelled {v v' : Json} (h : RespelledSpan v v') :
    normalizeSpanKeys v' = normalizeSpanKeys v := by
  cases h with
  | same => rfl
  | keys h => rw [normalizeSpanKeys, normalizeSpanKeys, normalizeAliases_respelled h]

/-- The normalized spans are the same, in another order. -/
theorem mapM_normalizeSpanKeys {items items' xs : List Json} (h : RearrangedSpans items items')
    (found : items.mapM normalizeSpanKeys = some xs) : ∃ xs', items'.mapM normalizeSpanKeys = some xs' ∧
      xs.Perm xs' := by
  obtain ⟨listed, respelled, perm⟩ := h
  have same : listed.mapM normalizeSpanKeys = items.mapM normalizeSpanKeys := by
    clear perm found
    induction respelled with
    | nil => rfl
    | cons head _ ih => rw [List.mapM_cons, List.mapM_cons, normalizeSpanKeys_respelled head, ih]
  exact mapM_perm perm (same.trans found)

/-- The fields of a trace with its keys normalized: the same, but for the order of the spans. -/
structure SameFields (data data' : JsonObject) : Prop where
  keys : JsonObject.keys data' = JsonObject.keys data
  other : ∀ key, key ≠ "spans" → JsonObject.get? data' key = JsonObject.get? data key
  spans : ∃ xs xs', JsonObject.get? data "spans" = some (.arr xs) ∧ JsonObject.get? data' "spans" =
    some (.arr xs') ∧ xs.Perm xs'

/-- `d[key] = v` changes the value of the key only. -/
theorem get?_setItem {d : JsonObject} {key : String} (present : key ∈ JsonObject.keys d) (v : Json)
    (other : String) :
    JsonObject.get? (setItem d key v) other = if other = key then some v else JsonObject.get? d other := by
  rw [setItem, if_pos present]
  induction d with
  | nil => cases present
  | cons item d ih =>
    rw [List.map_cons, JsonObject.get?_cons, JsonObject.get?_cons]
    by_cases hkey : item.1 = key
    · by_cases hother : other = key
      · simp [hkey, hother]
      · have rest : ∀ d : JsonObject,
          JsonObject.get? (d.map fun item => if item.1 = key then (key, v) else item) other =
            JsonObject.get? d other := by
          intro d
          induction d with
          | nil => rfl
          | cons item d ih =>
            rw [List.map_cons, JsonObject.get?_cons, JsonObject.get?_cons, ih]
            by_cases hkey : item.1 = key <;> simp [hkey, Ne.symm hother]
        simp [hkey, hother, Ne.symm hother, rest]
    · have present : key ∈ JsonObject.keys d := (List.mem_cons.1 present).resolve_left (Ne.symm hkey)
      rw [ih present, if_neg hkey]
      by_cases hother : other = key
      · subst hother
        simp [hkey]
      · simp [hother]

/-- `d[key] = v` keeps the keys, where the key is one. -/
theorem keys_setItem (d : JsonObject) (key : String) (v : Json) (present : key ∈ JsonObject.keys d) :
    JsonObject.keys (setItem d key v) = JsonObject.keys d := by
  rw [setItem, if_pos present]
  simp only [JsonObject.keys, List.map_map]
  refine List.map_congr_left fun item _ => ?_
  simp only [Function.comp_apply]
  split
  · next same => exact same.symm
  · rfl

/-- Fields whose keys are normalized. -/
def SameItems (items items' : JsonObject) : Prop :=
  List.Forall₂ (fun item item' => item'.1 = item.1 ∧ (item'.2 = item.2 ∨ item.1 = "spans" ∧
    ∃ spans spans', item.2 = .arr spans ∧ item'.2 = .arr spans' ∧ RearrangedSpans spans spans')) items items'

/-- Rearranged traces have the same fields once their keys are normalized. -/
theorem sameItems_of_rearranged {d d' : JsonObject} (h : RearrangedTrace d d') :
    SameItems (d.map fun item => (canonicalKey traceAliases item.1, item.2))
      (d'.map fun item => (canonicalKey traceAliases item.1, item.2)) := by
  have spans : canonicalKey traceAliases "spans" = "spans" := by decide
  refine List.forall₂_map_left_iff.2
    (List.forall₂_map_right_iff.2 (h.imp fun item item' field => ⟨field.key, ?_⟩))
  exact field.value.imp_right fun ⟨key, rest⟩ => ⟨(congrArg _ key).trans spans, rest⟩

namespace SameItems

theorem keys (h : SameItems d d') : JsonObject.keys d' = JsonObject.keys d := by
  unfold SameItems at h
  induction h with
  | nil => rfl
  | cons head _ ih => exact congrArg₂ List.cons head.1 ih

theorem other (h : SameItems d d') {key : String} (ne : key ≠ "spans") :
    JsonObject.get? d' key = JsonObject.get? d key := by
  unfold SameItems at h
  induction h with
  | nil => rfl
  | @cons item item' _ _ head _ ih =>
    rw [JsonObject.get?_cons, JsonObject.get?_cons, head.1, ih]
    split
    · next same =>
      rcases head.2 with value | ⟨spans, -⟩
      · rw [value]
      · exact absurd (same.symm.trans spans) ne
    · rfl

theorem spans (h : SameItems d d') {spans : List Json}
    (found : JsonObject.get? d "spans" = some (.arr spans)) :
    ∃ spans', JsonObject.get? d' "spans" = some (.arr spans') ∧ RearrangedSpans spans spans' := by
  unfold SameItems at h
  induction h with
  | nil => cases found
  | @cons item item' _ _ head _ ih =>
    rw [JsonObject.get?_cons] at found
    rw [JsonObject.get?_cons, head.1]
    split at found
    · next same =>
      rw [if_pos same]
      rcases head.2 with value | ⟨-, items, items', h, h', rearranged⟩
      · refine ⟨spans,
          by rw [value, Option.some.inj found], spans, List.forall₂_same.2 fun v _ => .same v, .refl _⟩
      · cases Option.some.inj (found.symm.trans (congrArg some h))
        exact ⟨items', congrArg some h', rearranged⟩
    · next different =>
      rw [if_neg different]
      exact ih found

end SameItems

/-- The keys of a trace are normalized where those of all its spans are. -/
theorem normalizeTraceKeys_eq_some {raw data : JsonObject} : normalizeTraceKeys raw = some data ↔
    ∃ normalized spans xs, normalizeAliases traceAliases raw = some normalized ∧
      JsonObject.get? normalized "spans" = some (.arr spans) ∧ spans.mapM normalizeSpanKeys = some xs ∧
      data = setItem normalized "spans" (.arr xs) := by
  unfold normalizeTraceKeys
  cases normalizeAliases traceAliases raw with
  | none => simp
  | some normalized =>
    simp only [Option.bind_eq_bind, Option.bind_some, Option.some.injEq, exists_and_left, exists_eq_left']
    split
    · next spans found =>
      cases hxs : spans.mapM normalizeSpanKeys <;> simp [hxs, found, eq_comm]
    · next other =>
      constructor
      · intro absent
        cases absent
      · rintro ⟨spans, found, -⟩
        exact absurd found (other spans)

/-- The keys of a rearranged trace normalize alike. -/
theorem normalizeTraceKeys_rearranged {data : JsonObject} (h : RearrangedTrace d d')
    (found : normalizeTraceKeys d = some data) :
    ∃ data', normalizeTraceKeys d' = some data' ∧ SameFields data data' := by
  obtain ⟨normalized, spans, xs, haliases, hspans, hxs, rfl⟩ := normalizeTraceKeys_eq_some.1 found
  have items := sameItems_of_rearranged h
  rw [normalizeAliases_eq] at haliases
  dsimp only at haliases
  split at haliases
  · next distinct =>
    cases haliases
    obtain ⟨spans', hspans', rearranged⟩ := items.spans hspans
    obtain ⟨xs', hxs', perm⟩ := mapM_normalizeSpanKeys rearranged hxs
    have present := fun {d : JsonObject} {v : Json} (h : JsonObject.get? d "spans" = some v) =>
      List.mem_map_of_mem (f := Prod.fst) (JsonObject.mem_of_get? h)
    refine ⟨_, normalizeTraceKeys_eq_some.2 ⟨_, spans', xs', ?_, hspans', hxs', rfl⟩, ?_, fun key ne => ?_,
      xs, xs', ?_, ?_, perm⟩
    · rw [normalizeAliases_eq]
      dsimp only
      rw [items.keys, if_pos distinct]
    · rw [keys_setItem _ _ _ (present hspans'), keys_setItem _ _ _ (present hspans), items.keys]
    · rw [get?_setItem (present hspans'), get?_setItem (present hspans), if_neg ne, if_neg ne, items.other ne]
    · rw [get?_setItem (present hspans), if_pos rfl]
    · rw [get?_setItem (present hspans'), if_pos rfl]
  · cases haliases

end Keys

/-! ## Traces -/

/-- The same trace, its spans in another order. -/
structure InputTrace.Reordered (trace trace' : InputTrace) : Prop where
  traceId : trace'.traceId = trace.traceId
  startedAt : trace'.startedAt = trace.startedAt
  score : trace'.latencyAnomalyScore = trace.latencyAnomalyScore
  durationMs : trace'.durationMs = trace.durationMs
  spans : trace.spans.Perm trace'.spans

section Traces

variable {rt : Runtime} {d d' : JsonObject} {trace trace' : InputTrace} {root : WorkerSpan}

theorem inputSpans_perm {xs xs' : List Json} (perm : xs.Perm xs') {spans : List WorkerSpan}
    (h : inputSpans rt (some (.arr xs)) = .valid spans) :
    ∃ spans', inputSpans rt (some (.arr xs')) = .valid spans' ∧ spans.Perm spans' := by
  have accepted : ∀ {xs : List Json} {spans : List WorkerSpan}, inputSpans rt (some (.arr xs)) =
    .valid spans ↔
      xs ≠ [] ∧ List.Forall₂ (fun x span => validateSpan rt x = .valid span) xs spans := by
    intro xs spans
    simp only [inputSpans, Outcome.andThen_eq_valid, Outcome.all_eq_valid, List.forall₂_map_left_iff]
    constructor
    · rintro ⟨spans', each, hif⟩
      split at hif
      · cases hif
      · next nonempty =>
        cases hif
        exact ⟨nonempty, each⟩
    · rintro ⟨nonempty, each⟩
      exact ⟨spans, each, if_neg nonempty⟩
  obtain ⟨nonempty, each⟩ := accepted.1 h
  obtain ⟨spans', each', perm'⟩ := List.perm_comp_forall₂ perm.symm each
  refine ⟨spans', accepted.2 ⟨fun none_ => nonempty ?_, each'⟩, perm'.symm⟩
  rw [none_] at perm
  exact perm.eq_nil

/-- A rearranged trace is accepted with its spans in another order. -/
theorem validateTrace_rearranged {data data' : JsonObject} (h : SameFields data data')
    (valid : validateTrace rt data = .valid trace) : ∃ trace', validateTrace rt data' = .valid trace' ∧
      trace.Reordered trace' := by
  obtain ⟨xs, xs', hxs, hxs', perm⟩ := h.spans
  simp only [validateTrace, Outcome.map_eq_valid, Outcome.both_eq_valid] at valid ⊢
  obtain ⟨⟨a₁, a₂, a₃, a₄, spans, ⟨⟩⟩, ⟨h₁, h₂, h₃, h₄, h₅, h₆⟩, rfl⟩ := valid
  rw [hxs] at h₅
  obtain ⟨spans', h₅', perm'⟩ := inputSpans_perm perm h₅
  refine ⟨_, ⟨(a₁, a₂, a₃, a₄, spans', ()), ⟨?_, ?_, ?_, ?_, ?_, ?_⟩, rfl⟩, rfl, rfl, rfl, rfl, perm'⟩
  · rwa [h.other _ (by decide)]
  · rwa [h.other _ (by decide)]
  · rwa [h.other _ (by decide)]
  · rwa [h.other _ (by decide)]
  · rwa [hxs']
  · unfold noExtra at h₆ ⊢
    rwa [h.keys]

/-- A rearranged trace is read as the same one, its spans in another order. -/
theorem readTrace_rearranged (h : RearrangedTrace d d') (found : readTrace rt d = some trace) :
    ∃ trace', readTrace rt d' = some trace' ∧ trace.Reordered trace' := by
  unfold readTrace at found ⊢
  cases hdata : normalizeTraceKeys d with
  | none => rw [hdata] at found; cases found
  | some data =>
    rw [hdata] at found
    obtain ⟨data', hdata', same⟩ := normalizeTraceKeys_rearranged h hdata
    dsimp only at found
    cases hvalid : validateTrace rt data with
    | invalid => rw [hvalid] at found; cases found
    | raised e => rw [hvalid] at found; cases found
    | valid validated =>
      rw [hvalid] at found
      cases found
      obtain ⟨trace', hvalid', reordered⟩ := validateTrace_rearranged same hvalid
      refine ⟨trace', ?_, reordered⟩
      rw [hdata']
      dsimp only
      rw [hvalid']

/-- The derived duration is the end of a span, and no span ends later. -/
theorem derivedDuration_spec {spans : List WorkerSpan} (nonempty : spans ≠ []) :
    (∃ span ∈ spans, derivedDuration rt spans = span.endMs rt) ∧ ∀ span ∈ spans,
      span.endMs rt ≤ derivedDuration rt spans := by
  induction spans with
  | nil => exact absurd rfl nonempty
  | cons span rest ih =>
    cases rest with
    | nil => exact ⟨⟨span, List.mem_cons_self, rfl⟩, by simp [derivedDuration]⟩
    | cons next rest =>
      obtain ⟨⟨last, hlast, ends⟩, most⟩ := ih (List.cons_ne_nil _ _)
      rw [derivedDuration.eq_3 _ _ _ (by simp)]
      refine ⟨?_, List.forall_mem_cons.2 ⟨le_max_left _ _, fun s hs => (most s hs).trans (le_max_right _ _)⟩⟩
      rcases max_choice (span.endMs rt) (derivedDuration rt (next :: rest)) with first | later
      · exact ⟨span, List.mem_cons_self, first⟩
      · exact ⟨last, List.mem_cons_of_mem _ hlast, later.trans ends⟩

/-- The derived duration does not depend on the order of the spans. -/
theorem derivedDuration_perm {spans spans' : List WorkerSpan} (perm : spans.Perm spans') :
    derivedDuration rt spans' = derivedDuration rt spans := by
  by_cases nonempty : spans = []
  · subst nonempty
    rw [perm.symm.eq_nil]
  · have nonempty' : spans' ≠ [] := fun none_ => nonempty (by rw [none_] at perm; exact perm.eq_nil)
    obtain ⟨⟨a, ha, hea⟩, mosta⟩ := @derivedDuration_spec rt _ nonempty
    obtain ⟨⟨b, hb, heb⟩, mostb⟩ := @derivedDuration_spec rt _ nonempty'
    refine le_antisymm ?_ ?_
    · rw [heb]
      exact mosta b (perm.mem_iff.2 hb)
    · rw [hea]
      exact mostb a (perm.mem_iff.1 ha)

namespace InputTrace.Reordered

variable (h : trace.Reordered trace')

include h

theorem duration : trace'.duration rt = trace.duration rt := by
  unfold InputTrace.duration
  rw [h.durationMs, derivedDuration_perm h.spans]

/-- The checks of a candidate do not depend on the order of its spans. -/
theorem wellFormed (ok : trace.WellFormed rt root) : trace'.WellFormed rt root := by
  have links : (workerLinks trace.spans).Perm (workerLinks trace'.spans) := h.spans.map _
  have distinct : ((workerLinks trace.spans).map Prod.fst).Nodup := by
    rw [map_fst_workerLinks]
    exact ok.distinct
  have same : entry (workerLinks trace'.spans) = entry (workerLinks trace.spans) := entry_perm links distinct
  refine ⟨(h.spans.map _).nodup_iff.1 ok.distinct, ?_, fun span hspan p hp => ?_, ?_, fun span hspan => ?_⟩
  · have perm := h.spans.filter fun span => decide (span.parentSpanId = none)
    rw [ok.oneRoot] at perm
    exact List.perm_singleton.1 perm.symm
  · exact (h.spans.map _).mem_iff.1 (ok.parents span (h.spans.mem_iff.2 hspan) p hp)
  · have noCycle := ok.noCycle
    unfold hasCycle at noCycle ⊢
    rw [same, ← h.spans.length_eq, ← h.spans.any_eq]
    exact noCycle
  · rw [h.duration]
    exact ok.inTime span (h.spans.mem_iff.2 hspan)

/-- What becomes of a trace, with its spans in another order. -/
theorem candidate {spans : List WorkerSpan}
    (filtered : normalizeSpans rt.toInterpreter trace.spans = .ok spans) :
    ∃ spans', normalizeSpans rt.toInterpreter trace'.spans = .ok spans' ∧
      (trace.candidate rt root spans).Reordered (trace'.candidate rt root spans') := by
  have accepted : ∀ {spans filtered : List WorkerSpan}, normalizeSpans rt.toInterpreter spans = .ok filtered ↔
      List.Forall₂ (fun span span' => ∃ attributes, span' = { span with attributes } ∧
        span.filter rt.toInterpreter = .ok attributes)
        spans filtered := by
    intro spans filtered
    refine ⟨normalizeSpans_each, fun each => ?_⟩
    induction each with
    | nil => rfl
    | cons head _ ih =>
      obtain ⟨attributes, rfl, safe⟩ := head
      unfold WorkerSpan.filter at safe
      rw [normalizeSpans, safe, ih]
      rfl
  obtain ⟨spans', each, perm⟩ := List.perm_comp_forall₂ h.spans.symm (accepted.1 filtered)
  exact ⟨spans', accepted.2 each, h.traceId, h.startedAt, h.score, h.duration, rfl, perm.symm⟩

end InputTrace.Reordered

end Traces

end SreAgent.Trace
