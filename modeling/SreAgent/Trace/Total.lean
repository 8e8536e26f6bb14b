import SreAgent.Trace.Raises

/-!
# When reading a stored trace is total

`parse_trace_waterfall` should return for every stored value, and return nothing for spans that
are no tree. `parse_total_iff` says for which values it does: those whose fields no validator
raises for (`WaterfallReads`), and whose spans the tree check can walk (`WalkReads`), that is,
where the first listed span that does not reach the root fails the check of its own parent or
comes round, and does not run into an ancestor whose parent is missing.
-/

namespace SreAgent.Trace
open Base JsonParse ParentChain

/-! ## Fields -/

/-- No validator of a span raises. -/
structure SpanReads (i : Interpreter) (d : JsonObject) : Prop where
  startOffset : NumberReads (JsonObject.get? d "startOffsetMs")
  duration : NumberReads (JsonObject.get? d "durationMs")
  address : ∀ items attributes serviceName operationName, JsonObject.get? d "attributes" = some (.obj items) →
    scalars items = some attributes → (∀ key ∈ JsonObject.keys attributes, key ∈ allowedAttributes) →
    StoredTraceSpan.serviceField i d = .valid serviceName →
      StoredTraceSpan.operationField i d = .valid operationName →
    ¬ AddressTooDeep i attributes

/-- A start that is read without raising: missing, or a string whose instant in UTC has a date. -/
def StartReads (rt : Runtime) : Option Json → Prop
  | none => True
  | some (.str s) => ∀ dt offset, rt.readDatetime (.str s) = some dt → dt.offset = some offset →
      0 ≤ dt.clock - offset ∧ dt.clock - offset < 315537897600000000
  | some _ => False

/-- The walks of `has_valid_tree` look up known spans only. -/
def WalkReads (w : StoredTraceWaterfall) : Prop :=
  ∀ before span after, w.spans = before ++ span :: after → (∀ s ∈ before, EndsAtRoot w.parentOf s.spanId) →
    (∀ parent, span.parentSpanId = some parent → w.parentOf parent ≠ none) → ¬ Dangles w.parentOf span.spanId

/-- No validator of a waterfall raises, and neither does the tree check. -/
structure WaterfallReads (rt : Runtime) (d : JsonObject) : Prop where
  startedAt : StartReads rt (JsonObject.get? d "startedAt")
  duration : NumberReads (JsonObject.get? d "durationMs")
  score : NumberReads (JsonObject.get? d "representativeScore")
  spans : ∀ items, JsonObject.get? d "spans" = some (.arr items) → ∀ s, .obj s ∈ items.take 101 →
    SpanReads rt.toInterpreter s
  walk : ∀ w, StoredTraceWaterfall.validate rt d = .valid w → (w.spans.map StoredTraceSpan.spanId).Nodup →
    w.passesGate rt = true → WalkReads w

section Fields

variable {rt : Runtime} {d : JsonObject}

theorem keys_scalars {items : JsonObject} {attributes : Attributes} (h : scalars items = some attributes) :
    JsonObject.keys attributes = JsonObject.keys items := by
  induction items generalizing attributes with
  | nil =>
    cases h
    rfl
  | cons item rest ih =>
    obtain ⟨key, value⟩ := item
    simp only [scalars, List.mapM_cons, Option.bind_eq_bind, Option.bind_eq_some_iff, Option.map_eq_some_iff,
      Option.pure_def] at h
    obtain ⟨_, ⟨v, -, rfl⟩, attributes', h', hcons⟩ := h
    cases hcons
    simp only [JsonObject.keys, List.map_cons] at ih ⊢
    rw [ih h']

/-- The attributes of a span raise for a server address that nests too deeply. -/
theorem attributesField_raises (distinct : (Json.obj d).Distinct) :
    (StoredTraceSpan.attributesField rt.toInterpreter d).Raises ↔
      ¬ ∀ items attributes serviceName operationName, JsonObject.get? d "attributes" = some (.obj items) →
        scalars items = some attributes → (∀ key ∈ JsonObject.keys attributes, key ∈ allowedAttributes) →
        StoredTraceSpan.serviceField rt.toInterpreter d = .valid serviceName →
        StoredTraceSpan.operationField rt.toInterpreter d = .valid operationName →
        ¬ AddressTooDeep rt.toInterpreter attributes := by
  have quiet : ∀ {x : Outcome PyError Attributes} {P : Prop}, ¬ x.Raises → P → (x.Raises ↔ ¬ P) :=
    fun hx hP => iff_of_false hx (not_not.2 hP)
  unfold StoredTraceSpan.attributesField
  split
  · next items hitems =>
    have items_distinct : (JsonObject.keys items).Nodup := by
      have := distinct.field hitems
      rw [Json.Distinct] at this
      exact this.1
    split
    · next hscalars =>
      refine quiet (by simp) fun items' attributes _ _ hitems' hscalars' => ?_
      cases hitems.symm.trans hitems'
      cases hscalars.symm.trans hscalars'
    · next attributes hscalars =>
      split
      · next foreign =>
        refine quiet (by simp) fun items' attributes' _ _ hitems' hscalars' allowed => ?_
        cases hitems.symm.trans hitems'
        cases hscalars.symm.trans hscalars'
        obtain ⟨item, hitem, hkey⟩ := List.any_eq_true.1 foreign
        exact absurd (allowed item.1 (List.mem_map_of_mem hitem)) (by simpa using hkey)
      · next allowed =>
        split
        · next service operation hservice hoperation =>
          rw [safeAttributes_raises rt service operation (keys_scalars hscalars ▸ items_distinct)]
          constructor
          · intro deep reads
            refine reads items attributes service operation hitems hscalars (fun key hkey => ?_) hservice
              hoperation deep
            obtain ⟨item, hitem, rfl⟩ := List.mem_map.1 hkey
            by_contra foreign
            exact allowed (List.any_eq_true.2 ⟨item, hitem, by simpa using foreign⟩)
          · intro h
            by_contra shallow
            refine h fun items' attributes' _ _ hitems' hscalars' _ _ _ => ?_
            cases hitems.symm.trans hitems'
            cases hscalars.symm.trans hscalars'
            exact shallow
        · next names =>
          refine quiet (by simp) fun _ _ service operation _ _ _ hservice hoperation => ?_
          exact absurd hoperation (names service operation hservice)
  · next other =>
    exact quiet (by simp) fun items _ _ _ hitems => absurd hitems (other items)

/-- A span raises exactly if a number of it cannot be read. -/
theorem validate_span_raises (distinct : (Json.obj d).Distinct) :
    (StoredTraceSpan.validate rt.toInterpreter (.obj d)).Raises ↔ ¬ SpanReads rt.toInterpreter d := by
  have service : ¬ (StoredTraceSpan.serviceField rt.toInterpreter d).Raises :=
    nonEmpty_andThen_total (safeServiceName_total rt) _
  have operation : ¬ (StoredTraceSpan.operationField rt.toInterpreter d).Raises :=
    nonEmpty_andThen_total (safeOperationName_total rt) _
  simp only [StoredTraceSpan.validate, Outcome.raises_map, Outcome.raises_both, number_raises,
    nonEmpty_andThen_total (safeIdentifier_total rt), parentField_total rt, service, operation, literal_total,
    strictBool_total, noExtra_total, false_or, or_false, attributesField_raises distinct]
  constructor
  · rintro (h | h | h) reads
    · exact h reads.startOffset
    · exact h reads.duration
    · exact h reads.address
  · intro h
    by_contra all
    simp only [not_or, not_not] at all
    exact h ⟨all.1, all.2.1, all.2.2⟩

/-- A start raises exactly if it cannot be read. -/
theorem startedAtField_raises (v : Option Json) :
    (StoredTraceWaterfall.startedAtField rt v).Raises ↔ ¬ StartReads rt v := by
  match v with
  | none | some .null | some (.bool _) | some (.int _) | some (.float _) | some (.arr _) | some (.obj _) =>
    simp [StoredTraceWaterfall.startedAtField, StartReads]
  | some (.str s) =>
    simp only [StoredTraceWaterfall.startedAtField, StartReads]
    split
    · next hread => simp [hread]
    · next dt hread =>
      split
      · next hoffset => simp [hread, hoffset]
      · next offset hoffset =>
        split
        · next range => simpa [hread, hoffset] using range
        · next range => simpa [hread, hoffset] using range

theorem spansField_raises {v : Option Json} (distinct : ∀ j, v = some j → j.Distinct) :
    (StoredTraceWaterfall.spansField rt.toInterpreter v).Raises ↔
      ¬ ∀ items, v = some (.arr items) → ∀ s, .obj s ∈ items.take 101 → SpanReads rt.toInterpreter s := by
  match v with
  | none | some .null | some (.bool _) | some (.int _) | some (.float _) | some (.str _) | some (.obj _) =>
    simp [StoredTraceWaterfall.spansField]
  | some (.arr items) =>
    simp only [StoredTraceWaterfall.spansField, Outcome.raises_list, Option.some.injEq, Json.arr.injEq,
      forall_eq', not_forall]
    have items_distinct : Json.DistinctItems items := by simpa [Json.Distinct] using distinct _ rfl
    constructor
    · rintro ⟨item, hitem, raises⟩
      match item with
      | .obj s =>
        have := (validate_span_raises (items_distinct.of_mem (List.mem_of_mem_take hitem))).1 raises
        exact ⟨s, hitem, this⟩
      | .null | .bool _ | .int _ | .float _ | .str _ | .arr _ => simp [StoredTraceSpan.validate] at raises
    · rintro ⟨s, hs, reads⟩
      exact ⟨.obj s, hs, (validate_span_raises (items_distinct.of_mem (List.mem_of_mem_take hs))).2 reads⟩

/-- A document raises exactly if one of its parts cannot be read. -/
theorem validate_raises (distinct : (Json.obj d).Distinct) :
    (StoredTraceWaterfall.validate rt d).Raises ↔
      ¬ (StartReads rt (JsonObject.get? d "startedAt") ∧ NumberReads (JsonObject.get? d "durationMs") ∧
        NumberReads (JsonObject.get? d "representativeScore") ∧
        ∀ items, JsonObject.get? d "spans" = some (.arr items) → ∀ s, .obj s ∈ items.take 101 →
          SpanReads rt.toInterpreter s) := by
  have version : ∀ v, ¬ (StoredTraceWaterfall.schemaVersionField v).Raises := by
    intro v
    cases v <;> simp [StoredTraceWaterfall.schemaVersionField]
  simp only [StoredTraceWaterfall.validate, Outcome.raises_map, Outcome.raises_both, number_raises, version,
    nonEmpty_andThen_total (safeIdentifier_total rt), nonEmpty_andThen_total (safeServiceName_total rt),
    nonEmpty_andThen_total (safeOperationName_total rt), startedAtField_raises, positiveInt_total,
    strictBool_total,
    noExtra_total, spansField_raises (fun j hj => distinct.field hj), false_or, or_false]
  simp only [not_and_or]

end Fields

/-! ## The tree check -/

section Tree

variable {rt : Runtime} {w : StoredTraceWaterfall}

theorem map_fst_links (w : StoredTraceWaterfall) :
    w.links.map Prod.fst = w.spans.map StoredTraceSpan.spanId := by
  simp [StoredTraceWaterfall.links]

theorem parentOf_known (w : StoredTraceWaterfall) (id : String) (h : w.parentOf id ≠ none) :
    id ∈ w.spans.map StoredTraceSpan.spanId := map_fst_links w ▸ entry_known w.links id h

theorem parentOf_span (distinct : (w.spans.map StoredTraceSpan.spanId).Nodup) {span : StoredTraceSpan}
    (h : span ∈ w.spans) : w.parentOf span.spanId = some span.parentSpanId :=
  have listed : (span.spanId, span.parentSpanId) ∈ w.links := List.mem_map.2 ⟨span, h, rfl⟩
  entry_of_mem (by rw [map_fst_links]; exact distinct) listed

/-- The walks of the tree check, span by span: all reach the root, or the first that does not decides. -/
theorem walkSpans_cases (distinct : (w.spans.map StoredTraceSpan.spanId).Nodup) {spans : List StoredTraceSpan}
    (within : ∀ span ∈ spans, span ∈ w.spans) :
    w.walkSpans spans = .ok true ∧ (∀ span ∈ spans, EndsAtRoot w.parentOf span.spanId) ∨
    ∃ before span after, spans = before ++ span :: after ∧ (∀ s ∈ before, EndsAtRoot w.parentOf s.spanId) ∧
      ¬ EndsAtRoot w.parentOf span.spanId ∧
      (w.walkSpans spans = .error .keyError ∧
          (∀ parent, span.parentSpanId = some parent → w.parentOf parent ≠ none) ∧
            Dangles w.parentOf span.spanId ∨
        w.walkSpans spans = .ok false ∧
          ¬ ((∀ parent, span.parentSpanId = some parent → w.parentOf parent ≠ none) ∧
            Dangles w.parentOf span.spanId)) := by
  induction spans with
  | nil => exact .inl ⟨rfl, by simp⟩
  | cons span rest ih =>
    have here := parentOf_span distinct (within span List.mem_cons_self)
    rw [StoredTraceWaterfall.walkSpans]
    split
    · next orphan =>
      obtain ⟨parent, hparent, unknown⟩ : ∃ parent, span.parentSpanId = some parent ∧
          w.parentOf parent = none := by
        simpa [Option.any_eq_true] using orphan
      refine .inr ⟨[], span, rest, rfl,
        by simp, fun ends => ?_, .inr ⟨rfl, fun both => both.1 parent hparent unknown⟩⟩
      have up : Up w.parentOf span.spanId parent := here.trans (by rw [hparent])
      exact (ends.up (by simp) up).not_dangles (.here unknown)
    · next known =>
      have listed : ∀ parent, span.parentSpanId = some parent → w.parentOf parent ≠ none := by
        intro parent hparent unknown
        exact known (by simp [hparent, unknown])
      have cases_ := walk_cases (parentOf_known w) span.spanId
      rw [List.length_map] at cases_
      rcases cases_ with ⟨h, ends⟩ | ⟨h, dangles⟩ | ⟨h, x, up, round⟩ <;> rw [h]
      · dsimp only
        rcases ih fun s hs => within s (List.mem_cons_of_mem _ hs) with ⟨hwalk, all⟩ |
          ⟨before, s, after, hsplit, all, rest⟩
        · refine .inl ⟨hwalk, fun s hs => ?_⟩
          rcases List.mem_cons.1 hs with rfl | hs
          · exact ends
          · exact all s hs
        · refine .inr ⟨span :: before, s, after, by rw [hsplit]; rfl, fun t ht => ?_, rest⟩
          rcases List.mem_cons.1 ht with rfl | ht
          · exact ends
          · exact all t ht
      · exact .inr ⟨[], span, rest, rfl,
          by simp, fun ends => ends.not_dangles dangles, .inl ⟨rfl, listed, dangles⟩⟩
      · refine .inr ⟨[], span, rest, rfl, by simp, fun ends => ?_, .inr ⟨rfl, fun both => ?_⟩⟩
        · exact (ends.ancestor (by simp) up).no_round (by simp) round
        · exact (both.2.ancestor (by simp) up).no_round (by simp) round

/-- The first element without a property is unique. -/
theorem first_without {α : Type} {P : α → Prop} {before before' after after' : List α} {x x' : α}
    (h : before ++ x :: after = before' ++ x' :: after') (all : ∀ a ∈ before, P a) (all' : ∀ a ∈ before', P a)
    (hx : ¬ P x) (hx' : ¬ P x') : x = x' := by
  rcases List.append_eq_append_iff.1 h with ⟨l, hbefore, htail⟩ | ⟨l, hbefore, htail⟩
  · cases l with
    | nil =>
      simp only [List.nil_append, List.cons.injEq] at htail
      exact htail.1
    | cons y l =>
      simp only [List.cons_append, List.cons.injEq] at htail
      exact absurd (all' x (by rw [hbefore, htail.1]; simp)) hx
  · cases l with
    | nil =>
      simp only [List.nil_append, List.cons.injEq] at htail
      exact htail.1.symm
    | cons y l =>
      simp only [List.cons_append, List.cons.injEq] at htail
      exact absurd (all x' (by rw [hbefore, htail.1]; simp)) hx'

/-- The first span that does not reach the root is the only one that matters. -/
theorem walkReads_iff (distinct : (w.spans.map StoredTraceSpan.spanId).Nodup) :
    WalkReads w ↔ w.walkSpans w.spans ≠ .error .keyError := by
  rcases walkSpans_cases distinct (fun span h => h) with ⟨h, all⟩ |
    ⟨before, span, after, hsplit, all, stuck, h⟩
  · refine iff_of_true (fun before span after hsplit _ _ dangles => ?_) (by rw [h]; simp)
    exact (all span (hsplit ▸ by simp)).not_dangles dangles
  · rcases h with ⟨h, listed, dangles⟩ | ⟨h, other⟩
    · exact iff_of_false (fun reads => reads before span after hsplit all listed dangles) (by rw [h]; simp)
    · refine iff_of_true (fun before' span' after' hsplit' all' listed' dangles' => ?_) (by rw [h]; simp)
      have same :=
        first_without (hsplit.symm.trans hsplit') all all' stuck fun ends => ends.not_dangles dangles'
      subst same
      exact other ⟨listed', dangles'⟩

/-- Spans that pass the tree check are one tree. -/
theorem isTree_of_valid (valid : w.hasValidTree rt = .ok true) : IsTree w.links := by
  unfold StoredTraceWaterfall.hasValidTree at valid
  split at valid
  · cases valid
  · next distinct =>
    split at valid
    · cases valid
    · next gate =>
      simp only [not_not] at distinct
      have oneRoot : (w.links.filter fun link => link.2 = none).length = 1 := by
        have roots : (w.links.filter fun link => link.2 = none).length =
            (w.spans.filter fun span => span.parentSpanId = none).length := by
          simp [StoredTraceWaterfall.links, List.filter_map, Function.comp_def]
        rw [roots]
        simp only [StoredTraceWaterfall.passesGate] at gate
        split at gate
        · next root hroot => rw [hroot]; rfl
        · simp at gate
      rw [isTree_iff (by rw [map_fst_links]; exact distinct) oneRoot]
      rcases walkSpans_cases distinct (fun span h => h) with ⟨-, all⟩ | ⟨_, _, _, _, _, _, ⟨h, -⟩ | ⟨h, -⟩⟩
      · intro link hlink
        obtain ⟨span, hspan, rfl⟩ := List.mem_map.1 hlink
        exact all span hspan
      · cases h.symm.trans valid
      · cases h.symm.trans valid

/-- The tree check raises for a walk into an unknown span only. -/
theorem hasValidTree_total : (∃ b, w.hasValidTree rt = .ok b) ↔
    ((w.spans.map StoredTraceSpan.spanId).Nodup → w.passesGate rt = true → WalkReads w) := by
  unfold StoredTraceWaterfall.hasValidTree
  split
  · next twice => exact iff_of_true ⟨_, rfl⟩ fun distinct => absurd distinct twice
  · next distinct =>
    simp only [not_not] at distinct
    split
    · next gate => exact iff_of_true ⟨_, rfl⟩ fun _ passes => by simp [passes] at gate
    · next gate =>
      have passes : w.passesGate rt = true := by simpa using gate
      simp only [distinct, passes, forall_const, walkReads_iff distinct]
      rcases walkSpans_cases distinct (fun span h => h) with ⟨h, -⟩ |
        ⟨_, _, _, _, _, _, ⟨h, -⟩ | ⟨h, -⟩⟩ <;> simp [h]

end Tree

/-! ## Totality -/

/-- The id and the parent of a stored span, where it has these. -/
def rawLink : Json → Option (String × Option String)
  | .obj span =>
    match JsonObject.get? span "spanId", JsonObject.get? span "parentSpanId" with
    | some (.str id), some .null => some (id, none)
    | some (.str id), some (.str parent) => some (id, some parent)
    | _, _ => none
  | _ => none

/-- The ids and parents of the spans of a stored value. -/
def rawLinks : Json → Option (List (String × Option String))
  | .obj d =>
    match JsonObject.get? d "spans" with
    | some (.arr items) => items.mapM rawLink
    | _ => none
  | _ => none

/-- Reading returns, and returns nothing for spans that are no tree. -/
def Total (rt : Runtime) (v : Json) : Prop :=
  ∃ result, parseTraceWaterfall rt v = .ok result ∧ ∀ links, rawLinks v = some links → ¬ IsTree links →
    result = none

section Totality

variable {rt : Runtime} {d : JsonObject} {w : StoredTraceWaterfall}

/-- A span that is accepted has the link of its item. -/
theorem rawLink_of_valid {i : Interpreter} {item : Json} {span : StoredTraceSpan}
    (h : StoredTraceSpan.validate i item = .valid span) :
    rawLink item = some (span.spanId, span.parentSpanId) := by
  obtain ⟨d, rfl, read⟩ := StoredTraceSpan.validate_eq_valid.1 h
  have id := (textField_eq_valid.1 read.spanId).1
  rcases parentField_eq_valid.1 read.parentSpanId with ⟨parent, hnone⟩ | ⟨s, parent, hsome, -⟩
  · simp [rawLink, id, parent, hnone]
  · simp [rawLink, id, parent, hsome]

/-- A validated waterfall lists the ids and parents of the stored spans. -/
theorem rawLinks_of_valid (h : StoredTraceWaterfall.validate rt d = .valid w) :
    rawLinks (.obj d) = some w.links := by
  obtain ⟨items, hitems, -, spans⟩ :=
    StoredTraceWaterfall.spansField_eq_valid.1 (StoredTraceWaterfall.validate_eq_valid.1 h).spans
  simp only [rawLinks, hitems, StoredTraceWaterfall.links]
  clear hitems
  generalize w.spans = listed at spans
  induction spans with
  | nil => rfl
  | cons head _ ih => simp [List.mapM_cons, rawLink_of_valid head, ih]

/-- Reading a stored value is total exactly where no validator and no walk raises. -/
theorem parse_total_iff (rt : Runtime) (v : Json) (distinct : v.Distinct) :
    Total rt v ↔ ∀ d, v = .obj d → WaterfallReads rt d := by
  match v with
  | .null | .bool _ | .int _ | .float _ | .str _ | .arr _ =>
    exact iff_of_true ⟨none, rfl, fun _ _ _ => rfl⟩ nofun
  | .obj d =>
    have raises := @validate_raises rt _ distinct
    simp only [Json.obj.injEq, forall_eq']
    unfold Total
    cases h : StoredTraceWaterfall.validate rt d with
    | raised e =>
      simp only [parseTraceWaterfall, h]
      refine iff_of_false (by rintro ⟨_, ⟨⟩, _⟩) fun reads => ?_
      exact raises.1 ⟨e, h⟩ ⟨reads.startedAt, reads.duration, reads.score, reads.spans⟩
    | invalid =>
      simp only [parseTraceWaterfall, h]
      have fields := not_not.1 fun hn => Outcome.raises_invalid (h ▸ raises.2 hn)
      exact iff_of_true ⟨none, rfl, fun _ _ _ => rfl⟩ ⟨fields.1, fields.2.1, fields.2.2.1, fields.2.2.2,
        fun w hw => by cases h.symm.trans hw⟩
    | valid w =>
      have fields := not_not.1 fun hn => Outcome.raises_valid w (h ▸ raises.2 hn)
      have walk : WaterfallReads rt d ↔ ∃ b, w.hasValidTree rt = .ok b := by
        rw [hasValidTree_total]
        constructor
        · exact fun reads => reads.walk w h
        · intro walk
          refine ⟨fields.1, fields.2.1, fields.2.2.1, fields.2.2.2, fun w' hw' => ?_⟩
          cases h.symm.trans hw'
          exact walk
      rw [walk]
      simp only [parseTraceWaterfall, h]
      cases hb : w.hasValidTree rt with
      | error e => simp [bind, Except.bind]
      | ok b =>
        refine iff_of_true ?_ ⟨b, rfl⟩
        cases b with
        | false => exact ⟨none, rfl, fun _ _ _ => rfl⟩
        | true =>
          refine ⟨some w, rfl, fun links hlinks noTree => ?_⟩
          cases (rawLinks_of_valid h).symm.trans hlinks
          exact absurd (isTree_of_valid hb) noTree

/-- An interpreter with the usual limits that knows one instant. -/
def oneInstant : Runtime where
  maxDigits := 4300
  maxDepth := 1000
  readFloat _ := .nan
  digits_le := by decide
  depth_le := by decide
  round := .finite
  round_nonneg q h := .inr ⟨q, h, rfl⟩
  readDatetime
    | .str s => if s = "2026-08-23T01:02:03Z" then some ⟨63923043723000000, some 0, by decide⟩ else none
    | _ => none
  frames := 1000

/-- A stored span of one millisecond. -/
def storedSpan (id : String) (parent : Json) : Json :=
  .obj [("spanId", .str id), ("parentSpanId", parent), ("serviceName", .str "api"),
    ("operationName", .str "GET /a"),
    ("startOffsetMs", .int 0), ("durationMs", .int 1), ("status", .str "OK"), ("kind", .str "SERVER"),
    ("criticalPath", .bool false), ("attributes", .obj [])]

/-- A stored trace of three spans. -/
def storedTrace (a b c : Json) : JsonObject :=
  [("schemaVersion", .int 1), ("traceId", .str "t"), ("rootServiceName", .str "api"),
    ("rootOperationName", .str "GET /a"),
    ("startedAt", .str "2026-08-23T01:02:03Z"), ("durationMs", .int 1), ("spanCount", .int 3),
    ("representativeScore", .int 0), ("truncated", .bool false), ("spans", .arr [a, b, c])]

/-- The span `c` hangs on `b`, whose parent is not stored. -/
def danglingFirst : Json :=
  .obj (storedTrace (storedSpan "a" .null) (storedSpan "c" (.str "b")) (storedSpan "b" (.str "x")))

/-- The same spans, the one without a stored parent listed before its child. -/
def orphanFirst : Json :=
  .obj (storedTrace (storedSpan "a" .null) (storedSpan "b" (.str "x")) (storedSpan "c" (.str "b")))

/-- The walk of `c` looks up the missing span before the check of `b` is reached. -/
theorem dangling_first_raises : danglingFirst.Distinct ∧ ¬ Total oneInstant danglingFirst := by
  have distinct : danglingFirst.Distinct := by
    simp only [danglingFirst, storedTrace, storedSpan, Json.Distinct, Json.DistinctFields, Json.DistinctItems,
      JsonObject.keys]
    decide
  have raised : parseTraceWaterfall oneInstant danglingFirst = .error .keyError := by decide +kernel
  refine ⟨distinct, ?_⟩
  rintro ⟨result, h, -⟩
  cases raised.symm.trans h

/-- In the other order nothing is returned, and nothing raises. -/
theorem orphan_first_reads : orphanFirst.Distinct ∧ ∀ d, orphanFirst = .obj d →
      WaterfallReads oneInstant d := by
  have distinct : orphanFirst.Distinct := by
    simp only [orphanFirst, storedTrace, storedSpan, Json.Distinct, Json.DistinctFields, Json.DistinctItems,
      JsonObject.keys]
    decide
  have returned : parseTraceWaterfall oneInstant orphanFirst = .ok none := by decide +kernel
  exact ⟨distinct, (parse_total_iff oneInstant orphanFirst distinct).1 ⟨none, returned, fun _ _ _ => rfl⟩⟩

end Totality

end SreAgent.Trace
