import SreAgent.Base.Slices
import SreAgent.Rca.ToolSpecs

/-!
# Chunks are an exact prefix

The chunks of a record are the slices of its canonical text, cut off at the budget. They are built where
`json.dumps` stays within its limits and where no surrogate stands within the budget, since a chunk
refuses one. A receipt shows the first chunk of each record, and says whether the text of one was cut off.
-/

namespace SreAgent.Rca
open Base Procedure Slices EvidenceToolSession

/-- `json.dumps(..., ensure_ascii=False, sort_keys=True, separators=(",", ":"))`. -/
def canonicalJson (floatText : FloatVal → String) (structured : PyJson) : List CodePoint :=
  JsonText.canonical floatText structured

/-- What is left of a text within the budget. -/
def boundedText (canonical : List CodePoint) (maxTotalChars : Nat) : List CodePoint :=
  canonical.take maxTotalChars

/-- The code points of a chunk. -/
def EvidenceChunk.codes (chunk : EvidenceChunk) : List CodePoint := (PyStr.ofString chunk.content).codes

/-- The chunks of a text: its slices, in order and numbered, with whether the budget has cut it. -/
structure ExactPrefix (canonical : List CodePoint) (reference : EvidenceReference)
    (chunkChars maxChunks maxTotalChars : Nat) (chunks : List EvidenceChunk) : Prop where
  nonempty : chunks ≠ []
  contents : chunks.flatMap EvidenceChunk.codes = canonical.take maxTotalChars
  full : ∀ chunk ∈ chunks.dropLast, chunk.content.length = chunkChars
  filled : ∀ chunk ∈ chunks, chunk.content ≠ ""
  counted : ∀ chunk ∈ chunks, chunk.chunkCount = chunks.length
  most : chunks.length ≤ maxChunks
  indices : chunks.map EvidenceChunk.chunkIndex = List.range chunks.length
  truncated : ∀ chunk ∈ chunks, chunk.truncated = true ↔ canonical.take maxTotalChars ≠ canonical
  references : ∀ chunk ∈ chunks, chunk.reference = reference

/-- `json.dumps` stays within its limits, and no surrogate stands within the budget. -/
def Chunkable (i : JsonParse.Interpreter) (floatText : FloatVal → String) (structured : PyJson)
    (maxTotalChars : Nat) : Prop :=
  JsonParse.writes i i.maxDepth structured = true ∧
    ∀ p ∈ (canonicalJson floatText structured).take maxTotalChars, p.char?.isSome = true

section Chunks

variable {i : JsonParse.Interpreter} {floatText : FloatVal → String} {structured : PyJson}
  {reference : EvidenceReference}
  {chunkChars maxChunks maxTotalChars : Nat}

theorem canonicalJson_ne_nil (h : Structured structured) : canonicalJson floatText structured ≠ [] := by
  unfold canonicalJson
  cases structured with
  | arr items =>
    rw [JsonText.canonical]
    exact List.cons_ne_nil _ _
  | obj items =>
    rw [JsonText.canonical]
    exact List.cons_ne_nil _ _
  | null | bool | int | float | str => exact h.elim

/-- The number of chunks. -/
def chunkCountOf (canonical : List CodePoint) (chunkChars maxTotalChars : Nat) : Nat :=
  slices chunkChars (boundedText canonical maxTotalChars).length

/-- One chunk, of the index it has. -/
def chunkOf (canonical : List CodePoint) (reference : EvidenceReference)
    (chunkChars maxTotalChars index : Nat) : Option EvidenceChunk :=
  EvidenceChunk.validate reference index (chunkCountOf canonical chunkChars maxTotalChars)
    ⟨slice chunkChars (boundedText canonical maxTotalChars) index⟩ (decide (maxTotalChars < canonical.length))

/-- Chunks are built exactly if the document can be written and every slice is a chunk. -/
theorem buildEvidenceChunks_eq_some {chunks : List EvidenceChunk}
    (limits : ValidLimits chunkChars maxChunks maxTotalChars) :
    buildEvidenceChunks i floatText reference structured chunkChars maxChunks maxTotalChars = some chunks ↔
      JsonParse.writes i i.maxDepth structured = true ∧
        (List.range (chunkCountOf (canonicalJson floatText structured) chunkChars maxTotalChars)).mapM
          (chunkOf (canonicalJson floatText structured) reference chunkChars maxTotalChars) =
            some chunks := by
  unfold buildEvidenceChunks
  rw [if_pos limits]
  exact Option.ite_none_right_eq_some

theorem EvidenceChunk.length_codes (chunk : EvidenceChunk) : chunk.codes.length = chunk.content.length := by
  rw [EvidenceChunk.codes, PyStr.ofString, List.length_map, String.length_toList]

/-- No surrogate stands in a chunk. -/
theorem EvidenceChunk.scalar {chunk : EvidenceChunk} {p : CodePoint} (h : p ∈ chunk.codes) :
    p.char?.isSome = true := by
  obtain ⟨c, -, rfl⟩ := List.mem_map.1 h
  rw [CodePoint.char?_ofChar]
  rfl

section Text

variable {canonical : List CodePoint} {chunks : List EvidenceChunk} {index : Nat}

/-- No more chunks than the limit are built. -/
theorem chunkCountOf_le (limits : ValidLimits chunkChars maxChunks maxTotalChars) :
    chunkCountOf canonical chunkChars maxTotalChars ≤ maxChunks := by
  obtain ⟨⟨positive, -⟩, -, -, fits⟩ := limits
  exact slices_le positive (Nat.le_trans (List.length_take_le _ _) fits)

/-- Within the budgets no chunk violates its own limits, where no surrogate stands in it. -/
theorem chunkOf_isSome (limits : ValidLimits chunkChars maxChunks maxTotalChars)
    (scalar : ∀ p ∈ canonical.take maxTotalChars, p.char?.isSome = true)
    (h : index < chunkCountOf canonical chunkChars maxTotalChars) :
    ∃ chunk, chunkOf canonical reference chunkChars maxTotalChars index = some chunk := by
  have most := @chunkCountOf_le chunkChars maxChunks maxTotalChars canonical limits
  obtain ⟨⟨-, chars⟩, ⟨-, four⟩, -⟩ := limits
  obtain ⟨text, read⟩ :=
    PyStr.exists_text? (s := ⟨slice chunkChars (boundedText canonical maxTotalChars) index⟩) fun p mem =>
    scalar p (List.mem_of_mem_drop (List.mem_of_mem_take mem))
  have short : text.length ≤ 8000 := by
    have codes := congrArg List.length (PyStr.codes_of_text? read)
    rw [List.length_map, String.length_toList] at codes
    rw [← codes]
    exact Nat.le_trans length_slice_le chars
  have positive : 0 < chunkCountOf canonical chunkChars maxTotalChars := by omega
  rw [chunkOf, EvidenceChunk.validate, read]
  exact ⟨_, dif_pos ⟨⟨positive, by omega⟩, short⟩⟩

theorem map_chunks {β : Type} {read : EvidenceChunk → β} {g : Nat → β} {n : Nat}
    (built : (List.range n).mapM (chunkOf canonical reference chunkChars maxTotalChars) = some chunks)
    (h : ∀ index < n, ∀ chunk, chunkOf canonical reference chunkChars maxTotalChars index = some chunk →
      read chunk = g index) :
    chunks.map read = (List.range n).map g :=
  map_of_mapM (fun index mem chunk made => h index (List.mem_range.1 mem) chunk made) built

/-- The chunks of a text are an exact prefix of it. -/
theorem exactPrefix (limits : ValidLimits chunkChars maxChunks maxTotalChars) (filled : canonical ≠ [])
    (built : (List.range (chunkCountOf canonical chunkChars maxTotalChars)).mapM
      (chunkOf canonical reference chunkChars maxTotalChars) =
      some chunks) : ExactPrefix canonical reference chunkChars maxChunks maxTotalChars chunks := by
  have most := @chunkCountOf_le chunkChars maxChunks maxTotalChars canonical limits
  obtain ⟨⟨positive, -⟩, -, ⟨budget, -⟩, -⟩ := limits
  have contents : chunks.map EvidenceChunk.codes =
    (List.range (chunkCountOf canonical chunkChars maxTotalChars)).map
      (slice chunkChars (boundedText canonical maxTotalChars)) := map_chunks built fun index _ chunk made =>
    (PyStr.codes_of_text? (EvidenceChunk.of_validate made).2.2.2.1).symm
  have indices := map_chunks built fun index _ chunk made => (EvidenceChunk.of_validate made).2.1
  have length : chunks.length = chunkCountOf canonical chunkChars maxTotalChars := by
    simpa using congrArg List.length indices
  have some_text : boundedText canonical maxTotalChars ≠ [] := by
    rw [boundedText, Ne, List.take_eq_nil_iff]
    rintro (none | none)
    · omega
    · exact filled none
  have of_mem : ∀ chunk ∈ chunks, ∃ index, chunkOf canonical reference chunkChars maxTotalChars index =
      some chunk := by
    intro chunk mem
    obtain ⟨index, -, made⟩ := exists_of_forall₂ (mapM_eq_some.1 built) mem
    exact ⟨index, made⟩
  have slice_of : ∀ i (h : i < chunks.length),
      chunks[i].codes = slice chunkChars (boundedText canonical maxTotalChars) i := by
    intro i h
    have here := congrArg (fun l => l[i]?) contents
    simp only [List.getElem?_map, List.getElem?_range (length ▸ h), Option.map_some,
      List.getElem?_eq_getElem h, Option.some.injEq] at here
    exact here
  refine ⟨?_, ?_, ?_, ?_, ?_, ?_, ?_, ?_, ?_⟩
  · rw [← List.length_pos_iff, length]
    exact slices_pos positive some_text
  · rw [List.flatMap_def, contents, ← List.flatMap_def]
    exact flatten_slices positive
  · intro chunk mem
    obtain ⟨i, h, rfl⟩ := List.getElem_of_mem mem
    rw [List.length_dropLast] at h
    rw [List.getElem_dropLast, ← EvidenceChunk.length_codes, slice_of]
    exact length_slice positive (by change i + 1 < chunkCountOf canonical chunkChars maxTotalChars; omega)
  · rintro chunk mem empty
    obtain ⟨i, h, rfl⟩ := List.getElem_of_mem mem
    have text := slice_of i h
    rw [EvidenceChunk.codes, empty] at text
    exact slice_ne_nil positive (Nat.lt_of_lt_of_eq h length) text.symm
  · intro chunk mem
    obtain ⟨index, made⟩ := of_mem chunk mem
    rw [length, (EvidenceChunk.of_validate made).2.2.1]
  · rw [length]
    exact most
  · rw [indices, length]
    exact List.map_id' _
  · intro chunk mem
    obtain ⟨index, made⟩ := of_mem chunk mem
    rw [(EvidenceChunk.of_validate made).2.2.2.2, decide_eq_true_iff, Ne, List.take_eq_self_iff, Nat.not_le]
  · intro chunk mem
    obtain ⟨index, made⟩ := of_mem chunk mem
    exact (EvidenceChunk.of_validate made).1

end Text

/-- Within the budgets the chunks of an object or an array are built exactly if it is chunkable; they
are an exact prefix of its canonical text. -/
theorem buildEvidenceChunks_exact (limits : ValidLimits chunkChars maxChunks maxTotalChars)
    (h : Structured structured) :
    (∃ chunks, buildEvidenceChunks i floatText reference structured chunkChars maxChunks maxTotalChars =
      some chunks ∧
      ExactPrefix (canonicalJson floatText structured) reference chunkChars maxChunks maxTotalChars chunks) ↔
      Chunkable i floatText structured maxTotalChars := by
  constructor
  · rintro ⟨chunks, built, exact_⟩
    refine ⟨((buildEvidenceChunks_eq_some limits).1 built).1, fun p mem => ?_⟩
    rw [← exact_.contents] at mem
    obtain ⟨chunk, -, within⟩ := List.mem_flatMap.1 mem
    exact EvidenceChunk.scalar within
  · rintro ⟨written, scalar⟩
    have made : ∀ index ∈ List.range
      (chunkCountOf (canonicalJson floatText structured) chunkChars maxTotalChars),
        (chunkOf (canonicalJson floatText structured) reference chunkChars maxTotalChars index).isSome := by
      intro index mem
      obtain ⟨chunk, found⟩ :=
        @chunkOf_isSome reference chunkChars maxChunks maxTotalChars _ index limits scalar
          (List.mem_range.1 mem)
      rw [found]
      rfl
    obtain ⟨chunks, built⟩ := mapM_isSome made
    exact ⟨chunks, (buildEvidenceChunks_eq_some limits).2 ⟨written, built⟩,
      exactPrefix limits (canonicalJson_ne_nil h) built⟩

/-- A document of texts, as the database returns it, only has to be within the limits. -/
theorem chunkable_coded {v : Json} : Chunkable i floatText v.coded maxTotalChars ↔
      JsonParse.writes i i.maxDepth v.coded = true := by
  refine and_iff_left fun p mem => ?_
  rw [canonicalJson, JsonText.canonical_coded] at mem
  obtain ⟨c, -, rfl⟩ := List.mem_map.1 (List.mem_of_mem_take mem)
  rw [CodePoint.char?_ofChar]
  rfl

end Chunks

/-! ## Receipts -/

/-- The budget has cut the text of a record. -/
def LostContent (checks : Checks) (config : SessionConfig) (record : PersistedEvidence) : Prop :=
  (canonicalJson checks.floatText record.structuredData).take config.maxTotalChars ≠
    canonicalJson checks.floatText record.structuredData

section Receipt

variable {checks : Checks} {config : SessionConfig} {persisted : List PersistedEvidence}
  {allChunks : List (List EvidenceChunk)}
  {record : PersistedEvidence} {chunks : List EvidenceChunk}

/-- The document of a stored row is an object or an array. -/
theorem structured_of_persisted {row : EvidenceRecord} (h : persistedEvidence row = some record) :
    Structured record.structuredData := by
  unfold persistedEvidence at h
  split at h
  · next data =>
    cases h
    rw [data]
    trivial
  · next data =>
    cases h
    rw [data]
    trivial
  · cases h

/-- The chunks of a record hold an exact beginning of its canonical text. -/
theorem EvidenceToolSession.ChunksOf.exact (built : ChunksOf checks config record chunks)
    (h : Structured record.structuredData) :
    ExactPrefix (canonicalJson checks.floatText
      record.structuredData) record.reference config.chunkChars config.maxChunks
      config.maxTotalChars chunks :=
  exactPrefix config.limits (canonicalJson_ne_nil h) ((buildEvidenceChunks_eq_some config.limits).1 built).2

/-- The first chunk of a record. -/
theorem EvidenceToolSession.ChunksOf.first (built : ChunksOf checks config record chunks)
    (h : Structured record.structuredData) :
    ∃ chunk rest, chunks = chunk :: rest ∧ chunk.reference = record.reference ∧ chunk.chunkIndex = 0 := by
  have prefix_ := built.exact h
  cases chunks with
  | nil => exact absurd rfl prefix_.nonempty
  | cons chunk rest =>
    refine ⟨chunk, rest, rfl, prefix_.references chunk List.mem_cons_self, ?_⟩
    have indices := congrArg List.head? prefix_.indices
    rw [List.map_cons, List.head?_cons, List.length_cons, List.range_succ_eq_map, List.head?_cons] at indices
    exact Option.some.inj indices

/-- A chunk is marked as truncated exactly if content was lost. -/
theorem EvidenceToolSession.ChunksOf.cut (built : ChunksOf checks config record chunks)
    (h : Structured record.structuredData) :
    chunks.any EvidenceChunk.truncated = true ↔ LostContent checks config record := by
  have prefix_ := built.exact h
  rw [List.any_eq_true]
  constructor
  · rintro ⟨chunk, mem, truncated⟩
    exact (prefix_.truncated chunk mem).1 truncated
  · intro lost
    obtain ⟨chunk, mem⟩ := List.exists_mem_of_ne_nil chunks prefix_.nonempty
    exact ⟨chunk, mem, (prefix_.truncated chunk mem).2 lost⟩

/-- A receipt shows one first chunk for each of its references, and whether content was lost. -/
structure Faithful (checks : Checks) (config : SessionConfig) (persisted : List PersistedEvidence)
    (receipt : EvidenceReceipt) : Prop where
  references : receipt.references = persisted.map PersistedEvidence.reference
  firstChunks : receipt.firstChunks.map EvidenceChunk.reference = receipt.references
  first : ∀ chunk ∈ receipt.firstChunks, chunk.chunkIndex = 0
  truncated : receipt.truncated = true ↔ ∃ record ∈ persisted, LostContent checks config record

/-- A receipt over chunks that were built is faithful. -/
theorem receiptOf_faithful (structured : ∀ record ∈ persisted, Structured record.structuredData)
    (built : List.Forall₂ (fun record chunks => OwnedRecord config record ∧
        ChunksOf checks config record chunks) persisted allChunks) :
    Faithful checks config persisted (receiptOf config persisted allChunks) := by
  induction built with
  | nil => exact ⟨rfl, rfl, nofun, iff_of_false nofun nofun⟩
  | @cons record chunks persisted allChunks head _ ih =>
    have here := structured record List.mem_cons_self
    have rest := ih fun r mem => structured r (List.mem_cons_of_mem record mem)
    obtain ⟨chunk, others, rfl, reference, index⟩ := head.2.first here
    refine ⟨rfl, ?_, ?_, ?_⟩
    · exact congrArg₂ List.cons reference rest.firstChunks
    · intro c mem
      rcases List.mem_cons.1 mem with rfl | later
      · exact index
      · exact rest.first c later
    · have cut := head.2.cut here
      have later := rest.truncated
      simp only [receiptOf, List.any_cons, Bool.or_eq_true] at cut later ⊢
      rw [cut, later]
      simp only [List.mem_cons, exists_eq_or_imp]

end Receipt

/-- The chunks of an object or an array, for all accepted budgets, are built as an exact prefix of its
canonical text exactly if it is chunkable; and a receipt that is built from stored evidence is
faithful to it. -/
theorem evidence_chunks_exact (checks : Checks) :
    (∀ (structured : PyJson) (reference : EvidenceReference) (chunkChars maxChunks maxTotalChars : Nat),
      Structured structured →
      ValidLimits chunkChars maxChunks maxTotalChars →
      ((∃ chunks, buildEvidenceChunks checks.interpreter checks.floatText reference structured chunkChars
          maxChunks maxTotalChars =
          some chunks ∧
        ExactPrefix (canonicalJson checks.floatText
          structured) reference chunkChars maxChunks maxTotalChars chunks) ↔
        Chunkable checks.interpreter checks.floatText structured maxTotalChars)) ∧
    ∀ (config : SessionConfig) (rcaRunId specialistRunId : Uuid) (rows : List EvidenceRecord)
    (persisted : List PersistedEvidence)
      (b b' : Branch) (answers unused : List Answer) (receipt : EvidenceReceipt),
      listSpecialistEvidence rcaRunId specialistRunId rows = some persisted →
      buildReceipt checks config persisted b answers = (.returned receipt, b', unused) →
        Faithful checks config persisted receipt := by
  refine ⟨fun structured reference _ _ _ h limits => buildEvidenceChunks_exact limits h, ?_⟩
  intro config rcaRunId specialistRunId rows persisted b b' answers unused receipt listed returned
  obtain ⟨used, -, -, post⟩ :=
    @buildReceipt_reads (fun _ => True) checks config b persisted answers fun _ _ => trivial
  rw [returned] at post
  obtain ⟨-, allChunks, rfl, built⟩ := post receipt rfl
  refine receiptOf_faithful (fun record mem => ?_) built
  obtain ⟨row, -, read⟩ := mem_of_listed listed mem
  exact structured_of_persisted read

/-- Limits of an interpreter. -/
def chunkInterpreter : JsonParse.Interpreter := ⟨4300, 1000, fun _ => .nan⟩

/-- The text `{"a":"bcdef"}` in slices of five, cut off after seven characters. -/
theorem cut_object_exact :
    ∃ chunks,
      buildEvidenceChunks chunkInterpreter (fun _ => "") ⟨7⟩ (Json.obj [("a", .str "bcdef")]).coded 5 2 7 =
      some chunks ∧
      ExactPrefix (canonicalJson (fun _ => "") (Json.obj [("a", .str "bcdef")]).coded) ⟨7⟩ 5 2 7 chunks :=
  ((evidence_chunks_exact ⟨fun _ => "", fun _ => true, chunkInterpreter⟩).1
    (Json.obj [("a", .str "bcdef")]).coded ⟨7⟩ 5 2 7 trivial
    (by decide)).2 (chunkable_coded.2 rfl)

/-- An array with a surrogate that stands alone. -/
def surrogateArray : PyJson := .arr [.str ⟨[.ofNat 55296]⟩]

/-- `json.loads` reads the array with its lone surrogate. -/
theorem surrogateArray_read : JsonParse.parse chunkInterpreter "[\"\\ud800\"]".toList =
      .ok surrogateArray := by
  have text : "[\"\\ud800\"]".toList = '[' :: JsonText.quote :: "\\ud800\"]".toList := by decide
  have blank : JsonParse.isBlank '[' = false ∧ JsonParse.isBlank JsonText.quote = false := by decide
  have ne : ('[' : Char) ≠ JsonText.quote ∧ ('[' : Char) ≠ '{' ∧ JsonText.quote ≠ ']' := by decide
  simp only [JsonParse.parse, text, JsonParse.skipBlank_cons blank.1, JsonParse.skipBlank_cons blank.2,
    JsonParse.value,
    JsonParse.elements, ne.1, ne.2.1, ne.2.2, if_false, if_true, List.length_cons, chunkInterpreter,
    Except.map]
  rfl

/-- `json.loads` reads an escaped surrogate as the array that has it, and no chunks are built of that,
however large the budgets are. -/
theorem surrogate_array_raises :
    JsonParse.parse chunkInterpreter "[\"\\ud800\"]".toList = .ok surrogateArray ∧
      Structured surrogateArray ∧ ValidLimits 8000 4 32000 ∧
      ¬ ∃ chunks, buildEvidenceChunks chunkInterpreter (fun _ => "") ⟨7⟩ surrogateArray 8000 4 32000 =
        some chunks ∧
        ExactPrefix (canonicalJson (fun _ => "") surrogateArray) ⟨7⟩ 8000 4 32000 chunks := by
  have structured : Structured surrogateArray := trivial
  refine ⟨surrogateArray_read, structured, by decide, fun exact_ => ?_⟩
  have chunkable : Chunkable chunkInterpreter (fun _ => "") surrogateArray 32000 :=
    (buildEvidenceChunks_exact (by decide) structured).1 exact_
  have mem : CodePoint.ofNat 55296 ∈ (canonicalJson (fun _ => "") surrogateArray).take 32000 := by
    decide +kernel
  have scalar := chunkable.2 _ mem
  revert scalar
  decide

end SreAgent.Rca
