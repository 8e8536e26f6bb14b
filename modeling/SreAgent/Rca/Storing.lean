import SreAgent.Rca.LegacyReports
import SreAgent.Trace.Agreement

/-!
# Evidence of several specialists in one transaction

The evidence of all specialists is stored together, so a document that one endpoint returned and
`jsonb` does not take, which `json.loads` does, rolls back the evidence of the others and fails the job.
-/

namespace SreAgent.Rca
open Base Retries Slots JsonText JsonParse Trace

/-! ## What is stored -/

section Upsert

variable (rcaRunId : Uuid) (newIds : SpecialistKind → Uuid)

/-- A specialist run of a kind and a run. -/
def SpecialistRun.For (rcaRunId : Uuid) (kind : SpecialistKind) (id : Uuid)
    (runs : List SpecialistRun) : Prop :=
  ∃ run ∈ runs, run.id = id ∧ run.rcaRunId = rcaRunId ∧ run.specialist = kind

/-- An upsert yields the specialist run of the kind, and drops no run. -/
theorem upsertSpecialistRun_spec (kind : SpecialistKind) (newId : Uuid) (runs : List SpecialistRun) :
    SpecialistRun.For rcaRunId kind (upsertSpecialistRun rcaRunId kind newId runs).1
    (upsertSpecialistRun rcaRunId kind newId runs).2 ∧
      runs ⊆ (upsertSpecialistRun rcaRunId kind newId runs).2 := by
  unfold upsertSpecialistRun
  split
  · next run found =>
    have holds :=
      List.find?_some (p := fun run : SpecialistRun =>
        decide (run.rcaRunId = rcaRunId ∧ run.specialist = kind)) found
    have same := of_decide_eq_true holds
    exact ⟨⟨run, List.mem_of_find?_eq_some found, rfl, same.1, same.2⟩, List.Subset.refl runs⟩
  · exact ⟨⟨_, List.mem_append_right runs List.mem_cons_self, rfl, rfl, rfl⟩, List.subset_append_left runs _⟩

/-- Every result is filed under a specialist run of its kind. -/
theorem upsertSpecialistRuns_spec (results : List SpecialistResult) (runs : List SpecialistRun) :
    (upsertSpecialistRuns rcaRunId newIds results runs).1.map Prod.snd = results ∧
    runs ⊆ (upsertSpecialistRuns rcaRunId newIds results runs).2 ∧
    ∀ owned ∈ (upsertSpecialistRuns rcaRunId newIds results runs).1,
      SpecialistRun.For rcaRunId owned.2.specialist owned.1 (upsertSpecialistRuns rcaRunId newIds results
        runs).2 := by
  induction results generalizing runs with
  | nil => exact ⟨rfl, List.Subset.refl runs, nofun⟩
  | cons result results ih =>
    obtain ⟨first, kept⟩ :=
      upsertSpecialistRun_spec rcaRunId result.specialist (newIds result.specialist) runs
    obtain ⟨listed, kept', rest⟩ :=
      ih (upsertSpecialistRun rcaRunId result.specialist (newIds result.specialist) runs).2
    unfold upsertSpecialistRuns
    dsimp only
    refine ⟨?_, List.Subset.trans kept kept', ?_⟩
    · rw [List.map_cons, listed]
    · intro owned howned
      rcases List.mem_cons.1 howned with rfl | later
      · obtain ⟨run, mem, same⟩ := first
        exact ⟨run, kept' mem, same⟩
      · exact rest owned later

end Upsert

theorem mem_savedRecords (rcaRunId : Uuid) (newIds : Nat → Uuid) {saved : List Saved} {x : Saved}
    (h : x ∈ saved) :
    ∃ id, x.draft.record rcaRunId x.specialistRunId id ∈ savedRecords rcaRunId newIds saved := by
  obtain ⟨index, within, rfl⟩ := List.getElem_of_mem h
  refine ⟨newIds index, List.mem_map.2 ⟨(saved[index], index), ?_, rfl⟩⟩
  exact List.mem_zipIdx_iff_getElem?.2 (List.getElem?_eq_getElem within)

/-- The saved drafts are those of the findings of every result. -/
theorem mem_savedDrafts {owned : List (Uuid × SpecialistResult)} {x : Saved} : x ∈ savedDrafts owned ↔
    ∃ o ∈ owned, ∃ finding ∈ o.2.findings, ∃ draft ∈ finding.evidence,
      x = ⟨o.1, o.2.specialist, finding, draft⟩ := by
  unfold savedDrafts
  simp only [List.mem_flatMap, List.mem_map, eq_comm]

/-- The draft is stored as evidence of a specialist run of its kind. -/
def StoredAs (rcaRunId : Uuid) (kind : SpecialistKind) (draft : EvidenceDraft) (t : EvidenceTables) : Prop :=
  ∃ specialistRunId id, SpecialistRun.For rcaRunId kind specialistRunId t.specialistRuns ∧
    draft.record rcaRunId specialistRunId id ∈ t.records

/-- The confidences of the findings. -/
def confidences (results : List SpecialistResult) : List FloatVal :=
  results.flatMap fun result => result.findings.map Finding.confidence

section Bundle

variable {answers : BundleAnswers} {results : List SpecialistResult}

/-- A transaction of drafts that can be stored is committed, where it is not interrupted. -/
theorem persistBundle_ok (rcaRunId : Uuid) (t : EvidenceTables)
    (uninterrupted : answers.interrupted = false) (acknowledged : answers.unacknowledged = false)
    (storable : StorableResults results) :
    ∃ references summaries t', persistBundle rcaRunId answers results t = (.ok (references, summaries), t') ∧
      (∀ result ∈ results, ∀ draft ∈ result.drafts, StoredAs rcaRunId result.specialist draft t') ∧
      ((∃ result ∈ results, result.drafts ≠ []) → references ≠ []) ∧
      ∀ confidence ∈ summaries.map EvidenceSummary.confidence, confidence ∈ confidences results := by
  have begun : ¬ (¬ StorableResults results ∨ answers.interrupted = true) := by
    rintro (unstorable | interrupted)
    · exact unstorable storable
    · cases uninterrupted.symm.trans interrupted
  unfold persistBundle
  dsimp only
  rw [if_neg begun, if_neg (by rw [acknowledged]; exact Bool.noConfusion)]
  obtain ⟨listed, -, filed⟩ :=
    upsertSpecialistRuns_spec rcaRunId answers.specialistRunIds results t.specialistRuns
  generalize upsertSpecialistRuns rcaRunId answers.specialistRunIds results t.specialistRuns =
    upserted at listed filed ⊢
  have saved : ∀ result ∈ results, ∀ draft ∈ result.drafts, ∃ x ∈ savedDrafts upserted.1, x.draft = draft ∧
      SpecialistRun.For rcaRunId result.specialist x.specialistRunId upserted.2 := by
    intro result hresult draft hdraft
    rw [← listed] at hresult
    obtain ⟨owned, howned, rfl⟩ := List.mem_map.1 hresult
    obtain ⟨finding, hfinding, mem⟩ := List.mem_flatMap.1 hdraft
    exact ⟨_, mem_savedDrafts.2 ⟨owned, howned, finding, hfinding, draft, mem, rfl⟩, rfl, filed owned howned⟩
  refine ⟨_, _, _, rfl, ?_, ?_, ?_⟩
  · intro result hresult draft hdraft
    obtain ⟨x, hx, rfl, ofKind⟩ := saved result hresult draft hdraft
    obtain ⟨id, mem⟩ := mem_savedRecords rcaRunId answers.evidenceIds hx
    exact ⟨x.specialistRunId, id, ofKind, List.mem_append_right t.records mem⟩
  · rintro ⟨result, hresult, some_⟩
    obtain ⟨draft, hdraft⟩ := List.exists_mem_of_ne_nil _ some_
    obtain ⟨x, hx, -⟩ := saved result hresult draft hdraft
    rw [ne_eq, List.map_eq_nil_iff, List.zipIdx_eq_nil_iff]
    exact List.ne_nil_of_mem hx
  · intro confidence hconfidence
    rw [List.map_map] at hconfidence
    obtain ⟨⟨x, index⟩, hx, rfl⟩ := List.mem_map.1 hconfidence
    obtain ⟨owned, howned, finding, hfinding, draft, -, rfl⟩ :=
      mem_savedDrafts.1 (List.fst_mem_of_mem_zipIdx hx)
    rw [← listed]
    exact List.mem_flatMap.2 ⟨owned.2, List.mem_map_of_mem howned, List.mem_map_of_mem hfinding⟩

/-- A bundle that cannot be stored is a database error, and stores nothing. -/
theorem persistBundle_error (rcaRunId : Uuid) (t : EvidenceTables)
    (unstorable : ¬ StorableResults results) :
    persistBundle rcaRunId answers results t = (.error .database, t) :=
  if_pos (.inl unstorable)

end Bundle

/-! ## The evidence of the others -/

/-- Nothing but a draft can fail: the database takes the failures and the report, the transaction of
the bundle is not interrupted, and the root agent is not cancelled. -/
structure Undisturbed (p : Processing) : Prop where
  failuresStored : p.failuresStored = true
  uninterrupted : p.answers.interrupted = false
  acknowledged : p.answers.unacknowledged = false
  reportStored : ∀ report, p.reportStored report = true
  uncancelled : ∀ index, ¬ (p.attempts index).Raises .cancelled

/-- The evidence of a result is persisted, and a report is. -/
def Survives (setting : ProcessorSetting) (bundle : InvestigationBundle) (p : Processing)
    (t : EvidenceTables) (result : SpecialistResult) : Prop :=
  (∀ draft ∈ result.drafts, StoredAs setting.rcaRunId result.specialist draft
    (runLegacy setting bundle p t).2) ∧
    ∃ report, persistedReport p (runLegacy setting bundle p t).1 = some report

section Survival

variable {setting : ProcessorSetting} {bundle : InvestigationBundle} {p : Processing} {t : EvidenceTables}
  {result : SpecialistResult}

/-- The root agent returns a report or fails with a code. -/
theorem synthesizeLegacy_cases {summaries : List EvidenceSummary}
    (faithful : setting.reader.Faithful (summaries.map EvidenceSummary.confidence))
    (uncancelled : ∀ index, ¬ (p.attempts index).Raises .cancelled) (references : List EvidenceReference) :
    (∃ report, setting.rootAgent.synthesizeLegacy setting.reader setting.context.alertIssue summaries
      references setting.deadline p.attempts = .ok report) ∨
    ∃ code, setting.rootAgent.synthesizeLegacy setting.reader setting.context.alertIssue summaries
      references setting.deadline p.attempts = .error (.rootFailure code) := by
  have calls : RootCalls setting.reader setting.rootAgent
    (.legacy setting.context.alertIssue summaries references faithful) references
    setting.deadline p.attempts := RcaAgent.calls
  cases answer : setting.rootAgent.synthesizeLegacy setting.reader setting.context.alertIssue summaries
      references setting.deadline p.attempts with
  | ok report => exact .inl ⟨report, rfl⟩
  | error e =>
    rcases calls.fails e answer with ⟨-, index, cancelled⟩ | ⟨code, rfl⟩
    · exact absurd cancelled (uncancelled index)
    · exact .inr ⟨code, rfl⟩

/-- What is processed of a report, or of a failure of the root agent, is persisted. -/
theorem persistedReport_isSome (reportStored : ∀ report, p.reportStored report = true)
    {outcome : Except ProcessorFault ProcessorRunOutcome}
    (h : (∃ o, outcome = .ok o) ∨ ∃ code, outcome = .error (.model (.rootFailure code))) :
    ∃ report, persistedReport p outcome = some report := by
  have made : ∃ o, processed outcome = .ok o := by
    rcases h with ⟨o, rfl⟩ | ⟨code, rfl⟩
    · exact ⟨o, rfl⟩
    · cases code <;> exact ⟨_, rfl⟩
  obtain ⟨o, eq⟩ := made
  unfold persistedReport
  rw [eq]
  exact ⟨o.report, if_pos (reportStored o.report)⟩

/-- Where nothing else fails, the evidence of a specialist survives exactly if the drafts of all can
be stored. -/
theorem survives_iff (faithful : setting.reader.Faithful (confidences bundle.results))
    (undisturbed : Undisturbed p) (hresult : result ∈ bundle.results) (collected : result.drafts ≠ []) :
    Survives setting bundle p t result ↔ StorableResults bundle.results := by
  have retried : ¬ RetryableTotalFailure bundle setting.attemptNumber :=
    fun retry => List.ne_nil_of_mem hresult retry.2.1
  unfold Survives runLegacy
  rw [if_neg (by rw [undisturbed.failuresStored]; exact Bool.noConfusion), if_neg retried]
  constructor
  · rintro ⟨-, report, persisted⟩
    by_contra unstorable
    rw [persistBundle_error _ _ unstorable] at persisted
    cases persisted
  · intro storable
    obtain ⟨references, summaries, t', stored, kept, referenced, within⟩ :=
      persistBundle_ok setting.rcaRunId t undisturbed.uninterrupted undisturbed.acknowledged storable
    rw [stored]
    dsimp only
    have some_ : references ≠ [] := referenced ⟨result, hresult, collected⟩
    have answered : (∃ report, legacyReport setting bundle p.attempts references summaries = .ok report) ∨
        ∃ code, legacyReport setting bundle p.attempts references summaries = .error (.rootFailure code) := by
      unfold legacyReport
      rw [if_neg some_]
      have faithful : setting.reader.Faithful (summaries.map EvidenceSummary.confidence) :=
        ⟨faithful.depth, fun x hx => faithful.floats x (within x hx)⟩
      rcases synthesizeLegacy_cases faithful undisturbed.uncancelled references with ⟨report, eq⟩ | ⟨code, eq⟩
      · rw [eq]
        exact .inl ⟨_, rfl⟩
      · rw [eq]
        exact .inr ⟨code, rfl⟩
    rcases answered with ⟨report, eq⟩ | ⟨code, eq⟩
    · rw [eq]
      exact ⟨kept result hresult, persistedReport_isSome undisturbed.reportStored (.inl ⟨_, rfl⟩)⟩
    · rw [eq]
      exact ⟨kept result hresult, persistedReport_isSome undisturbed.reportStored (.inr ⟨code, rfl⟩)⟩

end Survival

/-- In a run where nothing else fails, the evidence of a specialist survives the others exactly if the
drafts of all can be stored. -/
theorem evidence_survives_iff {setting : ProcessorSetting} {capabilities : CapabilitySet} {p : Processing}
    {t : EvidenceTables} {deadline : Timestamp} {events : List (SpecialistKind × Event Timestamp LegacyEnd)}
    {s : State SpecialistKind SpecialistResult SpecialistFailure} {other : SpecialistKind}
    {result : SpecialistResult} (run : investigates setting.context capabilities deadline events s)
    (faithful : setting.reader.Faithful
      (confidences (investigation setting.context capabilities s).results)) (undisturbed : Undisturbed p)
    (found : s.results other = some result) (collected : result.drafts ≠ []) :
    Survives setting (investigation setting.context capabilities s) p t result ↔
      ∀ kind r, s.results kind = some r → ∀ draft ∈ r.drafts, draft.Storable := by
  have listed : (investigation setting.context capabilities s).results =
      inOrder SpecialistKind.order s.results := by
    rw [investigation_eq run]
  have mem : result ∈ (investigation setting.context capabilities s).results := by
    rw [listed]
    exact mem_kinds.2 ⟨other, found⟩
  rw [survives_iff faithful undisturbed mem collected, listed]
  constructor
  · intro storable kind r hr
    exact storable r (mem_kinds.2 ⟨kind, hr⟩)
  · intro storable r hr
    obtain ⟨kind, filed⟩ := mem_kinds.1 hr
    exact storable kind r filed

/-! ## The bytes of an endpoint -/

section Bytes

variable {rt : Trace.Runtime} {floatText : FloatVal → String} {specialist : McpSpecialist}
  {request : SpecialistRequest} {scope : CloudScope}
  {tool : AllowedTool} {arguments : JsonObject} {raw : List UInt8} {draft : EvidenceDraft}

/-- Evidence that was made of bytes can be stored exactly if their normalised document can, and the
provenance of the call. -/
theorem storable_of_bytes_iff (h : evidenceOfBytes rt floatText specialist request scope tool arguments
      raw = .ok draft) :
    ∃ structured normalized, readStructured rt.toInterpreter raw = .ok structured ∧
      normalizeStructured rt specialist.kind request.alertIssue structured = .ok (some normalized) ∧
      (draft.Storable ↔ storableDocument normalized = true ∧ Ingestion.storable draft.metadata = true ∧
        Ingestion.noNul tool.capability = true ∧ Ingestion.noNul tool.name = true) := by
  obtain ⟨-, structured, normalized, read, normal, made⟩ := of_evidenceOfBytes h
  refine ⟨structured, normalized, read, normal, ?_⟩
  unfold EvidenceDraft.validate at made
  split at made
  · cases made
    exact Iff.rfl
  · cases made

/-- What a specialist collected can be stored exactly if the normalised document of what its tool
answered can, and the provenance of the call. -/
theorem collected_storable_iff {validator : SchemaValidator}
    {call : String → JsonObject → Except CollectError (List UInt8)} {drafts : List EvidenceDraft}
    {missing : List String}
    (h : collectEvidence rt floatText specialist request validator call = .ok (drafts, missing))
    (hdraft : draft ∈ drafts) :
    ∃ tool ∈ request.availableTools, ∃ arguments raw structured normalized, call tool.name arguments =
      .ok raw ∧
      readStructured rt.toInterpreter raw = .ok structured ∧
      normalizeStructured rt specialist.kind request.alertIssue structured = .ok (some normalized) ∧
      (draft.Storable ↔ storableDocument normalized = true ∧ Ingestion.storable draft.metadata = true ∧
        Ingestion.noNul tool.capability = true ∧ Ingestion.noNul tool.name = true) := by
  obtain ⟨scope, -, tool, htool, arguments, raw, -, called, made⟩ := of_collectEvidence h hdraft
  obtain ⟨structured, normalized, read, normal, iff⟩ := storable_of_bytes_iff made
  exact ⟨tool, htool, arguments, raw, structured, normalized, called, read, normal, iff⟩

end Bytes

/-! ## A metric that is no number -/

/-- The bytes of `[NaN]`. -/
def nanBytes : List UInt8 := [91, 78, 97, 78, 93]

/-- The bytes of `[]`. -/
def emptyBytes : List UInt8 := [91, 93]

def metricsTool : AllowedTool := ⟨"metrics_query", "metrics.query", .METRICS, .obj []⟩

def logTool : AllowedTool := ⟨"log_query", "log.query", .LOG, .obj []⟩

theorem kibibyte : 0 < 1024 ∧ 1024 ≤ 2 * 1024 * 1024 := by decide

def metricsSpecialist : McpSpecialist := ⟨.METRICS, 1024, kibibyte⟩

def logSpecialist : McpSpecialist := ⟨.LOG, 1024, kibibyte⟩

/-- The request of a specialist that is offered a tool. -/
def shopRequest (tool : AllowedTool) : SpecialistRequest :=
  ⟨1, 2, "slow checkout", some shopScope, 0, 10, [tool], slowCheckout.alertIssue_ne, slowCheckout.window_le⟩

/-- What the metrics endpoint answers is evidence, and so is what the log endpoint answers. -/
def Answered (raw : List UInt8) (metrics log : EvidenceDraft) : Prop :=
  evidenceOfBytes isoRuntime (fun _ => "1.0") metricsSpecialist (shopRequest metricsTool) shopScope
    metricsTool [] raw = .ok metrics ∧
    evidenceOfBytes isoRuntime (fun _ => "1.0") logSpecialist (shopRequest logTool) shopScope logTool []
      emptyBytes = .ok log

theorem nan_read : readStructured isoRuntime.toInterpreter nanBytes = .ok (.arr [.float .nan]) := rfl

theorem empty_read : readStructured isoRuntime.toInterpreter emptyBytes = .ok (.arr []) := rfl

/-- Bytes of an array that is not normalised are evidence. -/
theorem evidence_of_array (specialist : McpSpecialist) (tool : AllowedTool) {raw : List UInt8}
    {items : List PyJson} (other : specialist.kind ≠ .TRACE) (within : tool.Within specialist.kind)
    (small : raw.length ≤ specialist.maxResponseBytes)
    (read : readStructured isoRuntime.toInterpreter raw = .ok (.arr items)) :
    ∃ draft,
      evidenceOfBytes isoRuntime (fun _ => "1.0") specialist (shopRequest tool) shopScope tool [] raw =
      .ok draft ∧
      draft.structuredJson = .arr items := by
  have normal : normalizeStructured isoRuntime specialist.kind (shopRequest tool).alertIssue (.arr items) =
      .ok (some (.arr items)) := by
    unfold normalizeStructured
    split
    · next trace => exact absurd trace other
    · rfl
  rw [evidenceOfBytes_of_read small read normal]
  exact EvidenceDraft.validate_valid ⟨trivial, ⟨rfl, rfl⟩, within⟩

/-- The metrics endpoint returns one draft and the log endpoint another. -/
def bothReturned (metrics log : EvidenceDraft) : List (SpecialistKind × Event Timestamp LegacyEnd) :=
  [(.METRICS, .reading 0), (.LOG, .reading 0),
    (.METRICS, .ended (.returned (metricsSpecialist.result [metrics] []))),
    (.LOG, .ended (.returned (logSpecialist.result [log] [])))]

/-- Two specialists return a draft each, and the investigation carries both. -/
theorem both_returned (metrics log : EvidenceDraft) :
    ∃ s, investigates slowCheckout twoRouted 100 (bothReturned metrics log) s ∧ s.Finished ∧
    s.results .LOG = some (logSpecialist.result [log] []) ∧
    (investigation slowCheckout twoRouted s).results =
      [metricsSpecialist.result [metrics] [], logSpecialist.result [log] []] :=
  ⟨_, rfl, fun kind => by cases kind <;> rfl, rfl, rfl⟩

theorem result_collected (specialist : McpSpecialist) (draft : EvidenceDraft) :
    (specialist.result [draft] []).drafts ≠ [] := by
  rw [McpSpecialist.drafts_result]
  exact List.cons_ne_nil draft []

theorem answersComplete_undisturbed : Undisturbed answersComplete where
  failuresStored := rfl
  uninterrupted := rfl
  acknowledged := rfl
  reportStored _ := rfl
  uncancelled index := by
    rintro (raised | raised | raised | raised)
    all_goals cases raised

/-- A reader that writes one half, and reads it. -/
def halfReader : ModelReader :=
  ⟨⟨4300, 1000, fun _ => .finite (1 / 2)⟩, fun _ => "0.5", fun _ => none, fun _ => none⟩

theorem fraction_five {rest : List Char} (h : Ends rest) : fractionOf ('.' :: '5' :: rest) = ['.', '5'] := by
  have five : ∀ c ∈ ['5'], isDigit c = true := by
    intro c mem
    rw [List.mem_singleton.1 mem]
    rfl
  have digits : ('5' :: rest).takeWhile isDigit = ['5'] := takeWhile_digits five h
  change (if ('5' :: rest).takeWhile isDigit = [] then [] else '.' :: ('5' :: rest).takeWhile isDigit) =
    ['.', '5']
  rw [digits]
  rfl

theorem halfReader_faithful : halfReader.Faithful [.finite (1 / 2), .finite (1 / 2)] where
  depth := by decide
  floats x hx := by
    have half : x = .finite (1 / 2) := by simpa using hx
    subst half
    refine ⟨⟨'0', ['.', '5'], rfl, by decide, by decide, by decide⟩, fun fuel depth rest ends => ?_⟩
    change JsonParse.number halfReader.interpreter ('0' :: '.' :: '5' :: rest) = _
    have sign : signOf ('0' :: '.' :: '5' :: rest) = [] := rfl
    have whole : wholeOf ('0' :: '.' :: '5' :: rest) = ['0'] := rfl
    simp only [JsonParse.number, sign, List.length_nil, List.drop_zero, whole, List.drop_succ_cons,
      fraction_five ends, List.length_cons, exponentOf_ends ends]
    rfl

theorem oneAttempt : 1 ≤ 1 := Nat.le_refl 1

/-- A setting whose root model answers nothing that is accepted. -/
def halfSetting : ProcessorSetting := ⟨2, 1, 100, slowCheckout, halfReader, ⟨1, oneAttempt⟩⟩

theorem both_faithful {metrics log : EvidenceDraft} {results : List SpecialistResult}
    (h : results = [metricsSpecialist.result [metrics] [], logSpecialist.result [log] []]) :
    halfSetting.reader.Faithful (confidences results) := by
  subst h
  exact halfReader_faithful

/-- Where both endpoints answer with an empty array, the logs survive. -/
theorem empty_metrics_survive : ∃ metrics log s, Answered emptyBytes metrics log ∧
    investigates slowCheckout twoRouted 100 (bothReturned metrics log) s ∧
    (Survives halfSetting (investigation slowCheckout twoRouted s) answersComplete ⟨[], []⟩
      (logSpecialist.result [log] []) ↔
      ∀ kind r, s.results kind = some r → ∀ draft ∈ r.drafts, draft.Storable) := by
  obtain ⟨metrics, metricsMade, -⟩ :=
    evidence_of_array metricsSpecialist metricsTool (by decide) (by decide) (by decide) empty_read
  obtain ⟨log, logMade, -⟩ :=
    evidence_of_array logSpecialist logTool (by decide) (by decide) (by decide) empty_read
  obtain ⟨s, run, -, found, results⟩ := both_returned metrics log
  have at_setting : investigates halfSetting.context twoRouted 100 (bothReturned metrics log) s := run
  exact ⟨metrics, log, s, ⟨metricsMade, logMade⟩, run,
    evidence_survives_iff at_setting (both_faithful results) answersComplete_undisturbed found
      (result_collected logSpecialist log)⟩

/-- Where the metrics endpoint answers `[NaN]`, the logs do not survive. -/
theorem nan_metrics_sink : ∃ metrics log s, Answered nanBytes metrics log ∧
    investigates slowCheckout twoRouted 100 (bothReturned metrics log) s ∧ s.Finished ∧
    s.results .LOG = some (logSpecialist.result [log] []) ∧ (logSpecialist.result [log] []).drafts ≠ [] ∧
    ¬ Survives halfSetting (investigation slowCheckout twoRouted s) answersComplete ⟨[],
      []⟩ (logSpecialist.result [log] []) := by
  obtain ⟨metrics, metricsMade, document⟩ :=
    evidence_of_array metricsSpecialist metricsTool (by decide) (by decide) (by decide) nan_read
  obtain ⟨log, logMade, -⟩ :=
    evidence_of_array logSpecialist logTool (by decide) (by decide) (by decide) empty_read
  obtain ⟨s, run, finished, found, results⟩ := both_returned metrics log
  have collected : (logSpecialist.result [log] []).drafts ≠ [] := result_collected logSpecialist log
  have mem : logSpecialist.result [log] [] ∈ (investigation slowCheckout twoRouted s).results := by
    rw [results]
    exact List.mem_cons_of_mem _ List.mem_cons_self
  refine ⟨metrics, log, s, ⟨metricsMade, logMade⟩, run, finished, found, collected, fun survives => ?_⟩
  have storable : StorableResults (investigation slowCheckout twoRouted s).results :=
    (survives_iff (both_faithful results) answersComplete_undisturbed mem collected).1 survives
  rw [results] at storable
  have metricsStorable : metrics.Storable := by
    refine storable _ List.mem_cons_self metrics ?_
    rw [McpSpecialist.drafts_result]
    exact List.mem_cons_self
  have number := metricsStorable.1
  rw [document] at number
  cases number

end SreAgent.Rca
