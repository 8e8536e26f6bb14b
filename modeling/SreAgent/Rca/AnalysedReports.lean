import SreAgent.Rca.AnalysisRun
import SreAgent.Rca.LegacyReports

/-!
# Complete reports over specialist analyses

Four layers decide the status of a report: the workflow, the audits, the root agent and the synthesizer.
A report that is complete in the end is one over analyses that are all complete and stored
(`analysed_report_sound`), and what any report cites is evidence of its own run.
-/

namespace SreAgent.Rca
open Base Procedure Retries Slots EvidenceToolSession

/-! ## Evidence of a branch -/

/-- The reference is to evidence of a specialist of the run. -/
def OwnedEvidence (rcaRunId : Uuid) (t : EvidenceTables) (reference : EvidenceReference) : Prop :=
  ∃ row ∈ t.records, row.id = reference.id ∧ row.rcaRunId = rcaRunId ∧ ∃ run ∈ t.specialistRuns,
    run.id = row.specialistRunId ∧ run.rcaRunId = rcaRunId

section Branch

variable {checks : Checks} {config : SessionConfig} {b : Branch}

/-- The calls of a session keep its receipt to stored rows, and the specialist runs. -/
theorem sessionEnd_keeps (exchanges : List Exchange) (kept : Kept checks config b) :
    Kept checks config (sessionEnd checks config b exchanges) ∧
      (sessionEnd checks config b exchanges).specialistRuns = b.specialistRuns := by
  induction exchanges generalizing b with
  | nil => exact ⟨kept, rfl⟩
  | cons e exchanges ih =>
    have case : CallCase (fun _ => True) checks config (exchange checks config b e) :=
      exchange_case fun _ _ => trivial
    have start : (exchange checks config b e).before = b := rfl
    obtain ⟨later, runs⟩ := ih (case.step (start ▸ kept)).1
    exact ⟨later, runs.trans case.specialistRuns⟩

/-- What a branch knows is evidence of its run. -/
theorem BranchCall.owned {c : BranchCall} {r : SpecialistAnalysisResult}
    (h : (c.invoke checks).1 = .returned r) :
    ∀ reference ∈ r.knownEvidence, OwnedEvidence c.attempt.config.request.rcaRunId
      ⟨(c.invoke checks).2.specialistRuns, (c.invoke checks).2.records⟩ reference := by
  have spec : (openBranch c.attempt.config).wp (fun _ => True) _ c.found := openBranch_spec
  obtain ⟨used, -, opens, fresh⟩ := spec c.attempt.opening fun _ _ => trivial
  unfold BranchCall.invoke at h ⊢
  generalize openBranch c.attempt.config c.found c.attempt.opening = out at opens fresh h ⊢
  obtain ⟨id | e | _, b, rest⟩ := out
  · obtain ⟨run, found, rfl⟩ := opens.returned id rfl
    have empty : b.receipt = none := (fresh run.id rfl).2.1
    have none_ : Kept checks (c.attempt.session run.id) b :=
      fun receipt cached => nomatch empty.symm.trans cached
    obtain ⟨kept, runs⟩ := sessionEnd_keeps c.attempt.exchanges none_
    dsimp only at h ⊢
    cases returned : c.analysis with
    | none =>
      rw [returned] at h
      cases h
    | some analysis =>
      rw [returned] at h
      cases h
      intro reference mem
      unfold knownEvidence at mem
      cases cached : (sessionEnd checks (c.attempt.session run.id) b c.attempt.exchanges).receipt with
      | none =>
        rw [cached] at mem
        cases mem
      | some receipt =>
        rw [cached] at mem
        obtain ⟨row, stored, ⟨⟨ofRun, ofSpecialist⟩, -⟩, same⟩ :=
          (kept receipt cached).references reference mem
        have listed :
            run ∈ (sessionEnd checks (c.attempt.session run.id) b c.attempt.exchanges).specialistRuns := by
          rw [runs]
          exact List.mem_of_find?_eq_some found
        have holds := List.find?_some (p := fun run : SpecialistRun =>
          decide (run.rcaRunId = c.attempt.config.request.rcaRunId ∧
            run.specialist = c.attempt.config.kind)) found
        exact ⟨row, stored, same, ofRun, run, listed, ofSpecialist.symm, (of_decide_eq_true holds).1⟩
  · cases h
  · cases h

end Branch

/-- Every branch of a run ended as a call of `_invoke_specialist_branch` does, and what it stored is
in the tables. -/
def BranchesOf (checks : Checks) (rcaRunId : Uuid)
    (events : List (SpecialistKind × Event (Option Timestamp) BranchEnd)) (t : EvidenceTables) : Prop :=
  ∀ kind e, (kind, Event.ended e) ∈ events →
    ∃ c : BranchCall, c.attempt.config.request.rcaRunId = rcaRunId ∧ c.attempt.config.kind = kind ∧
    (c.invoke checks).1 = e ∧ (c.invoke checks).2.records ⊆ t.records ∧
      (c.invoke checks).2.specialistRuns ⊆ t.specialistRuns

theorem OwnedEvidence.mono {rcaRunId : Uuid} {t t' : EvidenceTables} {reference : EvidenceReference}
    (h : OwnedEvidence rcaRunId t reference) (records : t.records ⊆ t'.records)
    (runs : t.specialistRuns ⊆ t'.specialistRuns) : OwnedEvidence rcaRunId t' reference := by
  obtain ⟨row, mem, same, ofRun, run, listed, own⟩ := h
  exact ⟨row, records mem, same, ofRun, run, runs listed, own⟩

/-! ## The bundle of the workflow -/

/-- What a finished run has filed under a kind, whatever discovery filed there before. -/
inductive AnalysisEnd (context : IncidentContext) (capabilities : CapabilitySet)
    (events : List (SpecialistKind × Event (Option Timestamp) BranchEnd)) (kind : SpecialistKind) :
    Option SpecialistAnalysisResult → Option SpecialistFailure → Prop where
  | returned (r : SpecialistAnalysisResult) (routed : kind ∈ (route context capabilities).selected)
      (mine : r.specialist = kind)
      (ended : Event.ended (.returned r) ∈ own kind events) :
        AnalysisEnd context capabilities events kind (some r) (discoveryFailures capabilities kind)
  | failed (f : SpecialistFailure) (mine : f.specialist = kind)
      (stable : Stable f) : AnalysisEnd context capabilities events kind none (some f)
  | unrouted (unrouted : kind ∉ (route context capabilities).selected) :
      AnalysisEnd context capabilities events kind none (discoveryFailures capabilities kind)

section Workflow

variable {context : IncidentContext} {capabilities : CapabilitySet} {deadline : Timestamp}
  {kind : SpecialistKind}
  {events : List (SpecialistKind × Event (Option Timestamp) BranchEnd)}
  {s : State SpecialistKind SpecialistAnalysisResult SpecialistFailure}

/-- When the graph has finished, what a specialist filed is the end of its own analysis. -/
theorem analysisEnd (run : runs context capabilities deadline events s) (finished : s.Finished)
    (kind : SpecialistKind) :
    AnalysisEnd context capabilities events kind (s.results kind) (s.failures kind) := by
  by_cases routed : kind ∈ (route context capabilities).selected
  · have trail := trail_of_selected (by decide : 0 < 2) run routed
    have finished : (s.slot kind).task = .finished := finished kind
    change AnalysisEnd context capabilities events kind (s.slot kind).result (s.slot kind).failure
    generalize s.slot kind = slot at trail finished
    cases trail with
    | waiting => cases finished
    | running => cases finished
    | refused n now failure within again read refusal =>
      rw [admit_eq_some refusal]
      exact .failed _ rfl (stable_stableFailure _ _)
    | filed n o result within again ended verdict =>
      obtain ⟨rfl, mine⟩ := settleBranch_eq_filed verdict
      exact .returned result routed mine ended
    | failed n o failure within again ended verdict =>
      exact .failed failure (settleBranch_eq_failed verdict).1 (settleBranch_eq_failed verdict).2
    | exhausted n o last again ended verdict =>
      have first : n = 0 := (settleBranch_eq_again verdict).1
      subst first
      cases last
  · have slot := slot_of_unselected run routed
    have results : s.results kind = none := congrArg Slot.result slot
    have failures : s.failures kind = discoveryFailures capabilities kind := congrArg Slot.failure slot
    rw [results, failures]
    exact .unrouted routed

/-- What a specialist files carries its own name, and a failure a stable code. -/
theorem AnalysisEnd.filed {result : Option SpecialistAnalysisResult} {failure : Option SpecialistFailure}
    (h : AnalysisEnd context capabilities events kind result failure) :
    (∀ r, result = some r → r.specialist = kind) ∧ ∀ f, failure = some f →
      f.specialist = kind ∧ Stable f := by
  cases h with
  | returned r routed mine ended =>
    refine ⟨fun r' found => ?_, fun f found => of_discoveryFailures found⟩
    cases found
    exact mine
  | failed f mine stable =>
    refine ⟨nofun, fun f' found => ?_⟩
    cases found
    exact ⟨mine, stable⟩
  | unrouted unrouted => exact ⟨nofun, fun f found => of_discoveryFailures found⟩

/-- The bundle that the processor is given, sorted once more, lists what is filed in the end. -/
theorem sorted_analyses (run : runs context capabilities deadline events s) (finished : s.Finished) :
    ∃ bundle, (analyses context capabilities s).bind normalizeSpecialistAnalysisBundle = some bundle ∧
      bundle.results = inOrder SpecialistKind.order (finalResults s) ∧
        bundle.failures = inOrder SpecialistKind.order (finalFailures s) := by
  have ends := analysisEnd run finished
  have own : Filed SpecialistAnalysisResult.specialist s.results := fun kind => (ends kind).filed.1
  have filed : Filed SpecialistFailure.specialist s.failures :=
    fun kind f found => ((ends kind).filed.2 f found).1
  obtain ⟨bundle, eq, results, failures⟩ :=
    analyses_eq run own filed fun kind f found => ((ends kind).filed.2 f found).2
  have ownFinal : Filed SpecialistAnalysisResult.specialist (finalResults s) := by
    intro kind r found
    exact own kind r (Option.filter_eq_some_iff.1 found).1
  have filedFinal : Filed SpecialistFailure.specialist (finalFailures s) := by
    intro kind f found
    rcases Option.or_eq_some_iff.1 found with moved | ⟨-, kept⟩
    · obtain ⟨r, hr, rfl⟩ := Option.map_eq_some_iff.1 moved
      exact own kind r (Option.filter_eq_some_iff.1 hr).1
    · exact filed kind f kept
  obtain ⟨sorted, eq', results', failures'⟩ := normalize_inOrder results failures ownFinal filedFinal
  refine ⟨sorted, by rw [eq]; exact eq', ?_, ?_⟩
  · rw [results']
    congr 1
    funext kind
    unfold finalResults
    rw [Option.filter_filter]
    simp
  · rw [failures']
    congr 1
    funext kind
    have none_ : (finalResults s kind).filter unusable = none := by
      unfold finalResults
      rw [Option.filter_filter]
      simp [usable, unusable]
    rw [none_, Option.map_none, Option.none_or]

/-- A specialist that is expected ends with a result or a failure. -/
theorem AnalysisEnd.final (h : AnalysisEnd context capabilities events kind (s.results kind)
      (s.failures kind))
    (expected : kind ∈ (route context capabilities).selected ∨ capabilities.Failed kind) :
    (∃ r, finalResults s kind = some r) ∨ ∃ f, finalFailures s kind = some f := by
  unfold finalResults finalFailures
  generalize s.results kind = result at h ⊢
  generalize hfailure : s.failures kind = failure at h ⊢
  cases h with
  | returned r routed mine ended =>
    by_cases un : r.analysis.Unusable
    · exact .inr ⟨r.failure, by simp [Option.filter, unusable, un]⟩
    · exact .inl ⟨r, by simp [Option.filter, usable, un]⟩
  | failed f mine stable => exact .inr ⟨f, rfl⟩
  | unrouted unrouted =>
    have failed := expected.resolve_left unrouted
    obtain ⟨f, found⟩ := Option.isSome_iff_exists.1 (discoveryFailures_isSome.2 failed)
    exact .inr ⟨f, by rw [found]; rfl⟩

end Workflow

/-! ## Audits -/

section Audits

variable {setting : AnalysisSetting} {p : AnalysisProcessing} {t : EvidenceTables}

/-- The analysis of a result is stored. -/
def Audited (setting : AnalysisSetting) (p : AnalysisProcessing) (t : EvidenceTables)
    (result : SpecialistAnalysisResult) : Prop :=
  ∃ stored, audit setting p t result = .ok stored

/-- What the audits make of results: those whose analyses are stored, and a failure for each of the others. -/
structure Audits (setting : AnalysisSetting) (p : AnalysisProcessing) (t : EvidenceTables)
    (results persisted : List SpecialistAnalysisResult) (failures : List SpecialistFailure) : Prop where
  sublist : persisted.Sublist results
  kept : ∀ r ∈ results, r ∈ persisted ↔ Audited setting p t r
  clear : failures = [] ↔ ∀ r ∈ results, Audited setting p t r
  stable : ∀ f ∈ failures, Stable f

/-- Either the audit of one result meets a database error, or every result is audited. -/
theorem persistSpecialistAnalyses_cases (results : List SpecialistAnalysisResult) (distinct : results.Nodup) :
    (persistSpecialistAnalyses setting p t results = .error .database ∧ ∃ r ∈ results,
      audit setting p t r = .error .database) ∨
    ∃ persisted failures, persistSpecialistAnalyses setting p t results = .ok (persisted, failures) ∧
      Audits setting p t results persisted failures := by
  induction results with
  | nil => exact .inr ⟨[], [], rfl, List.Sublist.refl [], nofun, ⟨fun _ => nofun, fun _ => rfl⟩, nofun⟩
  | cons r results ih =>
    obtain ⟨absent, distinct⟩ := List.nodup_cons.1 distinct
    unfold persistSpecialistAnalyses
    rcases ih distinct with ⟨eq, r', mem, interrupted⟩ | ⟨persisted, failures, eq, audits⟩
    · left
      cases audited : audit setting p t r with
      | ok stored => exact ⟨by rw [eq]; rfl, r', List.mem_cons_of_mem r mem, interrupted⟩
      | error e =>
        cases e with
        | ownership => exact ⟨by rw [eq]; rfl, r', List.mem_cons_of_mem r mem, interrupted⟩
        | database => exact ⟨rfl, r, List.mem_cons_self, audited⟩
    · cases audited : audit setting p t r with
      | ok stored =>
        right
        refine ⟨r :: persisted, failures, by rw [eq]; rfl, audits.sublist.cons_cons r, ?_, ?_, audits.stable⟩
        · intro r' mem
          rcases List.mem_cons.1 mem with rfl | later
          · exact ⟨fun _ => ⟨stored, audited⟩, fun _ => List.mem_cons_self⟩
          · rw [List.mem_cons, audits.kept r' later]
            refine ⟨fun h => h.resolve_left fun same => absent (same ▸ later), .inr⟩
        · rw [audits.clear, List.forall_mem_cons]
          exact ⟨fun rest => ⟨⟨stored, audited⟩, rest⟩, And.right⟩
      | error e =>
        have rejected : ¬ Audited setting p t r := by
          rintro ⟨stored, ok⟩
          cases audited.symm.trans ok
        cases e with
        | database => exact .inl ⟨rfl, r, List.mem_cons_self, audited⟩
        | ownership =>
          right
          refine ⟨persisted, stableFailure r.specialist .ANALYSIS_UNKNOWN_EVIDENCE :: failures,
            by rw [eq]; rfl, audits.sublist.cons r, ?_, ?_, ?_⟩
          · intro r' mem
            rcases List.mem_cons.1 mem with rfl | later
            · exact ⟨fun kept => absurd (audits.sublist.subset kept) absent,
                fun stored => absurd stored rejected⟩
            · exact audits.kept r' later
          · exact ⟨nofun, fun all => absurd (all r List.mem_cons_self) rejected⟩
          · intro f mem
            rcases List.mem_cons.1 mem with rfl | later
            · exact stable_stableFailure _ _
            · exact audits.stable f later

end Audits

/-! ## The bundle that is reported -/

section Ordered

variable {α : Type} {key : α → SpecialistKind} {items : List α}

/-- Filing items of distinct kinds in a dictionary and listing it loses none of them. -/
theorem mem_ordered {a : α} (distinct : (items.map key).Nodup) :
    a ∈ inOrder SpecialistKind.order (file key items fun _ => none) ↔ a ∈ items := by
  rw [mem_kinds]
  constructor
  · rintro ⟨kind, found⟩
    rcases of_file found with ⟨mem, -⟩ | none_
    · exact mem
    · cases none_
  · exact fun mem => ⟨key a, file_of_mem distinct mem⟩

theorem ordered_eq_nil : inOrder SpecialistKind.order (file key items fun _ => none) = [] ↔ items = [] := by
  rw [kinds_eq_nil]
  constructor
  · intro none_
    by_contra some_
    obtain ⟨a, mem⟩ := List.exists_mem_of_ne_nil items some_
    have filed : (file key items (fun _ => none) (key a)).isSome :=
      file_isSome.2 (.inl (List.mem_map_of_mem mem))
    rw [none_ (key a)] at filed
    cases filed
  · rintro rfl kind
    rfl

theorem nodup_of_inOrder {d : SpecialistKind → Option α} (own : Filed key d) :
    ((inOrder SpecialistKind.order d).map key).Nodup := by
  rw [map_inOrder own]
  exact List.Nodup.filter _ (by decide)

end Ordered

/-- The bundle that is reported: the results that are filed in the end and stored, and no failures
exactly if none was filed and every result is stored. -/
structure Reported (setting : AnalysisSetting) (p : AnalysisProcessing) (t : EvidenceTables)
    (s : State SpecialistKind SpecialistAnalysisResult SpecialistFailure)
    (bundle : SpecialistAnalysisBundle) : Prop where
  results : ∀ r, r ∈ bundle.results ↔ (∃ kind, finalResults s kind = some r) ∧ Audited setting p t r
  failures : bundle.failures = [] ↔ (∀ kind, finalFailures s kind = none) ∧ ∀ kind r, finalResults s kind =
    some r → Audited setting p t r

/-- `_run_specialist_analysis` once its bundle is stored. -/
def reportBundle (setting : AnalysisSetting) (p : AnalysisProcessing) (bundle : SpecialistAnalysisBundle) :
    Transcript String ProcessorFault ProcessorRunOutcome :=
  if p.failuresStored = false then ⟨[], .error .database⟩
  else if RetryableAnalysisFailure bundle setting.attemptNumber then ⟨[], .error .transient⟩
  else ⟨(analysisReport setting p bundle).asked, (analysisReport setting p bundle).outcome.mapError .model⟩

section Run

variable {setting : AnalysisSetting} {p : AnalysisProcessing} {t : EvidenceTables}
  {capabilities : CapabilitySet} {deadline : Timestamp}
  {events : List (SpecialistKind × Event (Option Timestamp) BranchEnd)}
  {s : State SpecialistKind SpecialistAnalysisResult SpecialistFailure}

/-- A run ends in an interrupted audit, or reports a bundle. -/
theorem runSpecialistAnalysis_cases (run : runs setting.context capabilities deadline events s)
    (finished : s.Finished) :
    (runSpecialistAnalysis setting p t (analyses setting.context capabilities s) = ⟨[], .error .database⟩ ∧
      ∃ kind r, finalResults s kind = some r ∧ audit setting p t r = .error .database) ∨
    ∃ bundle, Reported setting p t s bundle ∧
      runSpecialistAnalysis setting p t (analyses setting.context capabilities s) =
        reportBundle setting p bundle := by
  have ends := analysisEnd run finished
  have own : Filed SpecialistAnalysisResult.specialist (finalResults s) := fun kind r found =>
    (ends kind).filed.1 r (Option.filter_eq_some_iff.1 found).1
  obtain ⟨sorted, eq, results, failures⟩ := sorted_analyses run finished
  have distinct : (sorted.results.map SpecialistAnalysisResult.specialist).Nodup :=
    results ▸ nodup_of_inOrder own
  have stable : ∀ kind failure, file SpecialistFailure.specialist sorted.failures (fun _ => none) kind =
      some failure → Stable failure := by
    intro kind failure found
    rcases of_file found with ⟨mem, -⟩ | none_
    · exact sorted.stable failure mem
    · cases none_
  obtain ⟨ordered, eqOrdered, resultsOrdered, failuresOrdered⟩ : ∃ b,
    orderedAnalysisBundle sorted.results sorted.failures = some b ∧
      b.results = inOrder SpecialistKind.order
        (file SpecialistAnalysisResult.specialist sorted.results fun _ => none) ∧
      b.failures = inOrder SpecialistKind.order
        (file SpecialistFailure.specialist sorted.failures fun _ => none) := validate_inOrder stable
  have memOrdered : ∀ r, r ∈ ordered.results ↔ ∃ kind, finalResults s kind = some r := by
    intro r
    rw [resultsOrdered, mem_ordered distinct, results, mem_kinds]
  have distinctOrdered : (ordered.results.map SpecialistAnalysisResult.specialist).Nodup := by
    rw [resultsOrdered]
    exact nodup_of_inOrder (filed_none.file _)
  unfold runSpecialistAnalysis
  rw [eq, Option.bind_some, eqOrdered]
  dsimp only
  rcases persistSpecialistAnalyses_cases ordered.results (List.Nodup.of_map _ distinctOrdered) with
    ⟨interrupted, r, mem, why⟩ | ⟨persisted, auditFailures, audited, audits⟩
  · rw [interrupted]
    obtain ⟨kind, found⟩ := (memOrdered r).1 mem
    exact .inl ⟨rfl, kind, r, found, why⟩
  · rw [audited]
    dsimp only
    have stableAudits : ∀ kind failure,
      file SpecialistFailure.specialist (ordered.failures ++ auditFailures) (fun _ => none) kind =
      some failure →
        Stable failure := by
      intro kind failure found
      rcases of_file found with ⟨mem, -⟩ | none_
      · rcases List.mem_append.1 mem with before | rejected
        · exact ordered.stable failure before
        · exact audits.stable failure rejected
      · cases none_
    obtain ⟨bundle, eqBundle, resultsBundle, failuresBundle⟩ : ∃ b,
      orderedAnalysisBundle persisted (ordered.failures ++ auditFailures) = some b ∧
        b.results = inOrder SpecialistKind.order
          (file SpecialistAnalysisResult.specialist persisted fun _ => none) ∧
        b.failures = inOrder SpecialistKind.order
          (file SpecialistFailure.specialist (ordered.failures ++ auditFailures) fun _ => none) :=
      validate_inOrder stableAudits
    rw [eqBundle]
    refine .inr ⟨bundle, ⟨fun r => ?_, ?_⟩, rfl⟩
    · have kept : (persisted.map SpecialistAnalysisResult.specialist).Nodup :=
        (audits.sublist.map _).nodup distinctOrdered
      rw [resultsBundle, mem_ordered kept, ← memOrdered]
      constructor
      · intro mem
        have within := audits.sublist.subset mem
        exact ⟨within, (audits.kept r within).1 mem⟩
      · rintro ⟨within, stored⟩
        exact (audits.kept r within).2 stored
    · rw [failuresBundle, ordered_eq_nil, List.append_eq_nil_iff, failuresOrdered, ordered_eq_nil, failures,
        kinds_eq_nil, audits.clear]
      refine and_congr_right fun _ =>
        ⟨fun all kind r found => all r ((memOrdered r).2 ⟨kind, found⟩), fun all r mem => ?_⟩
      obtain ⟨kind, found⟩ := (memOrdered r).1 mem
      exact all kind r found

end Run

/-! ## The report of a bundle -/

section Report

variable {setting : AnalysisSetting} {p : AnalysisProcessing} {bundle : SpecialistAnalysisBundle}

/-- A report of the root agent cites what it is told. -/
theorem synthesizePrompt_cited {reader : ModelReader} {agent : RcaAgent} {prompt : String}
    {knownEvidence : List EvidenceReference} {deadline : Timestamp} {attempts : Nat → ModelAttempt}
    {report : RcaReportDraft}
    (h : (agent.synthesizePrompt reader prompt knownEvidence deadline attempts).outcome = .ok report) :
    ∀ reference ∈ report.cited, reference ∈ knownEvidence := by
  have explained : (RcaAgent.dialogue reader knownEvidence prompt).Explains
    (fun index => RcaAgent.exchange deadline (attempts index))
      (agent.synthesizePrompt reader prompt knownEvidence deadline attempts).outcome :=
        Dialogue.explained _ _ _
  rw [h] at explained
  obtain ⟨index, text, -, judged⟩ := explained
  exact (RcaAgent.judge_ok judged).2

theorem canonicalKnown_eq {analyses : List AnalysisObject} {known canonicalKnown : List EvidenceReference}
    {drafts : List SpecialistAnalysisDraft}
    (h : canonicalActiveInputs analyses (known.map .reference) = .ok (drafts, canonicalKnown)) :
    canonicalKnown = known := by
  unfold canonicalActiveInputs at h
  rw [mapM_canonicalReference] at h
  cases read : analyses.mapM canonicalAnalysis with
  | error e =>
    rw [read] at h
    cases h
  | ok canonicalAnalyses =>
    rw [read] at h
    change (if ∃ analysis ∈ canonicalAnalyses, ∃ reference ∈ analysis.cited, reference ∉ known then
      Except.error RootValidationCode.UNKNOWN_EVIDENCE_REFERENCE else .ok (canonicalAnalyses, known)) =
        .ok (drafts, canonicalKnown) at h
    split at h
    · cases h
    · cases h
      rfl

/-- The report the root agent answers cites known references only. -/
theorem rootTranscript_cited {results : List SpecialistAnalysisResult} {report : RcaReportDraft}
    (h : (rootTranscript setting p results).outcome = .ok report) :
    ∀ reference ∈ report.cited, reference ∈ knownReferences results := by
  unfold rootTranscript at h
  dsimp only at h
  split at h
  · exact synthesizePrompt_cited h
  · split at h
    · cases h
    · next drafts canonicalKnown canonical =>
      dsimp only at h
      rw [canonicalKnown_eq canonical] at h
      cases asked : (setting.rootAgent.synthesizePrompt setting.reader (JsonText.dumps setting.reader.options
          (.obj (activePayload setting.context.alertIssue drafts (knownReferences results))))
            (knownReferences results) setting.deadline
          p.attempts).outcome with
      | error e =>
        rw [asked] at h
        cases h
      | ok draft =>
        rw [asked] at h
        cases h
        rw [RcaSynthesizer.withIncompleteSpecialistAnalyses_cited]
        exact synthesizePrompt_cited asked

/-- What is reported of a bundle: over no observations a failure, or that nothing was there to be
asked; over some, what the root agent says, which is complete only over complete analyses without
failures, and cites what the results know. -/
inductive ReportCase (setting : AnalysisSetting) (p : AnalysisProcessing)
    (bundle : SpecialistAnalysisBundle) : Prop where
  | failed (nothing : ∀ r ∈ bundle.results, r.analysis.observations = [])
      (some_ : bundle.failures ≠ [] ∨ bundle.results ≠ []) (report : analysisReport setting p bundle =
        ⟨[], .ok ⟨RcaSynthesizer.failedAnalysis, terminalFailureCode bundle.failures analysisFailureCodes⟩⟩)
  | unasked (none_ : bundle.failures = [] ∧ bundle.results = []) (report : analysisReport setting p bundle =
        ⟨[], .ok ⟨RcaSynthesizer.insufficientEvidence (setting.context.scope.map CloudScope.provider), none⟩⟩)
  | asked (observed : ∃ r ∈ bundle.results, r.analysis.observations ≠ [])
      (report : ∀ o, (analysisReport setting p bundle).outcome = .ok o →
        (o.report.status = .COMPLETE → bundle.failures = [] ∧ ∀ r ∈ bundle.results,
          r.analysis.status = .COMPLETE) ∧
        ∀ reference ∈ o.report.cited, ∃ r ∈ bundle.results, reference ∈ r.knownEvidence)

/-- The report of a bundle is one of the cases of `ReportCase`. -/
theorem analysisReport_cases (setting : AnalysisSetting) (p : AnalysisProcessing)
    (bundle : SpecialistAnalysisBundle) : ReportCase setting p bundle := by
  by_cases nothing : bundle.results.filter (fun result => result.analysis.observations ≠ []) = []
  · have unobserved : ∀ r ∈ bundle.results, r.analysis.observations = [] := by
      intro r mem
      simpa using List.filter_eq_nil_iff.1 nothing r mem
    by_cases some_ : bundle.failures ≠ [] ∨ bundle.results ≠ []
    · refine .failed unobserved some_ ?_
      unfold analysisReport
      rw [if_pos nothing, if_pos some_]
    · refine .unasked ⟨not_not.1 (not_or.1 some_).1, not_not.1 (not_or.1 some_).2⟩ ?_
      unfold analysisReport
      rw [if_pos nothing, if_neg some_]
  · refine .asked ?_ ?_
    · obtain ⟨r, mem⟩ := List.exists_mem_of_ne_nil _ nothing
      obtain ⟨mem, observed⟩ := List.mem_filter.1 mem
      exact ⟨r, mem, of_decide_eq_true observed⟩
    · intro o h
      unfold analysisReport at h
      rw [if_neg nothing] at h
      dsimp only at h
      cases root : (rootTranscript setting p bundle.results).outcome with
      | error e =>
        rw [root] at h
        cases h
      | ok report =>
        rw [root] at h
        cases h
        have cited := rootTranscript_cited root
        constructor
        · intro complete
          dsimp only at complete
          split at complete
          · exact absurd complete RcaSynthesizer.withSpecialistFailures_status
          · next whole =>
            obtain ⟨unfailed, all⟩ := not_or.1 whole
            refine ⟨not_not.1 unfailed, fun r mem => ?_⟩
            by_contra incomplete
            exact all ⟨r, mem, incomplete⟩
        · intro reference mem
          have mem : reference ∈ report.cited := by
            dsimp only at mem
            split at mem
            · rwa [RcaSynthesizer.withSpecialistFailures_cited] at mem
            · exact mem
          obtain ⟨r, hr, known⟩ := List.mem_flatMap.1 (List.mem_eraseDups.1 (cited reference mem))
          exact ⟨r, hr, known⟩

end Report

/-! ## Sound reports -/

/-- Nothing failed, and every specialist that was routed returned a complete analysis with
observations, which was stored. -/
structure AllAnalysed (setting : AnalysisSetting) (p : AnalysisProcessing) (t : EvidenceTables)
    (capabilities : CapabilitySet) (s : State SpecialistKind SpecialistAnalysisResult SpecialistFailure) :
    Prop where
  discovered : ∀ kind, ¬ capabilities.Failed kind
  unfailed : ∀ kind, s.failures kind = none
  analysed : ∀ kind ∈ (route setting.context capabilities).selected, ∃ r, s.results kind = some r ∧
    r.analysis.status = .COMPLETE ∧
    r.analysis.observations ≠ [] ∧ Audited setting p t r

/-- What is promised of a run: a complete report is one over analyses that are all complete and
stored; reports cite evidence of the run; where a specialist was expected and no stored analysis has
observations, the report is a failed one, or the job is tried again before its third attempt; and
where none was expected, the report is partial and no model is asked. -/
structure SoundRun (setting : AnalysisSetting) (p : AnalysisProcessing) (t : EvidenceTables)
    (capabilities : CapabilitySet) (s : State SpecialistKind SpecialistAnalysisResult SpecialistFailure)
    (out : Transcript String ProcessorFault ProcessorRunOutcome) : Prop where
  complete : ∀ report, p.persisted out.outcome = some report → report.status = .COMPLETE →
    AllAnalysed setting p t capabilities s
  cited : ∀ report, p.persisted out.outcome = some report →
    ∀ reference ∈ report.cited, OwnedEvidence setting.rcaRunId t reference
  unobserved : (∃ kind, kind ∈ (route setting.context capabilities).selected ∨ capabilities.Failed kind) →
    (∀ kind r, finalResults s kind = some r → Audited setting p t r → r.analysis.observations = []) →
    (∀ kind r, finalResults s kind = some r → audit setting p t r ≠ .error .database) →
      p.failuresStored = true →
    (∃ o, out.outcome = .ok o ∧ o.report.status = .FAILED) ∨ out.outcome = .error .transient ∧
      setting.attemptNumber < 3
  unexpected : (route setting.context capabilities).selected = [] → (∀ kind, ¬ capabilities.Failed kind) →
    (∀ kind, s.invoked kind = 0) ∧ out.asked = [] ∧
      (p.failuresStored = true → ∃ o, out.outcome = .ok o ∧ o.report.status = .PARTIAL)

section Sound

variable {setting : AnalysisSetting} {p : AnalysisProcessing} {t : EvidenceTables}
  {capabilities : CapabilitySet} {deadline : Timestamp}
  {events : List (SpecialistKind × Event (Option Timestamp) BranchEnd)}
  {s : State SpecialistKind SpecialistAnalysisResult SpecialistFailure}
  {bundle : SpecialistAnalysisBundle} {report : RcaReportDraft}

/-- A report that is persisted is that of the run, or the one of a root agent that failed. -/
theorem of_persisted {outcome : Except ProcessorFault ProcessorRunOutcome}
    (h : p.persisted outcome = some report) :
    (∃ o, outcome = .ok o ∧ o.report = report) ∨ report = RcaSynthesizer.failedAnalysis := by
  unfold AnalysisProcessing.persisted processed at h
  split at h
  · next outcome' eq =>
    split at h
    · cases h
      split at eq
      · cases eq
        exact .inl ⟨_, rfl, rfl⟩
      · cases eq
        exact .inr rfl
      · cases eq
        exact .inr rfl
      · cases eq
        exact .inr rfl
      · cases eq
    · cases h
  · cases h

/-- A report of a run is the report of its bundle. -/
theorem reportBundle_ok {o : ProcessorRunOutcome} (h : (reportBundle setting p bundle).outcome = .ok o) :
    (analysisReport setting p bundle).outcome = .ok o := by
  unfold reportBundle at h
  split at h
  · cases h
  · split at h
    · cases h
    · cases made : (analysisReport setting p bundle).outcome with
      | error e =>
        dsimp only at h
        rw [made] at h
        cases h
      | ok o' =>
        dsimp only at h
        rw [made] at h
        cases h
        rfl

theorem of_finalFailures {kind : SpecialistKind} (h : finalFailures s kind = none) :
    s.failures kind = none ∧ ∀ r, s.results kind = some r →
      ¬ r.analysis.Unusable ∧ finalResults s kind = some r := by
  unfold finalFailures at h
  obtain ⟨moved, unfailed⟩ := Option.or_eq_none_iff.1 h
  refine ⟨unfailed, fun r found => ?_⟩
  have un : ¬ r.analysis.Unusable := by
    intro un
    rw [found, Option.filter_some_pos (by simpa [unusable] using un)] at moved
    cases moved
  refine ⟨un, ?_⟩
  unfold finalResults
  rw [found, Option.filter_some_pos (by simpa [usable] using un)]

/-- A bundle without failures, all of whose analyses are complete, is one of a run that all analysed. -/
theorem allAnalysed (run : runs setting.context capabilities deadline events s) (finished : s.Finished)
    (reported : Reported setting p t s bundle) (unfailed : bundle.failures = [])
    (complete : ∀ r ∈ bundle.results, r.analysis.status = .COMPLETE) :
    AllAnalysed setting p t capabilities s := by
  obtain ⟨clear, audited⟩ := reported.failures.1 unfailed
  have ends := analysisEnd run finished
  refine ⟨fun kind failed => ?_, fun kind => (of_finalFailures (clear kind)).1, fun kind routed => ?_⟩
  · have filed := discoveryFailures_isSome.2 failed
    have none_ := (of_finalFailures (clear kind)).1
    have ended := ends kind
    rw [none_] at ended
    generalize s.results kind = result at ended
    generalize hfailure : (none : Option SpecialistFailure) = failure at ended
    cases ended with
    | returned | unrouted =>
      rw [← hfailure] at filed
      cases filed
    | failed => cases hfailure
  · rcases (ends kind).final (.inl routed) with ⟨r, found⟩ | ⟨f, found⟩
    · have here : s.results kind = some r := (Option.filter_eq_some_iff.1 found).1
      have stored := audited kind r found
      have listed := (reported.results r).2 ⟨⟨kind, found⟩, stored⟩
      have un := ((of_finalFailures (clear kind)).2 r here).1
      exact ⟨r, here, complete r listed, fun none_ => un (.inr none_), stored⟩
    · cases (clear kind).symm.trans found

/-- What a result of the bundle knows is evidence of the run. -/
theorem reported_owned {checks : Checks} (run : runs setting.context capabilities deadline events s)
    (finished : s.Finished) (branches : BranchesOf checks setting.rcaRunId events t)
    (reported : Reported setting p t s bundle) {r : SpecialistAnalysisResult} (mem : r ∈ bundle.results) :
    ∀ reference ∈ r.knownEvidence, OwnedEvidence setting.rcaRunId t reference := by
  obtain ⟨⟨kind, found⟩, -⟩ := (reported.results r).1 mem
  have here : s.results kind = some r := (Option.filter_eq_some_iff.1 found).1
  have ended := analysisEnd run finished kind
  rw [here] at ended
  generalize hresult : some r = result at ended
  generalize s.failures kind = failure at ended
  cases ended with
  | returned r' routed mine event =>
    cases hresult
    obtain ⟨c, ofRun, -, returned, records, specialistRuns⟩ := branches kind (.returned r) (mem_of_own event)
    intro reference known
    have owned := c.owned returned reference known
    rw [ofRun] at owned
    exact owned.mono records specialistRuns
  | failed => cases hresult
  | unrouted => cases hresult

/-- Where a specialist was expected and no stored analysis has observations, the bundle has failures alone. -/
theorem unobserved_bundle (run : runs setting.context capabilities deadline events s)
    (finished : s.Finished) (reported : Reported setting p t s bundle)
    (expected : ∃ kind, kind ∈ (route setting.context capabilities).selected ∨ capabilities.Failed kind)
    (unobserved : ∀ kind r, finalResults s kind = some r → Audited setting p t r →
      r.analysis.observations = []) :
    bundle.results = [] ∧ bundle.failures ≠ [] := by
  have none_ : ∀ kind r, finalResults s kind = some r → ¬ Audited setting p t r := by
    intro kind r found stored
    have used : usable r = true := (Option.filter_eq_some_iff.1 found).2
    have un : ¬ r.analysis.Unusable := by simpa [usable] using used
    exact un (.inr (unobserved kind r found stored))
  constructor
  · refine List.eq_nil_iff_forall_not_mem.2 fun r mem => ?_
    obtain ⟨⟨kind, found⟩, stored⟩ := (reported.results r).1 mem
    exact none_ kind r found stored
  · intro unfailed
    obtain ⟨clear, audited⟩ := reported.failures.1 unfailed
    obtain ⟨kind, expected⟩ := expected
    rcases (analysisEnd run finished kind).final expected with ⟨r, found⟩ | ⟨f, found⟩
    · exact none_ kind r found (audited kind r found)
    · cases (clear kind).symm.trans found

/-- Where no specialist was expected, nothing is filed and no branch was invoked. -/
theorem unexpected_kinds (run : runs setting.context capabilities deadline events s)
    (unrouted : (route setting.context capabilities).selected = [])
    (unfailed : ∀ kind, ¬ capabilities.Failed kind) (kind : SpecialistKind) :
    s.invoked kind = 0 ∧ finalResults s kind = none ∧ finalFailures s kind = none := by
  have slot : s.slot kind = ⟨.finished, 0, none, discoveryFailures capabilities kind⟩ :=
    slot_of_unselected run (by rw [unrouted]; exact List.not_mem_nil)
  have clear : discoveryFailures capabilities kind = none := by
    rw [← Option.not_isSome_iff_eq_none, discoveryFailures_isSome]
    exact unfailed kind
  have results : s.results kind = none := congrArg Slot.result slot
  have failures : s.failures kind = none := (congrArg Slot.failure slot).trans clear
  unfold finalResults finalFailures
  rw [results, failures]
  exact ⟨congrArg Slot.invoked slot, rfl, rfl⟩

/-- A complete report of a bundle is one over analyses that are all complete and stored. -/
theorem reportBundle_complete (run : runs setting.context capabilities deadline events s)
    (finished : s.Finished) (reported : Reported setting p t s bundle)
    (h : p.persisted (reportBundle setting p bundle).outcome = some report)
    (complete : report.status = .COMPLETE) : AllAnalysed setting p t capabilities s := by
  rcases of_persisted h with ⟨o, made, rfl⟩ | rfl
  · have made := reportBundle_ok made
    cases analysisReport_cases setting p bundle with
    | failed _ _ report =>
      rw [report] at made
      cases made
      cases complete
    | unasked _ report =>
      rw [report] at made
      cases made
      cases complete
    | asked _ report =>
      obtain ⟨unfailed, all⟩ := (report o made).1 complete
      exact allAnalysed run finished reported unfailed all
  · cases complete

/-- The report of a bundle cites evidence of the run. -/
theorem reportBundle_cited {checks : Checks} (run : runs setting.context capabilities deadline events s)
    (finished : s.Finished) (branches : BranchesOf checks setting.rcaRunId events t)
    (reported : Reported setting p t s bundle)
    (h : p.persisted (reportBundle setting p bundle).outcome = some report) :
    ∀ reference ∈ report.cited, OwnedEvidence setting.rcaRunId t reference := by
  intro reference mem
  rcases of_persisted h with ⟨o, made, rfl⟩ | rfl
  · have made := reportBundle_ok made
    cases analysisReport_cases setting p bundle with
    | failed _ _ report =>
      rw [report] at made
      cases made
      cases mem
    | unasked _ report =>
      rw [report] at made
      cases made
      cases mem
    | asked _ report =>
      obtain ⟨r, hr, known⟩ := (report o made).2 reference mem
      exact reported_owned run finished branches reported hr reference known
  · cases mem

/-- Where no stored analysis has observations, the job is tried again or the report is a failed one. -/
theorem reportBundle_unobserved (run : runs setting.context capabilities deadline events s)
    (finished : s.Finished) (reported : Reported setting p t s bundle)
    (expected : ∃ kind, kind ∈ (route setting.context capabilities).selected ∨ capabilities.Failed kind)
    (unobserved : ∀ kind r, finalResults s kind = some r → Audited setting p t r →
      r.analysis.observations = []) (stored : p.failuresStored = true) :
    (∃ o, (reportBundle setting p bundle).outcome = .ok o ∧ o.report.status = .FAILED) ∨
      (reportBundle setting p bundle).outcome = .error .transient ∧ setting.attemptNumber < 3 := by
  obtain ⟨none_, failed⟩ := unobserved_bundle run finished reported expected unobserved
  unfold reportBundle
  rw [if_neg (by rw [stored]; exact Bool.noConfusion)]
  by_cases retry : RetryableAnalysisFailure bundle setting.attemptNumber
  · rw [if_pos retry]
    exact .inr ⟨rfl, retry.1⟩
  · rw [if_neg retry]
    cases analysisReport_cases setting p bundle with
    | failed _ _ report =>
      rw [report]
      exact .inl ⟨_, rfl, rfl⟩
    | unasked empty => exact absurd empty.1 failed
    | asked observed =>
      obtain ⟨r, mem, -⟩ := observed
      rw [none_] at mem
      cases mem

/-- Where no specialist was expected, the bundle is empty. -/
theorem unexpected_bundle (run : runs setting.context capabilities deadline events s)
    (reported : Reported setting p t s bundle)
    (unrouted : (route setting.context capabilities).selected = [])
    (unfailed : ∀ kind, ¬ capabilities.Failed kind) :
    bundle.results = [] ∧ bundle.failures = [] := by
  have kinds := unexpected_kinds run unrouted unfailed
  constructor
  · refine List.eq_nil_iff_forall_not_mem.2 fun r mem => ?_
    obtain ⟨⟨kind, found⟩, -⟩ := (reported.results r).1 mem
    cases (kinds kind).2.1.symm.trans found
  · refine reported.failures.2 ⟨fun kind => (kinds kind).2.2, fun kind r found => ?_⟩
    cases (kinds kind).2.1.symm.trans found

/-- Over an empty bundle no model is asked, and the report is partial. -/
theorem reportBundle_empty (results : bundle.results = []) (failures : bundle.failures = []) :
    (reportBundle setting p bundle).asked = [] ∧
      (p.failuresStored = true → ∃ o, (reportBundle setting p bundle).outcome = .ok o ∧
        o.report.status = .PARTIAL) := by
  have retry : ¬ RetryableAnalysisFailure bundle setting.attemptNumber := fun retry => retry.2.2.1 failures
  unfold reportBundle
  rw [if_neg retry]
  cases analysisReport_cases setting p bundle with
  | failed _ some_ =>
    rcases some_ with failed | observed
    · exact absurd failures failed
    · exact absurd results observed
  | unasked _ report =>
    rw [report]
    constructor
    · split <;> rfl
    · intro stored
      rw [if_neg (by rw [stored]; exact Bool.noConfusion)]
      exact ⟨_, rfl, rfl⟩
  | asked observed =>
    obtain ⟨r, mem, -⟩ := observed
    rw [results] at mem
    cases mem

end Sound

/-- Every run of the processor with specialist analyses is sound. -/
theorem analysed_report_sound {setting : AnalysisSetting} {capabilities : CapabilitySet}
    {deadline : Timestamp} {checks : Checks}
    {events : List (SpecialistKind × Event (Option Timestamp) BranchEnd)}
    {s : State SpecialistKind SpecialistAnalysisResult SpecialistFailure} {t : EvidenceTables}
    (run : runs setting.context capabilities deadline events s) (finished : s.Finished)
    (branches : BranchesOf checks setting.rcaRunId events t) (p : AnalysisProcessing) :
    SoundRun setting p t capabilities s (runSpecialistAnalysis setting p t
      (analyses setting.context capabilities s)) := by
  rcases runSpecialistAnalysis_cases run finished with ⟨eq, kind, r, found, interrupted⟩ |
    ⟨bundle, reported, eq⟩
  · rw [eq]
    have nothing : p.persisted (.error .database) = none := rfl
    refine ⟨fun report h => ?_, fun report h => ?_,
      fun _ _ decided => absurd interrupted (decided kind r found), fun unrouted unfailed => ?_⟩
    · cases nothing.symm.trans h
    · cases nothing.symm.trans h
    · cases (unexpected_kinds run unrouted unfailed kind).2.1.symm.trans found
  · rw [eq]
    refine ⟨fun report => reportBundle_complete run finished reported,
      fun report => reportBundle_cited run finished branches reported,
      fun expected unobserved _ => reportBundle_unobserved run finished reported expected unobserved,
      fun unrouted unfailed => ?_⟩
    obtain ⟨results, failures⟩ := unexpected_bundle run reported unrouted unfailed
    exact ⟨fun kind => (unexpected_kinds run unrouted unfailed kind).1, reportBundle_empty results failures⟩

/-! ## A complete report -/

/-- A tool of the metrics endpoint. -/
def metricsRouted : CapabilitySet :=
  ⟨[(.METRICS, [⟨"metrics.query", "metrics.query", .METRICS, .obj []⟩])], []⟩

/-- The branch of the metrics, which finds the evidence of a commit that was lost. -/
def latencyCall : BranchCall where
  found := attempts plainChecks (Branch.start [] []) (lostCommit.take 1)
  attempt := latencyAttempt [.done [], .done [], .clock (some 3), .done []]
    [⟨.collect, [.clock (some 4), .clock (some 4), .done [], .clock (some 4), .clock (some 4),
      .clock (some 4), .clock (some 4)]⟩]
  analysis := some ⟨.METRICS, .COMPLETE, [⟨"latency doubled", .finite (1 / 2), .SUPPORTS, [⟨7⟩]⟩], []⟩
  exception := connectionReset

/-- What the branch returns. -/
def latencyAnalysed : List (SpecialistKind × Event (Option Timestamp) BranchEnd) :=
  [(.METRICS, .reading (some 0)), (.METRICS, .ended (latencyCall.invoke plainChecks).1)]

def latencyTables : EvidenceTables :=
  ⟨(latencyCall.invoke plainChecks).2.specialistRuns, (latencyCall.invoke plainChecks).2.records⟩

def latencyAnalysis : AnalysisSetting :=
  { latencySetting with
    mode := .ACTIVE
    modelName := "root"
    skillName := fun kind => kind.value
    skillSha256 := fun _ => "" }

/-- The root model answers at once, and everything is stored. -/
def latencyProcessing : AnalysisProcessing := ⟨fun _ => false, true, answersComplete.attempts, fun _ => true⟩

/-- The run finishes, and the report that is stored is complete. -/
theorem latency_analysed : ∃ s, runs slowCheckout metricsRouted 100 latencyAnalysed s ∧ s.Finished ∧
    (latencyProcessing.persisted (runSpecialistAnalysis latencyAnalysis latencyProcessing latencyTables
      (analyses slowCheckout metricsRouted s)).outcome).map RcaReportDraft.status = some .COMPLETE := by
  have ended : ((tasks (invoke 100)).exec (startAnalyses slowCheckout metricsRouted) latencyAnalysed).map
    (fun s =>
      (SpecialistKind.order.map s.tasks,
        (latencyProcessing.persisted (runSpecialistAnalysis latencyAnalysis latencyProcessing latencyTables
        (analyses slowCheckout metricsRouted s)).outcome).map RcaReportDraft.status)) =
      some ([.finished, .finished, .finished], some .COMPLETE) := by
    decide +kernel
  obtain ⟨s, run, observed⟩ := Option.map_eq_some_iff.1 ended
  obtain ⟨tasks, status⟩ : _ ∧ _ := by simpa only [Prod.mk.injEq] using observed
  exact ⟨s, run, finished_of_tasks tasks, status⟩

theorem latency_branches : BranchesOf plainChecks 2 latencyAnalysed latencyTables := by
  intro kind e mem
  rcases List.mem_pair.1 mem with same | same
  · cases same
  · cases same
    exact ⟨latencyCall, rfl, rfl, rfl, List.Subset.refl _, List.Subset.refl _⟩

theorem latency_report_sound : ∃ s, runs slowCheckout metricsRouted 100 latencyAnalysed s ∧
    SoundRun latencyAnalysis latencyProcessing latencyTables metricsRouted s
      (runSpecialistAnalysis latencyAnalysis latencyProcessing latencyTables
        (analyses slowCheckout metricsRouted s)) ∧
    (latencyProcessing.persisted (runSpecialistAnalysis latencyAnalysis latencyProcessing latencyTables
      (analyses slowCheckout metricsRouted s)).outcome).map RcaReportDraft.status = some .COMPLETE := by
  obtain ⟨s, run, finished, status⟩ := latency_analysed
  have at_setting : runs latencyAnalysis.context metricsRouted 100 latencyAnalysed s := run
  exact ⟨s, run, analysed_report_sound at_setting finished latency_branches latencyProcessing, status⟩

end SreAgent.Rca
