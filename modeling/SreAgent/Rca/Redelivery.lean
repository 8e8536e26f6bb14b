import SreAgent.Base.History
import SreAgent.Rca.Storing

/-!
# Evidence of the attempts of a job

A job is attempted again after a crash, a failure or a takeover. Where specialist analyses are enabled an
attempt reads the evidence that is there; where they are not, it stores what it collects once more.
-/

namespace SreAgent.Rca
open Base

/-! ## The steps of a job -/

/-- What the attempts of a job do to the evidence: an attempt at a branch, or the transaction of a
bundle, after which an attempt may end anywhere; before it, other transactions commit rows. -/
inductive CollectionStep where
  | branch (a : Attempt)
  | bundle (meanwhile : List EvidenceRecord) (answers : BundleAnswers) (results : List SpecialistResult)

/-- The transaction of a bundle, on the tables of a branch. -/
def Branch.storeBundle (rcaRunId : Uuid) (answers : BundleAnswers) (results : List SpecialistResult)
    (b : Branch) : Branch :=
  let t := (persistBundle rcaRunId answers results ⟨b.specialistRuns, b.records⟩).2
  { b with
    specialistRuns := t.specialistRuns
    records := t.records
    collections := b.collections ++ results.map SpecialistResult.drafts }

/-- The attempts of a job, in its mode. -/
def collecting (checks : Checks) (rcaRunId : Uuid) (mode : SpecialistAnalysisMode) :
    System Branch CollectionStep where
  init b := b.records = []
  step b
    | .branch a => if mode = .DISABLED then none else some (a.run checks b)
    | .bundle meanwhile answers results =>
      if mode = .DISABLED then some ((b.meanwhile meanwhile).storeBundle rcaRunId answers results) else none

/-- The step concerns the branch: an attempt is at it, a bundle has one result for each kind, and
nothing else is of its specialist run, whose identifier is generated for no other. -/
def CollectionStep.At (rcaRunId specialistRunId : Uuid) (kind : SpecialistKind) : CollectionStep → Prop
  | .branch a => a.At rcaRunId specialistRunId kind
  | .bundle meanwhile answers results => (∀ row ∈ meanwhile, ¬ row.Of rcaRunId specialistRunId) ∧
      (results.map SpecialistResult.specialist).Nodup ∧ ∀ other, other ≠ kind →
        answers.specialistRunIds other ≠ specialistRunId

/-- A transaction of a bundle that is committed, with evidence of the kind, finds none. -/
def CollectionStep.Fresh (rcaRunId specialistRunId : Uuid) (kind : SpecialistKind) (b : Branch) :
    CollectionStep → Prop
  | .branch _ => True
  | .bundle _ answers results => StorableResults results → answers.interrupted = false →
      (∃ result ∈ results, result.specialist = kind ∧ result.drafts ≠ []) →
        evidenceOf rcaRunId specialistRunId b.records = []

/-! ## A bundle -/

/-- The identifier is of one specialist run alone. -/
def OwnId (rcaRunId specialistRunId : Uuid) (kind : SpecialistKind) (runs : List SpecialistRun) : Prop :=
  ∀ run ∈ runs, run.id = specialistRunId → run.rcaRunId = rcaRunId ∧ run.specialist = kind

/-- The results that are filed under a specialist run. -/
def filedUnder (specialistRunId : Uuid) (owned : List (Uuid × SpecialistResult)) : List SpecialistResult :=
  (owned.filter fun o => o.1 = specialistRunId).map Prod.snd

section Filing

variable {rcaRunId specialistRunId : Uuid} {kind other : SpecialistKind} {newIds : SpecialistKind → Uuid}
  {runs : List SpecialistRun}

theorem filedUnder_cons_of_ne {o : Uuid × SpecialistResult} (ne : o.1 ≠ specialistRunId)
    (owned : List (Uuid × SpecialistResult)) :
    filedUnder specialistRunId (o :: owned) = filedUnder specialistRunId owned := by
  unfold filedUnder
  rw [List.filter_cons_of_neg (by simpa using ne)]

theorem filedUnder_cons_of_eq {o : Uuid × SpecialistResult} (same : o.1 = specialistRunId)
    (owned : List (Uuid × SpecialistResult)) :
    filedUnder specialistRunId (o :: owned) = o.2 :: filedUnder specialistRunId owned := by
  unfold filedUnder
  rw [List.filter_cons_of_pos (by simpa using same), List.map_cons]

/-- A specialist run of another kind gets another identifier. -/
theorem upsertSpecialistRun_ne (own : OwnId rcaRunId specialistRunId kind runs) (ne : other ≠ kind)
    (new : newIds other ≠ specialistRunId) :
    (upsertSpecialistRun rcaRunId other (newIds other) runs).1 ≠ specialistRunId := by
  unfold upsertSpecialistRun
  split
  · next run found =>
    intro same
    have ofKind := (own run (List.mem_of_find?_eq_some found) same).2
    have holds :=
      List.find?_some (p := fun run : SpecialistRun =>
        decide (run.rcaRunId = rcaRunId ∧ run.specialist = other)) found
    exact ne ((of_decide_eq_true holds).2.symm.trans ofKind)
  · exact new

theorem upsertSpecialistRun_own (own : OwnId rcaRunId specialistRunId kind runs)
    (new : other ≠ kind → newIds other ≠ specialistRunId) :
    OwnId rcaRunId specialistRunId kind (upsertSpecialistRun rcaRunId other (newIds other) runs).2 := by
  unfold upsertSpecialistRun
  split
  · exact own
  · intro run mem same
    rcases List.mem_append.1 mem with before | added
    · exact own run before same
    · cases List.mem_singleton.1 added
      refine ⟨rfl, ?_⟩
      by_contra ne
      exact new ne same

theorem upsertSpecialistRun_found {run : SpecialistRun}
    (found : findSpecialistRun rcaRunId kind runs = some run) :
    findSpecialistRun rcaRunId kind (upsertSpecialistRun rcaRunId other (newIds other) runs).2 =
      some run := by
  unfold upsertSpecialistRun
  split
  · exact found
  · exact findSpecialistRun_append found

/-- After its upsert a specialist run is found. -/
theorem upsertSpecialistRun_finds (rcaRunId : Uuid) (kind : SpecialistKind) (newIds : SpecialistKind → Uuid)
    (runs : List SpecialistRun) :
    ∃ run, findSpecialistRun rcaRunId kind (upsertSpecialistRun rcaRunId kind (newIds kind) runs).2 =
      some run ∧
    run.id = (upsertSpecialistRun rcaRunId kind (newIds kind) runs).1 := by
  unfold upsertSpecialistRun
  split
  · next run found => exact ⟨run, found, rfl⟩
  · next absent =>
    refine ⟨⟨newIds kind, rcaRunId, kind⟩, ?_, rfl⟩
    unfold findSpecialistRun at absent ⊢
    rw [List.find?_append, absent]
    simp

/-- A specialist run that is found stays found after several upserts. -/
theorem upsertSpecialistRuns_found {results : List SpecialistResult} {run : SpecialistRun}
    (found : findSpecialistRun rcaRunId kind runs = some run) :
    findSpecialistRun rcaRunId kind (upsertSpecialistRuns rcaRunId newIds results runs).2 = some run := by
  induction results generalizing runs with
  | nil => exact found
  | cons result results ih => exact ih (upsertSpecialistRun_found found)

/-- Of results of other kinds none is filed. -/
theorem filedUnder_others {results : List SpecialistResult} (own : OwnId rcaRunId specialistRunId kind runs)
    (new : ∀ other, other ≠ kind → newIds other ≠ specialistRunId)
    (others : ∀ result ∈ results, result.specialist ≠ kind) :
    filedUnder specialistRunId (upsertSpecialistRuns rcaRunId newIds results runs).1 = [] ∧
      OwnId rcaRunId specialistRunId kind (upsertSpecialistRuns rcaRunId newIds results runs).2 := by
  induction results generalizing runs with
  | nil => exact ⟨rfl, own⟩
  | cons result results ih =>
    have ne := others result List.mem_cons_self
    obtain ⟨rest, owned⟩ :=
      ih (upsertSpecialistRun_own own (new result.specialist)) fun r mem =>
        others r (List.mem_cons_of_mem result mem)
    refine ⟨?_, owned⟩
    exact (filedUnder_cons_of_ne (upsertSpecialistRun_ne own ne (new _ ne)) _).trans rest

/-- Of the results of a bundle at most that of the kind is filed, and that is where its specialist run
was there before; where one is, its specialist run is found after. -/
structure Files (rcaRunId specialistRunId : Uuid) (kind : SpecialistKind) (results : List SpecialistResult)
    (runs runs' : List SpecialistRun) (filed : List SpecialistResult) : Prop where
  none_or_one : filed = [] ∨ (∃ result ∈ results, result.specialist = kind ∧ filed = [result]) ∧
    ∃ run, findSpecialistRun rcaRunId kind runs' = some run ∧ run.id = specialistRunId
  one : ∀ run, findSpecialistRun rcaRunId kind runs = some run → run.id = specialistRunId →
    ∀ result ∈ results, result.specialist = kind → filed = [result]
  kept : ∀ run, findSpecialistRun rcaRunId kind runs = some run →
    findSpecialistRun rcaRunId kind runs' = some run
  own : OwnId rcaRunId specialistRunId kind runs'

/-- The upserts file the results of a kind under its specialist run. -/
theorem files_upserted {results : List SpecialistResult} (own : OwnId rcaRunId specialistRunId kind runs)
    (new : ∀ other, other ≠ kind → newIds other ≠ specialistRunId)
    (kinds : (results.map SpecialistResult.specialist).Nodup) :
    Files rcaRunId specialistRunId kind results runs (upsertSpecialistRuns rcaRunId newIds results runs).2
      (filedUnder specialistRunId (upsertSpecialistRuns rcaRunId newIds results runs).1) := by
  induction results generalizing runs with
  | nil => exact ⟨.inl rfl, fun _ _ _ _ mem => (by cases mem), fun _ found => found, own⟩
  | cons result results ih =>
    have own' := upsertSpecialistRun_own own (new result.specialist)
    obtain ⟨absent, kinds⟩ := List.nodup_cons.1 kinds
    unfold upsertSpecialistRuns
    dsimp only
    by_cases ofKind : result.specialist = kind
    · subst ofKind
      have others : ∀ r ∈ results, r.specialist ≠ result.specialist :=
        fun r mem same => absent (same ▸ List.mem_map_of_mem mem)
      obtain ⟨rest, owned⟩ := filedUnder_others own' new others
      by_cases same : (upsertSpecialistRun rcaRunId result.specialist (newIds result.specialist) runs).1 =
        specialistRunId
      · rw [filedUnder_cons_of_eq same, rest]
        obtain ⟨run, found, id⟩ := upsertSpecialistRun_finds rcaRunId result.specialist newIds runs
        refine ⟨.inr ⟨⟨result, List.mem_cons_self, rfl, rfl⟩, run, upsertSpecialistRuns_found found,
          id.trans same⟩, ?_,
          fun run found => upsertSpecialistRuns_found (upsertSpecialistRun_found found), owned⟩
        intro run' _ _ r mem ofKind
        rcases List.mem_cons.1 mem with rfl | later
        · rfl
        · exact absurd ofKind (others r later)
      · rw [filedUnder_cons_of_ne same, rest]
        refine ⟨.inl rfl, ?_, fun run found =>
          upsertSpecialistRuns_found (upsertSpecialistRun_found found), owned⟩
        intro run found id
        refine absurd ?_ same
        unfold upsertSpecialistRun
        rw [found]
        exact id
    · obtain ⟨none_or_one, one, kept, owned⟩ := ih own' kinds
      rw [filedUnder_cons_of_ne (upsertSpecialistRun_ne own ofKind (new _ ofKind))]
      refine ⟨none_or_one.imp_right ?_, ?_,
        fun run found => kept run (upsertSpecialistRun_found found), owned⟩
      · rintro ⟨⟨r, mem, same⟩, found⟩
        exact ⟨⟨r, List.mem_cons_of_mem result mem, same⟩, found⟩
      intro run found id r mem same
      rcases List.mem_cons.1 mem with rfl | later
      · exact absurd same ofKind
      · exact one run (upsertSpecialistRun_found found) id r later same

end Filing

section Rows

variable {rcaRunId specialistRunId : Uuid} {newIds : Nat → Uuid}

/-- The rows of a specialist run are those of its drafts. -/
theorem evidenceOf_saved (saved : List Saved) (start : Nat) :
    DraftedFor rcaRunId specialistRunId ((saved.filter fun x => x.specialistRunId = specialistRunId).map
      Saved.draft)
      (evidenceOf rcaRunId specialistRunId
        ((saved.zipIdx start).map fun (x, index) =>
          x.draft.record rcaRunId x.specialistRunId (newIds index))) := by
  induction saved generalizing start with
  | nil => exact .nil
  | cons x saved ih =>
    rw [List.zipIdx_cons, List.map_cons]
    unfold evidenceOf
    by_cases same : x.specialistRunId = specialistRunId
    · have of : (x.draft.record rcaRunId x.specialistRunId (newIds start)).Of rcaRunId specialistRunId :=
        ⟨rfl, same⟩
      rw [List.filter_cons_of_pos (by simpa using same), List.filter_cons_of_pos (by simpa using of),
        List.map_cons]
      refine .cons ?_ (ih (start + 1))
      rw [← same]
      rfl
    · have other : ¬ (x.draft.record rcaRunId x.specialistRunId (newIds start)).Of rcaRunId specialistRunId :=
        fun of => same of.2
      rw [List.filter_cons_of_neg (by simpa using same), List.filter_cons_of_neg (by simpa using other)]
      exact ih (start + 1)

/-- The drafts of a specialist run are those of the results that are filed under it. -/
theorem drafts_of_owned (owned : List (Uuid × SpecialistResult)) :
    ((savedDrafts owned).filter fun x => x.specialistRunId = specialistRunId).map Saved.draft =
      (filedUnder specialistRunId owned).flatMap SpecialistResult.drafts := by
  induction owned with
  | nil => rfl
  | cons o owned ih =>
    have parts : savedDrafts (o :: owned) =
      (o.2.findings.flatMap fun finding => finding.evidence.map fun draft =>
        (⟨o.1, o.2.specialist, finding, draft⟩ : Saved)) ++ savedDrafts owned := rfl
    have ofRun : ∀ x ∈ (o.2.findings.flatMap fun finding => finding.evidence.map fun draft =>
      (⟨o.1, o.2.specialist, finding, draft⟩ : Saved)),
        x.specialistRunId = o.1 := by
      intro x mem
      obtain ⟨finding, -, mem⟩ := List.mem_flatMap.1 mem
      obtain ⟨draft, -, rfl⟩ := List.mem_map.1 mem
      rfl
    have drafts : (o.2.findings.flatMap fun finding => finding.evidence.map fun draft =>
      (⟨o.1, o.2.specialist, finding, draft⟩ : Saved)).map
        Saved.draft = o.2.drafts := by
      unfold SpecialistResult.drafts
      rw [List.map_flatMap]
      refine congrArg (fun f => List.flatMap f o.2.findings) (funext fun finding => ?_)
      rw [List.map_map]
      exact List.map_id _
    rw [parts, List.filter_append, List.map_append, ih]
    by_cases same : o.1 = specialistRunId
    · rw [filedUnder_cons_of_eq same, List.flatMap_cons,
        List.filter_eq_self.2 (fun x mem => decide_eq_true ((ofRun x mem).trans same)), drafts]
    · rw [filedUnder_cons_of_ne same,
        List.filter_eq_nil_iff.2 (fun x mem of => same ((ofRun x mem).symm.trans (of_decide_eq_true of)))]
      rfl

end Rows

section Bundle

variable {rcaRunId specialistRunId : Uuid} {kind : SpecialistKind} {answers : BundleAnswers}
  {results : List SpecialistResult} {b : Branch}

/-- What the transaction of a bundle does to a branch: nothing, or it adds the rows of the result that
is filed under its specialist run. -/
inductive Bundled (rcaRunId specialistRunId : Uuid) (kind : SpecialistKind) (answers : BundleAnswers)
    (results : List SpecialistResult) (b b' : Branch) : Prop where
  | rolledBack (failed : ¬ (StorableResults results ∧ answers.interrupted = false))
      (records : b'.records = b.records) (specialistRuns : b'.specialistRuns = b.specialistRuns)
  | committed (stored : StorableResults results ∧ answers.interrupted = false)
      (filed : List SpecialistResult) (rows : List EvidenceRecord)
      (drafted : DraftedFor rcaRunId specialistRunId (filed.flatMap SpecialistResult.drafts)
        (evidenceOf rcaRunId specialistRunId rows)) (records : b'.records = b.records ++ rows)
      (files : Files rcaRunId specialistRunId kind results b.specialistRuns b'.specialistRuns filed)

/-- A bundle is stored whole, or not at all. -/
theorem storeBundle_cases (own : OwnId rcaRunId specialistRunId kind b.specialistRuns)
    (new : ∀ other, other ≠ kind → answers.specialistRunIds other ≠ specialistRunId)
    (kinds : (results.map SpecialistResult.specialist).Nodup) :
    Bundled rcaRunId specialistRunId kind answers results b (b.storeBundle rcaRunId answers results) := by
  by_cases stored : StorableResults results ∧ answers.interrupted = false
  · have begun : ¬ (¬ StorableResults results ∨ answers.interrupted = true) := by
      rintro (unstorable | interrupted)
      · exact unstorable stored.1
      · cases stored.2.symm.trans interrupted
    have t : (persistBundle rcaRunId answers results ⟨b.specialistRuns, b.records⟩).2 =
        ⟨(upsertSpecialistRuns rcaRunId answers.specialistRunIds results b.specialistRuns).2,
          b.records ++ savedRecords rcaRunId answers.evidenceIds
          (savedDrafts (upsertSpecialistRuns rcaRunId answers.specialistRunIds results
            b.specialistRuns).1)⟩ := by
      unfold persistBundle
      dsimp only
      rw [if_neg begun]
      split <;> rfl
    refine .committed stored
      (filedUnder specialistRunId
        (upsertSpecialistRuns rcaRunId answers.specialistRunIds results b.specialistRuns).1)
      (savedRecords rcaRunId answers.evidenceIds
        (savedDrafts (upsertSpecialistRuns rcaRunId answers.specialistRunIds results b.specialistRuns).1))
      ?_ ?_ ?_
    · rw [← drafts_of_owned]
      exact evidenceOf_saved _ 0
    · exact congrArg EvidenceTables.records t
    · rw [show (b.storeBundle rcaRunId answers results).specialistRuns = _
        from congrArg EvidenceTables.specialistRuns t]
      exact files_upserted own new kinds
  · have t : (persistBundle rcaRunId answers results ⟨b.specialistRuns, b.records⟩).2 =
        ⟨b.specialistRuns, b.records⟩ := by
      unfold persistBundle
      dsimp only
      rw [if_pos]
      · by_contra begun
        obtain ⟨storable, running⟩ := not_or.1 begun
        exact stored ⟨not_not.1 storable, eq_false_of_ne_true running⟩
    exact .rolledBack stored (congrArg EvidenceTables.records t) (congrArg EvidenceTables.specialistRuns t)

end Bundle

/-! ## Histories of a job -/

/-- Evidence is collected once: in every state of the history it is none or that of one collection,
and a step that finds some leaves it. -/
structure CollectedOnce (S : System Branch CollectionStep) (rcaRunId specialistRunId : Uuid) (b₀ : Branch)
    (steps : List CollectionStep) : Prop where
  one : S.Along (fun b => evidenceOf rcaRunId specialistRunId b.records = [] ∨
    ∃ drafts ∈ b.collections, DraftedFor rcaRunId specialistRunId drafts
      (evidenceOf rcaRunId specialistRunId b.records)) b₀ steps
  kept : S.StepsAlong (fun b step => evidenceOf rcaRunId specialistRunId b.records ≠ [] →
    ∀ b', S.step b step = some b' →
    evidenceOf rcaRunId specialistRunId b'.records = evidenceOf rcaRunId specialistRunId b.records) b₀ steps

/-- What the steps of a job keep; only bundles need the identifier to be of no other specialist run. -/
structure Carried (mode : SpecialistAnalysisMode) (rcaRunId specialistRunId : Uuid) (kind : SpecialistKind)
    (b : Branch) : Prop where
  stored : Stored rcaRunId specialistRunId kind b
  own : mode = .DISABLED → OwnId rcaRunId specialistRunId kind b.specialistRuns

section History

variable {checks : Checks} {mode : SpecialistAnalysisMode} {rcaRunId specialistRunId : Uuid}
  {kind : SpecialistKind} {b b' : Branch}

/-- A bundle that finds evidence adds none exactly if it has none. -/
theorem bundle_step {meanwhile : List EvidenceRecord} {answers : BundleAnswers}
    {results : List SpecialistResult}
    (at_ : (CollectionStep.bundle meanwhile answers results).At rcaRunId specialistRunId kind)
    (inv : Carried .DISABLED rcaRunId specialistRunId kind b)
    (h : b' = (b.meanwhile meanwhile).storeBundle rcaRunId answers results) :
    ((CollectionStep.bundle meanwhile answers results).Fresh rcaRunId specialistRunId kind b →
      Carried .DISABLED rcaRunId specialistRunId kind b') ∧
    ((evidenceOf rcaRunId specialistRunId b.records ≠ [] →
        evidenceOf rcaRunId specialistRunId b'.records = evidenceOf rcaRunId specialistRunId b.records) ↔
      (CollectionStep.bundle meanwhile answers results).Fresh rcaRunId specialistRunId kind b) := by
  obtain ⟨foreign, kinds, new⟩ := at_
  have before : evidenceOf rcaRunId specialistRunId (b.meanwhile meanwhile).records =
      evidenceOf rcaRunId specialistRunId b.records := by
    have none_ : evidenceOf rcaRunId specialistRunId meanwhile = [] :=
      List.filter_eq_nil_iff.2 fun row mem of => foreign row mem (of_decide_eq_true of)
    rw [Branch.meanwhile, evidenceOf_append, none_, List.append_nil]
  have collections : b'.collections = b.collections ++ results.map SpecialistResult.drafts := by
    rw [h]
    rfl
  have older : ∀ {drafts}, drafts ∈ b.collections → drafts ∈ b'.collections :=
    fun mem => collections ▸ List.mem_append_left _ mem
  have bundled : Bundled rcaRunId specialistRunId kind answers results (b.meanwhile meanwhile) b' :=
    h ▸ storeBundle_cases (inv.own rfl) new kinds
  cases bundled with
  | rolledBack failed records specialistRuns =>
    have same : evidenceOf rcaRunId specialistRunId b'.records =
        evidenceOf rcaRunId specialistRunId b.records := by rw [records, before]
    refine ⟨fun _ => ⟨?_, fun _ => specialistRuns ▸ inv.own rfl⟩,
      fun _ storable running => absurd ⟨storable, running⟩ failed, fun _ _ => same⟩
    unfold Stored
    rw [same, specialistRuns]
    refine inv.stored.imp_right ?_
    rintro ⟨⟨drafts, mem, drafted⟩, found⟩
    exact ⟨⟨drafts, older mem, drafted⟩, found⟩
  | committed stored filed rows drafted records files =>
    have after : evidenceOf rcaRunId specialistRunId b'.records =
        evidenceOf rcaRunId specialistRunId b.records ++ evidenceOf rcaRunId specialistRunId rows := by
      rw [records, evidenceOf_append, before]
    have still (none_ : evidenceOf rcaRunId specialistRunId rows = []) :
        Stored rcaRunId specialistRunId kind b' ∧ evidenceOf rcaRunId specialistRunId b'.records =
          evidenceOf rcaRunId specialistRunId b.records := by
      rw [none_, List.append_nil] at after
      refine ⟨?_, after⟩
      unfold Stored
      rw [after]
      refine inv.stored.imp_right ?_
      rintro ⟨⟨drafts, mem, drafted⟩, run, found, id⟩
      exact ⟨⟨drafts, older mem, drafted⟩, run, files.kept run found, id⟩
    have unfiled (nothing : filed.flatMap SpecialistResult.drafts = []) :
        evidenceOf rcaRunId specialistRunId rows = [] := by
      rw [nothing] at drafted
      exact List.forall₂_nil_left_iff.1 drafted
    have single (some_ : filed.flatMap SpecialistResult.drafts ≠ []) : ∃ result ∈ results,
      result.specialist = kind ∧ filed = [result] ∧
        result.drafts ≠ [] ∧ ∃ run, findSpecialistRun rcaRunId kind b'.specialistRuns = some run ∧
          run.id = specialistRunId := by
      rcases files.none_or_one with rfl | ⟨⟨result, mem, ofKind, rfl⟩, found⟩
      · exact absurd rfl some_
      · rw [List.flatMap_cons, List.flatMap_nil, List.append_nil] at some_
        exact ⟨result, mem, ofKind, rfl, some_, found⟩
    refine ⟨fun fresh => ⟨?_, fun _ => files.own⟩, fun kept storable running full => ?_,
      fun fresh present => ?_⟩
    · by_cases nothing : filed.flatMap SpecialistResult.drafts = []
      · exact (still (unfiled nothing)).1
      · obtain ⟨result, mem, ofKind, rfl, some_, found⟩ := single nothing
        have none_ := fresh stored.1 stored.2 ⟨result, mem, ofKind, some_⟩
        rw [List.flatMap_cons, List.flatMap_nil, List.append_nil] at drafted
        rw [none_, List.nil_append] at after
        refine .inr ⟨⟨result.drafts, ?_, after ▸ drafted⟩, found⟩
        rw [collections]
        exact List.mem_append_right _ (List.mem_map_of_mem mem)
    · obtain ⟨result, mem, ofKind, some_⟩ := full
      by_contra present
      obtain ⟨-, run, found, id⟩ := inv.stored.resolve_left present
      have one : filed = [result] := files.one run found id result mem ofKind
      subst one
      have none_ : evidenceOf rcaRunId specialistRunId rows = [] := by
        have same := after.symm.trans (kept present)
        exact List.append_right_eq_self.1 same
      rw [none_, List.flatMap_cons, List.flatMap_nil, List.append_nil] at drafted
      exact some_ (List.forall₂_nil_right_iff.1 drafted)
    · by_cases nothing : filed.flatMap SpecialistResult.drafts = []
      · exact (still (unfiled nothing)).2
      · obtain ⟨result, mem, ofKind, -, some_, -⟩ := single nothing
        exact absurd (fresh stored.1 stored.2 ⟨result, mem, ofKind, some_⟩) present

/-- A step keeps what is carried where a bundle is fresh, and it is where the step leaves the evidence
it finds. -/
theorem collecting_step {step : CollectionStep} (at_ : step.At rcaRunId specialistRunId kind)
    (inv : Carried mode rcaRunId specialistRunId kind b)
    (h : (collecting checks rcaRunId mode).step b step = some b') :
    (step.Fresh rcaRunId specialistRunId kind b → Carried mode rcaRunId specialistRunId kind b') ∧
    ((evidenceOf rcaRunId specialistRunId b.records ≠ [] →
        evidenceOf rcaRunId specialistRunId b'.records = evidenceOf rcaRunId specialistRunId b.records) ↔
      step.Fresh rcaRunId specialistRunId kind b) := by
  cases step with
  | branch a =>
    by_cases disabled : mode = .DISABLED
    · rw [show (collecting checks rcaRunId mode).step b (.branch a) = none from if_pos disabled] at h
      cases h
    · rw [show (collecting checks rcaRunId mode).step b (.branch a) = some (a.run checks b)
        from if_neg disabled] at h
      cases h
      obtain ⟨taken, stored⟩ : EvidenceStep rcaRunId specialistRunId b (a.run checks b) ∧
          Stored rcaRunId specialistRunId kind (a.run checks b) :=
        run_step at_ inv.stored
      refine ⟨fun _ => ⟨stored, fun off => absurd off disabled⟩, fun _ => trivial, fun _ present => ?_⟩
      exact taken.evidence.resolve_right fun ⟨none_, _⟩ => present none_
  | bundle meanwhile answers results =>
    by_cases disabled : mode = .DISABLED
    · subst disabled
      cases h
      exact bundle_step at_ inv rfl
    · rw [show (collecting checks rcaRunId mode).step b (.bundle meanwhile answers results) = none
        from if_neg disabled] at h
      cases h

/-- Only a bundle of a mode without specialist analyses has to be fresh. -/
theorem fresh_of_step {step : CollectionStep} (h : (collecting checks rcaRunId mode).step b step = some b')
    (fresh : mode = .DISABLED → step.Fresh rcaRunId specialistRunId kind b) :
    step.Fresh rcaRunId specialistRunId kind b := by
  cases step with
  | branch a => trivial
  | bundle meanwhile answers results =>
    refine fresh ?_
    by_contra enabled
    rw [show (collecting checks rcaRunId mode).step b (.bundle meanwhile answers results) = none
      from if_neg enabled] at h
    cases h

/-- What is carried is carried along a history whose steps are fresh where they find it carried. -/
theorem carried_along {steps : List CollectionStep}
    (at_ : ∀ step ∈ steps, step.At rcaRunId specialistRunId kind)
    (start : Carried mode rcaRunId specialistRunId kind b)
    (fresh : (collecting checks rcaRunId mode).StepsAlong
      (fun u step => Carried mode rcaRunId specialistRunId kind u →
      ∀ u', (collecting checks rcaRunId mode).step u step = some u' →
        step.Fresh rcaRunId specialistRunId kind u) b steps) :
    (collecting checks rcaRunId mode).Along (Carried mode rcaRunId specialistRunId kind) b steps := by
  intro before
  induction before using List.reverseRecOn with
  | nil =>
    intro after u _ here
    cases here
    exact start
  | append_singleton before step ih =>
    intro after u split here
    rw [System.exec_concat] at here
    obtain ⟨t, there, next⟩ := Option.bind_eq_some_iff.1 here
    have split' : steps = before ++ step :: after := by rw [split, List.append_assoc, List.singleton_append]
    have mem : step ∈ steps := split' ▸ List.mem_append_right before List.mem_cons_self
    have carried := ih (step :: after) t split' there
    exact (collecting_step (at_ step mem) carried next).1
      (fresh before step after t split' there carried u next)

/-- Over the attempts of a job evidence is collected once exactly if, where specialist analyses are
disabled, every bundle that is committed with evidence of the specialist finds none of it. -/
theorem collected_once_iff (checks : Checks) (mode : SpecialistAnalysisMode) {steps : List CollectionStep}
    (at_ : ∀ step ∈ steps, step.At rcaRunId specialistRunId kind)
    (none_ : evidenceOf rcaRunId specialistRunId b.records = [])
    (own : OwnId rcaRunId specialistRunId kind b.specialistRuns) :
    CollectedOnce (collecting checks rcaRunId mode) rcaRunId specialistRunId b steps ↔
      (collecting checks rcaRunId mode).StepsAlong (fun b step => mode = .DISABLED →
        step.Fresh rcaRunId specialistRunId kind b) b steps := by
  have start : Carried mode rcaRunId specialistRunId kind b := ⟨.inl none_, fun _ => own⟩
  have here {before after : List CollectionStep} {step : CollectionStep} (split : steps =
    before ++ step :: after) :
      step.At rcaRunId specialistRunId kind :=
        at_ step (split ▸ List.mem_append_right before List.mem_cons_self)
  constructor
  · intro once
    have carried := carried_along at_ start fun before step after u split reached carried u' next =>
      (collecting_step (here split) carried next).2.1 fun present =>
        once.kept before step after u split reached present u' next
    intro before step after u split reached disabled
    cases step with
    | branch a => trivial
    | bundle meanwhile answers results =>
      have next : (collecting checks rcaRunId mode).step u (.bundle meanwhile answers results) =
        some ((u.meanwhile meanwhile).storeBundle rcaRunId answers results) := if_pos disabled
      exact (collecting_step (here split) (carried before _ u split reached) next).2.1 fun present =>
        once.kept before _ after u split reached present _ next
  · intro fresh
    have carried := carried_along at_ start fun before step after u split reached _ u' next =>
      fresh_of_step next (fresh before step after u split reached)
    refine ⟨fun before after u split reached => (carried before after u split reached).stored.imp_right
      And.left, ?_⟩
    intro before step after u split reached present u' next
    exact (collecting_step (here split) (carried before _ u split reached) next).2.2
      (fresh_of_step next (fresh before step after u split reached)) present

end History

/-! ## A bundle that is stored twice -/

/-- An attempt that stores the metrics it collected. -/
def storeOnce (id : Uuid) : CollectionStep :=
  .bundle [] ⟨fun kind => if kind = .METRICS then 1 else 4, fun _ => id, false, false⟩
    [metricsSpecialist.result [latencyDraft] []]

/-- The attempts whose first loses its commit, in a mode with specialist analyses. -/
theorem lost_commit_once :
    CollectedOnce (collecting plainChecks 2 .ACTIVE) 2 3 (Branch.start [] []) (lostCommit.map .branch) ↔
    (collecting plainChecks 2 .ACTIVE).StepsAlong (fun b step => SpecialistAnalysisMode.ACTIVE = .DISABLED →
      step.Fresh 2 3 .METRICS b)
      (Branch.start [] []) (lostCommit.map .branch) := by
  refine collected_once_iff plainChecks .ACTIVE (fun step mem => ?_) rfl nofun
  obtain ⟨a, ha, rfl⟩ := List.mem_map.1 mem
  exact lostCommit_at a ha

theorem storeOnce_at (id : Uuid) : (storeOnce id).At 2 1 .METRICS := by
  refine ⟨nofun, List.nodup_singleton _, fun other ne => ?_⟩
  dsimp only
  rw [if_neg ne]
  decide

/-- Where specialist analyses are disabled, a second attempt inserts a second copy. -/
theorem stored_twice : (∀ step ∈ [storeOnce 7, storeOnce 8], step.At 2 1 .METRICS) ∧
    ¬ CollectedOnce (collecting plainChecks 2 .DISABLED) 2 1 (Branch.start [] [])
    [storeOnce 7, storeOnce 8] := by
  refine ⟨fun step mem => ?_, fun once => ?_⟩
  · rcases List.mem_pair.1 mem with rfl | rfl
    · exact storeOnce_at 7
    · exact storeOnce_at 8
  · have first : ((collecting plainChecks 2 .DISABLED).exec (Branch.start [] []) [storeOnce 7]).map
        (fun b => (evidenceOf 2 1 b.records).length) = some 1 := by decide +kernel
    have second :
      ((collecting plainChecks 2 .DISABLED).exec (Branch.start [] []) [storeOnce 7, storeOnce 8]).map
        (fun b => (evidenceOf 2 1 b.records).length) = some 2 := by decide +kernel
    obtain ⟨u, reached, one⟩ := Option.map_eq_some_iff.1 first
    obtain ⟨v, ended, two⟩ := Option.map_eq_some_iff.1 second
    have next : (collecting plainChecks 2 .DISABLED).step u (storeOnce 8) = some v := by
      rw [show [storeOnce 7, storeOnce 8] = [storeOnce 7] ++ [storeOnce 8] from rfl, System.exec_concat,
        reached] at ended
      exact ended
    have present : evidenceOf 2 1 u.records ≠ [] := by
      intro none_
      rw [none_] at one
      cases one
    have same := once.kept [storeOnce 7] (storeOnce 8) [] u rfl reached present v next
    rw [same, one] at two
    cases two

end SreAgent.Rca
