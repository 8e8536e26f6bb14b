import SreAgent.Rca.ToolCalls

/-!
# Attempts at a specialist branch

`_invoke_specialist_branch` finds or creates the specialist run, reserves its collection and gives a
fresh session to the agent, whose calls may be any. Over all attempts at one branch the evidence of
its specialist run is none or that of one collection (`evidence_collected_once`).
-/

namespace SreAgent.Rca
open Base Procedure EvidenceToolSession

/-! ## An attempt -/

/-- The row of `specialist_runs` of a run and a specialist. -/
def findSpecialistRun (rcaRunId : Uuid) (kind : SpecialistKind) (runs : List SpecialistRun) :
    Option SpecialistRun :=
  runs.find? fun run => run.rcaRunId = rcaRunId ∧ run.specialist = kind

/-- `_get_or_create_specialist_run`; `ON CONFLICT` returns the row that is there. -/
def getOrCreateSpecialistRun (rcaRunId : Uuid) (kind : SpecialistKind) : ToolM Uuid := do
  awaiting
  match findSpecialistRun rcaRunId kind (← get).specialistRuns with
  | some run =>
    awaiting
    return run.id
  | none =>
    match ← answer with
    | .inserted id =>
      if ∃ run ∈ (← get).specialistRuns, run.id = id then raise .other
      modify fun b => { b with specialistRuns := b.specialistRuns ++ [⟨id, rcaRunId, kind⟩] }
      return id
    | .raises e => raise e
    | _ => stop

/-- `_specialist_collection_reservation`, up to the advisory lock. -/
def reserve (deadline : Timestamp) : ToolM Unit := do
  match ← clock with
  | none => raise .other
  | some now => if deadline - now ≤ 0 then raise .timeout
  awaiting

/-- `_invoke_specialist_branch` up to the agent: the specialist run, the lock, and a new session. -/
def openBranch (config : SessionConfig) : ToolM Uuid := do
  let specialistRunId ← getOrCreateSpecialistRun config.request.rcaRunId config.kind
  reserve config.deadline
  modify Branch.renew
  return specialistRunId

/-- An attempt at a branch: what the environment answers before the agent is called, and the calls of
the agent. -/
structure Attempt where
  config : SessionConfig
  opening : List Answer
  exchanges : List Exchange

/-- The session of an attempt, of the specialist run it was given. -/
def Attempt.session (a : Attempt) (specialistRunId : Uuid) : SessionConfig :=
  { a.config with specialistRunId }

/-- The calls of an attempt. -/
def Attempt.outcomes (checks : Checks) (b : Branch) (a : Attempt) : List Outcome :=
  match openBranch a.config b a.opening with
  | (.returned id, b', _) => EvidenceToolSession.session checks (a.session id) b' a.exchanges
  | _ => []

/-- Where an attempt leaves the tables. -/
def Attempt.run (checks : Checks) (b : Branch) (a : Attempt) : Branch :=
  match openBranch a.config b a.opening with
  | (.returned id, b', _) => sessionEnd checks (a.session id) b' a.exchanges
  | (_, b', _) => b'

/-- Attempts one after the other, as the lock admits them. -/
def attempts (checks : Checks) (b : Branch) (as : List Attempt) : Branch := as.foldl (Attempt.run checks) b

/-- The tables before any attempt. -/
def Branch.start (specialistRuns : List SpecialistRun) (records : List EvidenceRecord) : Branch :=
  ⟨0, none, none, specialistRuns, records, [], 0, []⟩

/-! ## Evidence of the branch -/

/-- The rows are those of the drafts. -/
def DraftedFor (rcaRunId specialistRunId : Uuid) (drafts : List EvidenceDraft)
    (rows : List EvidenceRecord) : Prop :=
  List.Forall₂ (fun draft row => row = draft.record rcaRunId specialistRunId row.id) drafts rows

/-- What other transactions commit is of other specialist runs: the lock keeps those of this one out. -/
def Foreign (rcaRunId specialistRunId : Uuid) (answer : Answer) : Prop :=
  ∀ rows, answer = .done rows → ∀ row ∈ rows, ¬ row.Of rcaRunId specialistRunId

section Evidence

variable {rcaRunId specialistRunId : Uuid}

theorem evidenceOf_append (rows rows' : List EvidenceRecord) :
    evidenceOf rcaRunId specialistRunId (rows ++ rows') =
    evidenceOf rcaRunId specialistRunId rows ++ evidenceOf rcaRunId specialistRunId rows' :=
  List.filter_append ..

theorem evidenceOf_others {rows : List EvidenceRecord}
    (others : Others (Foreign rcaRunId specialistRunId) rows) :
    evidenceOf rcaRunId specialistRunId rows = [] := by
  refine List.filter_eq_nil_iff.2 fun row mem of => ?_
  obtain ⟨meanwhile, foreign, mem⟩ := others row mem
  exact foreign meanwhile rfl row mem (of_decide_eq_true of)

/-- Rows of drafts are all of their specialist run. -/
theorem evidenceOf_drafted {drafts : List EvidenceDraft} {rows : List EvidenceRecord}
    (drafted : DraftedFor rcaRunId specialistRunId drafts rows) :
    evidenceOf rcaRunId specialistRunId rows = rows := by
  refine List.filter_eq_self.2 fun row mem => decide_eq_true ?_
  obtain ⟨draft, -, same⟩ := exists_of_forall₂ drafted mem
  rw [same]
  exact ⟨rfl, rfl⟩

/-- Rows of drafts are of no other specialist run. -/
theorem evidenceOf_drafted_other {other : Uuid} (ne : other ≠ specialistRunId) {drafts : List EvidenceDraft}
    {rows : List EvidenceRecord} (drafted : DraftedFor rcaRunId other drafts rows) :
    evidenceOf rcaRunId specialistRunId rows = [] := by
  refine List.filter_eq_nil_iff.2 fun row mem of => ?_
  obtain ⟨draft, -, same⟩ := exists_of_forall₂ drafted mem
  have of := (of_decide_eq_true of).2
  rw [same] at of
  exact ne of

end Evidence

section Steps

variable {rcaRunId specialistRunId : Uuid} {kind : SpecialistKind} {checks : Checks}
  {config : SessionConfig} {b b' : Branch}

/-- What a step of the branch may do to the evidence of one specialist run: the collector is called
only where there is none, and then the drafts of a collection may come to be all of it. -/
structure EvidenceStep (rcaRunId specialistRunId : Uuid) (b b' : Branch) : Prop where
  evidence : evidenceOf rcaRunId specialistRunId b'.records = evidenceOf rcaRunId specialistRunId b.records ∨
    evidenceOf rcaRunId specialistRunId b.records = [] ∧
      ∃ drafts ∈ b'.collections,
        DraftedFor rcaRunId specialistRunId drafts (evidenceOf rcaRunId specialistRunId b'.records)
  invocations : evidenceOf rcaRunId specialistRunId b.records ≠ [] → b'.invocations = b.invocations
  collections : b.collections ⊆ b'.collections

theorem EvidenceStep.trans {b'' : Branch} (h : EvidenceStep rcaRunId specialistRunId b b')
    (h' : EvidenceStep rcaRunId specialistRunId b' b'') :
    EvidenceStep rcaRunId specialistRunId b b'' where
  evidence := by
    rcases h.evidence with same | ⟨none_, drafts, mem, drafted⟩
    · rw [← same]
      exact h'.evidence
    · rcases h'.evidence with same | ⟨-, drafted'⟩
      · exact .inr ⟨none_, drafts, h'.collections mem, same ▸ drafted⟩
      · exact .inr ⟨none_, drafted'⟩
  invocations some_ := by
    have still : evidenceOf rcaRunId specialistRunId b'.records ≠ [] := by
      rcases h.evidence with same | ⟨none_, -⟩
      · rwa [same]
      · exact absurd none_ some_
    exact (h'.invocations still).trans (h.invocations some_)
  collections _ mem := h'.collections (h.collections mem)

/-- Rows of others alone. -/
theorem evidenceStep_others {rows : List EvidenceRecord}
    (others : Others (Foreign rcaRunId specialistRunId) rows) (records : b'.records = b.records ++ rows)
    (invocations : b'.invocations = b.invocations) (collections : b'.collections = b.collections) :
    EvidenceStep rcaRunId specialistRunId b b' where
  evidence := by
    left
    rw [records, evidenceOf_append, evidenceOf_others others, List.append_nil]
  invocations _ := invocations
  collections := collections ▸ List.Subset.refl _

/-- The session is of the specialist run, or that has no evidence. -/
def OwnOrNone (specialistRunId : Uuid) (config : SessionConfig) (b : Branch) : Prop :=
  config.specialistRunId = specialistRunId ∨ evidenceOf config.request.rcaRunId specialistRunId b.records = []

/-- A collection of the branch. -/
theorem EvidenceToolSession.Under.evidenceStep (h : Under (Foreign config.request.rcaRunId specialistRunId)
      config b b') (own : OwnOrNone specialistRunId config b) :
    EvidenceStep config.request.rcaRunId specialistRunId b b' ∧ OwnOrNone specialistRunId config b' := by
  by_cases same : config.specialistRunId = specialistRunId
  · subst same
    refine ⟨{ evidence := ?_, invocations := ?_, collections := h.collections }, .inl rfl⟩
    · obtain ⟨rows, others, same⟩ |
          ⟨⟨rows₀, others₀, none_⟩, drafts, mem, rows, rows', written, others, others', drafted, same⟩ :=
        h.records
      · left
        rw [same, evidenceOf_append, evidenceOf_others others, List.append_nil]
      · right
        rw [evidenceOf_append, List.append_eq_nil_iff] at none_
        refine ⟨none_.1, drafts, mem, ?_⟩
        rw [same, evidenceOf_append, evidenceOf_append, evidenceOf_append, none_.1,
          evidenceOf_others others, evidenceOf_others others',
          evidenceOf_drafted drafted, List.append_nil]
        exact drafted
    · intro some_
      obtain same | ⟨-, rows, others, none_⟩ := h.invocations
      · exact same
      · rw [evidenceOf_append, List.append_eq_nil_iff] at none_
        exact absurd none_.1 some_
  · have none_ := own.resolve_left same
    have still : evidenceOf config.request.rcaRunId specialistRunId b'.records = [] := by
      obtain ⟨rows, others, records⟩ |
          ⟨-, drafts, -, rows, rows', written, others, others', drafted, records⟩ := h.records
      · rw [records, evidenceOf_append, evidenceOf_others others, none_, List.append_nil]
      · rw [records, evidenceOf_append, evidenceOf_append, evidenceOf_append, none_,
          evidenceOf_others others, evidenceOf_others others',
          evidenceOf_drafted_other same drafted, List.append_nil, List.append_nil, List.append_nil]
    exact ⟨⟨.inl (still.trans none_.symm), fun some_ => absurd none_ some_, h.collections⟩, .inr still⟩

/-- Rows of others leave the session of the specialist run. -/
theorem ownOrNone_others (own : OwnOrNone specialistRunId config b) {rows : List EvidenceRecord}
    (others : Others (Foreign config.request.rcaRunId specialistRunId) rows)
    (records : b'.records = b.records ++ rows) :
    OwnOrNone specialistRunId config b' := by
  refine own.imp_right fun none_ => ?_
  rw [records, evidenceOf_append, evidenceOf_others others, none_, List.append_nil]

/-- A call of a tool. -/
theorem EvidenceToolSession.CallCase.evidenceStep {o : Outcome}
    (h : CallCase (Foreign config.request.rcaRunId specialistRunId) checks config o)
    (used : ∀ answer ∈ o.used, Foreign config.request.rcaRunId specialistRunId answer)
    (own : OwnOrNone specialistRunId config o.before) :
    EvidenceStep config.request.rcaRunId specialistRunId o.before o.after ∧
      OwnOrNone specialistRunId config o.after := by
  have others := others_committed used
  have quiet {b' : Branch} (records : b'.records = o.before.records)
    (invocations : b'.invocations = o.before.invocations)
      (collections : b'.collections = o.before.collections) :
      EvidenceStep config.request.rcaRunId specialistRunId o.before b' ∧
        OwnOrNone specialistRunId config b' := by
    have records : b'.records = o.before.records ++ [] := records.trans (List.append_nil _).symm
    exact ⟨evidenceStep_others (others_nil _) records invocations collections,
      ownOrNone_others own (others_nil _) records⟩
  cases h with
  | collect reply _ _ case =>
    generalize o.after = after, o.used = used' at case others
    cases case with
    | refused => exact quiet rfl rfl rfl
    | lost => exact ⟨evidenceStep_others others rfl rfl rfl, ownOrNone_others own others rfl⟩
    | failed => exact quiet rfl rfl rfl
    | kept => exact quiet rfl rfl rfl
    | collected _ _ _ receipt s under =>
      obtain ⟨step, own⟩ := under.evidenceStep own
      exact ⟨⟨step.evidence, step.invocations, step.collections⟩, own⟩
    | fails _ _ _ code s under =>
      obtain ⟨step, own⟩ := under.evidenceStep own
      exact ⟨⟨step.evidence, step.invocations, step.collections⟩, own⟩
    | stops _ _ _ _ under =>
      obtain ⟨step, own⟩ := under.evidenceStep own
      exact ⟨⟨step.evidence, step.invocations, step.collections⟩, own⟩
  | read evidenceId chunkIndex reply _ _ case =>
    rw [case.frame]
    exact ⟨evidenceStep_others others rfl rfl rfl, ownOrNone_others own others rfl⟩

/-- A call of a tool leaves the specialist runs. -/
theorem EvidenceToolSession.CallCase.specialistRuns {env : Answer → Prop} {o : Outcome}
    (h : CallCase env checks config o) :
    o.after.specialistRuns = o.before.specialistRuns := by
  cases h with
  | collect reply _ _ case =>
    generalize o.after = after, o.used = used at case
    cases case with
    | collected _ _ _ receipt s under => exact under.specialistRuns
    | fails _ _ _ code s under => exact under.specialistRuns
    | stops _ _ _ _ under => exact under.specialistRuns
    | _ => rfl
  | read evidenceId chunkIndex reply _ _ case =>
    rw [case.frame]
    rfl

/-- The calls of a session. -/
theorem sessionEnd_evidenceStep {exchanges : List Exchange}
    (foreign : ∀ e ∈ exchanges, ∀ answer ∈ e.answers, Foreign config.request.rcaRunId specialistRunId answer)
    (own : OwnOrNone specialistRunId config b) :
    EvidenceStep config.request.rcaRunId specialistRunId b (sessionEnd checks config b exchanges) ∧
      OwnOrNone specialistRunId config (sessionEnd checks config b exchanges) ∧
      (sessionEnd checks config b exchanges).specialistRuns = b.specialistRuns := by
  induction exchanges generalizing b with
  | nil => exact ⟨evidenceStep_others (others_nil _) (List.append_nil _).symm rfl rfl, own, rfl⟩
  | cons e exchanges ih =>
    have allowed := foreign e List.mem_cons_self
    have case : CallCase (Foreign config.request.rcaRunId specialistRunId) checks config
        (exchange checks config b e) := exchange_case allowed
    obtain ⟨step, own⟩ := case.evidenceStep (fun answer mem => allowed answer (List.mem_of_mem_take mem)) own
    obtain ⟨steps, own, runs⟩ := ih (fun e mem => foreign e (List.mem_cons_of_mem _ mem)) own
    exact ⟨step.trans steps, own, runs.trans case.specialistRuns⟩

end Steps

/-! ## Opening -/

section Opening

variable {rcaRunId specialistRunId : Uuid} {kind : SpecialistKind} {env : Answer → Prop}
  {config : SessionConfig} {b : Branch}

theorem findSpecialistRun_append {runs runs' : List SpecialistRun} {run : SpecialistRun}
    (h : findSpecialistRun rcaRunId kind runs = some run) :
    findSpecialistRun rcaRunId kind (runs ++ runs') = some run := by
  unfold findSpecialistRun at h ⊢
  rw [List.find?_append, h]
  rfl

/-- What opening a branch does: it may create the specialist run, and other transactions may commit rows. -/
structure Opens (env : Answer → Prop) (rcaRunId : Uuid) (kind : SpecialistKind) (b : Branch)
    (r : Reply ToolFault Uuid) (b' : Branch) : Prop where
  records : ∃ rows, Others env rows ∧ b'.records = b.records ++ rows
  invocations : b'.invocations = b.invocations
  collections : b'.collections = b.collections
  specialistRuns : ∀ run, findSpecialistRun rcaRunId kind b.specialistRuns = some run →
    findSpecialistRun rcaRunId kind b'.specialistRuns = some run
  returned : ∀ id, r = .returned id → ∃ run, findSpecialistRun rcaRunId kind b'.specialistRuns = some run ∧
    run.id = id

theorem Opens.meanwhile {r : Reply ToolFault Uuid} {b' : Branch} (h : Opens env rcaRunId kind b r b')
    {rows : List EvidenceRecord} (others : Others env rows) :
    Opens env rcaRunId kind b r (b'.meanwhile rows) where
  records := by
    obtain ⟨rows', others', same⟩ := h.records
    refine ⟨rows' ++ rows, others'.append others, ?_⟩
    rw [Branch.meanwhile, same, List.append_assoc]
  invocations := h.invocations
  collections := h.collections
  specialistRuns := h.specialistRuns
  returned := h.returned

/-- An opening that does not return. -/
theorem Opens.ended {r r' : Reply ToolFault Uuid} {b' : Branch} (h : Opens env rcaRunId kind b r b')
    (unreturned : ∀ id, r' ≠ .returned id) :
    Opens env rcaRunId kind b r' b' :=
  { h with returned := fun id same => absurd same (unreturned id) }

theorem opens_refl : Opens env rcaRunId kind b .stopped b where
  records := ⟨[], others_nil env, (List.append_nil _).symm⟩
  invocations := rfl
  collections := rfl
  specialistRuns _ found := found
  returned := nofun

/-- The specialist run is found or created, and no evidence is touched. -/
theorem getOrCreateSpecialistRun_spec :
    (getOrCreateSpecialistRun rcaRunId kind).wp env (fun r b' _ => Opens env rcaRunId kind b r b') b := by
  refine awaiting_reads.andThen (fun _ u _ others => ?_) fun r u unreturned others =>
    (opens_refl.meanwhile others).ended unreturned
  have start : Opens env rcaRunId kind b .stopped (b.meanwhile (committed u)) := opens_refl.meanwhile others
  refine wp_get_bind ?_
  split
  · next run found =>
    refine awaiting_reads.andThen (fun _ v _ others => wp_pure ?_) fun r v unreturned others =>
      (start.meanwhile others).ended unreturned
    refine { start.meanwhile others with returned := ?_ }
    rintro _ ⟨⟩
    exact ⟨run, found, rfl⟩
  · next absent =>
    refine answer_reads.andThen ?_ fun r v unreturned others => (start.meanwhile others).ended unreturned
    rintro a _ ⟨-, rfl⟩ others
    have now := start.meanwhile others
    cases a
    case inserted id =>
      refine wp_get_bind ?_
      dsimp only
      split
      · exact wp_raise_bind (now.ended nofun)
      · refine wp_modify_bind (wp_pure ?_)
        refine { now with specialistRuns := ?_, returned := ?_ }
        · exact fun run found => findSpecialistRun_append (now.specialistRuns run found)
        · rintro _ ⟨⟩
          refine ⟨⟨id, rcaRunId, kind⟩, ?_, rfl⟩
          have absent : findSpecialistRun rcaRunId kind b.specialistRuns = none := absent
          unfold findSpecialistRun at absent ⊢
          rw [List.find?_append,
            show ((b.meanwhile (committed u)).meanwhile (committed [.inserted id])).specialistRuns =
            b.specialistRuns from rfl, absent]
          simp
    case raises e => exact wp_raise (now.ended nofun)
    all_goals exact wp_stop (now.ended nofun)

theorem reserve_reads (deadline : Timestamp) : ToolReads env (reserve deadline) b fun _ _ => True := by
  refine clock_reads.bind ?_
  rintro (_ | now) _ rfl
  · exact reads_raise_bind _
  · dsimp only
    split
    · exact reads_raise_bind _
    · exact awaiting_reads.mono fun _ _ _ => trivial

/-- An opened branch is a new session. -/
theorem openBranch_spec :
    (openBranch config).wp env (fun r b' _ => Opens env config.request.rcaRunId config.kind b r b' ∧
    ∀ id, r = .returned id → b'.toolCalls = 0 ∧ b'.receipt = none ∧ b'.terminalErrorCode = none) b := by
  refine wp_bind getOrCreateSpecialistRun_spec ?_ ?_ ?_
  · intro id s u opens
    have still : Opens env config.request.rcaRunId config.kind b .stopped s := opens.ended nofun
    refine (reserve_reads config.deadline).andThen ?_ ?_
    · intro _ v _ others
      refine wp_modify_bind (wp_pure ⟨?_, ?_⟩)
      · have opens := opens.meanwhile others
        exact ⟨opens.records, opens.invocations, opens.collections, opens.specialistRuns, opens.returned⟩
      · exact fun _ _ => ⟨rfl, rfl, rfl⟩
    · exact fun r v unreturned others =>
        ⟨(still.meanwhile others).ended unreturned, fun id same => absurd same (unreturned id)⟩
  · exact fun e s u opens => ⟨opens.ended nofun, nofun⟩
  · exact fun s u opens => ⟨opens.ended nofun, nofun⟩

end Opening

/-! ## What a session keeps -/

section Settled

variable {checks : Checks} {config : SessionConfig} {b : Branch}

/-- What every later collection of a session answers, once it is settled: its code or its receipt. -/
def settled (b : Branch) : Option (Reply ToolFault ToolValue) :=
  match b.terminalErrorCode, b.receipt with
  | some code, _ => some (.raised (.evidenceTool code))
  | none, some receipt => some (.returned (.receipt receipt))
  | none, none => none

/-- A settled session stays so, its admitted collections answer as it is settled, and it does not call
the collector. -/
theorem EvidenceToolSession.CallCase.settled {env : Answer → Prop} {o : Outcome}
    (h : CallCase env checks config o) {reply : Reply ToolFault ToolValue}
    (before : settled o.before = some reply) : settled o.after = some reply ∧
      o.after.invocations = o.before.invocations ∧
      (o.call = .collect → o.admitted = true → o.reply = reply) := by
  have unsettled (unfailed : o.before.terminalErrorCode = none) (fresh : o.before.receipt = none) :
      False := by
    unfold Rca.settled at before
    rw [unfailed, fresh] at before
    cases before
  cases h with
  | collect given of same case =>
    rw [same, admitted_iff]
    generalize o.after = after, o.used = used at case
    cases case with
    | refused code _ quiet => exact ⟨before, rfl, fun _ counted => absurd counted (Nat.succ_ne_self _).symm⟩
    | lost => exact ⟨before, rfl, fun _ counted => absurd counted (Nat.succ_ne_self _).symm⟩
    | failed _ code sticky =>
      refine ⟨before, rfl, fun _ _ => ?_⟩
      unfold Rca.settled at before
      rw [sticky] at before
      exact Option.some.inj before
    | kept _ unfailed receipt cached =>
      refine ⟨before, rfl, fun _ _ => ?_⟩
      unfold Rca.settled at before
      rw [unfailed, cached] at before
      exact Option.some.inj before
    | collected _ unfailed fresh => exact (unsettled unfailed fresh).elim
    | fails _ unfailed fresh => exact (unsettled unfailed fresh).elim
    | stops _ unfailed fresh => exact (unsettled unfailed fresh).elim
  | read evidenceId chunkIndex given of same case =>
    rw [case.frame]
    exact ⟨before, rfl, fun collect => nomatch of.symm.trans collect⟩

/-- A collection that ends settles the session. -/
theorem EvidenceToolSession.CallCase.settles {env : Answer → Prop} {o : Outcome}
    (h : CallCase env checks config o) (collect : o.call = .collect) (admitted : o.admitted = true)
    (ended : o.reply ≠ .stopped) : Rca.settled o.after = some o.reply := by
  rw [admitted_iff] at admitted
  cases h with
  | collect given of same case =>
    rw [same] at ended ⊢
    generalize o.after = after, o.used = used at case admitted
    cases case with
    | refused => exact absurd admitted (Nat.succ_ne_self _).symm
    | lost => exact absurd rfl ended
    | failed _ code sticky =>
      unfold Rca.settled
      rw [show (Branch.count o.before).terminalErrorCode = some code from sticky]
    | kept _ unfailed receipt cached =>
      unfold Rca.settled
      rw [show (Branch.count o.before).terminalErrorCode = none from unfailed,
        show (Branch.count o.before).receipt = some receipt from cached]
    | collected _ unfailed _ receipt s under =>
      unfold Rca.settled
      rw [show s.terminalErrorCode = none from under.terminalErrorCode.trans unfailed]
    | fails => rfl
    | stops => exact absurd rfl ended
  | read evidenceId chunkIndex given of same case => exact nomatch of.symm.trans collect

/-- A call that ends calls the collector once at most, and then settles the session. -/
theorem EvidenceToolSession.CallCase.invocations {env : Answer → Prop} {o : Outcome}
    (h : CallCase env checks config o) (ended : o.reply ≠ .stopped) :
    o.after.invocations = o.before.invocations ∨
      o.after.invocations = o.before.invocations + 1 ∧ ∃ reply, Rca.settled o.after = some reply := by
  cases h with
  | collect given of same case =>
    rw [same] at ended
    generalize o.after = after, o.used = used at case
    cases case with
    | refused => exact .inl rfl
    | lost => exact .inl rfl
    | failed => exact .inl rfl
    | kept => exact .inl rfl
    | collected _ unfailed _ receipt s under =>
      refine under.invocations.imp_right fun called => ⟨called.1, .returned (.receipt receipt), ?_⟩
      unfold Rca.settled
      rw [show s.terminalErrorCode = none from under.terminalErrorCode.trans unfailed]
    | fails _ _ _ code s under =>
      exact under.invocations.imp_right fun called => ⟨called.1, .raised (.evidenceTool code), rfl⟩
    | stops => exact absurd rfl ended
  | read evidenceId chunkIndex given of same case =>
    rw [case.frame]
    exact .inl rfl

/-- A receipt is returned unchanged by every later collection that is admitted, and a failure repeats. -/
def Sticky (o o' : Outcome) : Prop :=
  o.call = .collect → o.admitted = true → o.reply ≠ .stopped → o'.call = .collect → o'.admitted = true →
    o'.reply = o.reply

/-- The calls of a settled session. -/
theorem session_settled (exchanges : List Exchange) {reply : Reply ToolFault ToolValue}
    (h : settled b = some reply) :
    (∀ o ∈ session checks config b exchanges, o.call = .collect → o.admitted = true → o.reply = reply) ∧
      (sessionEnd checks config b exchanges).invocations = b.invocations := by
  induction exchanges generalizing b with
  | nil => exact ⟨fun o mem => absurd mem List.not_mem_nil, rfl⟩
  | cons e exchanges ih =>
    have case : CallCase (fun _ => True) checks config (exchange checks config b e) :=
      exchange_case fun _ _ => trivial
    obtain ⟨still, uncalled, answers⟩ := case.settled h
    obtain ⟨later, rest⟩ := ih still
    refine ⟨fun o mem => ?_, rest.trans uncalled⟩
    rcases List.mem_cons.1 mem with rfl | mem
    · exact answers
    · exact later o mem

/-- Any two collections of a session that end give the same reply. -/
theorem session_sticky (exchanges : List Exchange) : (session checks config b exchanges).Pairwise Sticky := by
  induction exchanges generalizing b with
  | nil => exact List.Pairwise.nil
  | cons e exchanges ih =>
    have case : CallCase (fun _ => True) checks config (exchange checks config b e) :=
      exchange_case fun _ _ => trivial
    refine List.Pairwise.cons (fun o mem collect admitted ended => ?_) ih
    exact (session_settled exchanges (case.settles collect admitted ended)).1 o mem

/-- A session none of whose calls is cancelled calls the collector at most once. -/
theorem session_invocations (exchanges : List Exchange)
    (ended : ∀ o ∈ session checks config b exchanges, o.reply ≠ .stopped) :
    (sessionEnd checks config b exchanges).invocations ≤ b.invocations + 1 := by
  induction exchanges generalizing b with
  | nil => exact Nat.le_succ _
  | cons e exchanges ih =>
    have case : CallCase (fun _ => True) checks config (exchange checks config b e) :=
      exchange_case fun _ _ => trivial
    have start : (exchange checks config b e).before = b := rfl
    rcases case.invocations (ended _ List.mem_cons_self) with same | ⟨called, reply, settled⟩
    · rw [← start, ← same]
      exact ih fun o mem => ended o (List.mem_cons_of_mem _ mem)
    · have rest : (sessionEnd checks config _ exchanges).invocations = _ :=
        (session_settled exchanges settled).2
      exact (rest.trans called).le

end Settled

/-! ## Attempts -/

section Attempts

variable {rcaRunId specialistRunId : Uuid} {kind : SpecialistKind} {checks : Checks} {b : Branch}

/-- The evidence of the branch is none, or that of one collection, and then its specialist run is found. -/
def Stored (rcaRunId specialistRunId : Uuid) (kind : SpecialistKind) (b : Branch) : Prop :=
  evidenceOf rcaRunId specialistRunId b.records = [] ∨
    (∃ drafts ∈ b.collections,
      DraftedFor rcaRunId specialistRunId drafts (evidenceOf rcaRunId specialistRunId b.records)) ∧
      ∃ run, findSpecialistRun rcaRunId kind b.specialistRuns = some run ∧ run.id = specialistRunId

/-- An attempt at the branch, while the lock keeps others out. -/
structure Attempt.At (rcaRunId specialistRunId : Uuid) (kind : SpecialistKind) (a : Attempt) : Prop where
  ofRun : a.config.request.rcaRunId = rcaRunId
  ofKind : a.config.kind = kind
  opening : ∀ answer ∈ a.opening, Foreign rcaRunId specialistRunId answer
  exchanges : ∀ e ∈ a.exchanges, ∀ answer ∈ e.answers, Foreign rcaRunId specialistRunId answer

/-- What is known of an attempt whose branch was opened. -/
theorem opened_session {a : Attempt} (at_ : a.At rcaRunId specialistRunId kind)
    (stored : Stored rcaRunId specialistRunId kind b) {id : Uuid} {b' : Branch}
    (opens : Opens (Foreign rcaRunId specialistRunId) rcaRunId kind b (.returned id) b') :
    OwnOrNone specialistRunId (a.session id) b' ∧ EvidenceStep rcaRunId specialistRunId b b' := by
  obtain ⟨rows, others, records⟩ := opens.records
  refine ⟨?_, evidenceStep_others others records opens.invocations opens.collections⟩
  have same : evidenceOf rcaRunId specialistRunId b'.records =
      evidenceOf rcaRunId specialistRunId b.records := by
    rw [records, evidenceOf_append, evidenceOf_others others, List.append_nil]
  rcases stored with none_ | ⟨-, run, found, rfl⟩
  · right
    rw [show (a.session id).request.rcaRunId = rcaRunId from at_.ofRun, same, none_]
  · left
    obtain ⟨run', found', rfl⟩ := opens.returned id rfl
    have equal := (opens.specialistRuns run found).symm.trans found'
    cases equal
    rfl

/-- One attempt. -/
theorem run_step {a : Attempt} (at_ : a.At rcaRunId specialistRunId kind)
    (stored : Stored rcaRunId specialistRunId kind b) :
    EvidenceStep rcaRunId specialistRunId b (a.run checks b) ∧
      Stored rcaRunId specialistRunId kind (a.run checks b) := by
  have spec : (openBranch a.config).wp (Foreign rcaRunId specialistRunId) _ b := openBranch_spec
  obtain ⟨used, -, opens, -⟩ := spec a.opening at_.opening
  rw [at_.ofRun, at_.ofKind] at opens
  unfold Attempt.run
  generalize openBranch a.config b a.opening = out at opens ⊢
  have unreturned {r : Reply ToolFault Uuid} {b' : Branch}
      (opens : Opens (Foreign rcaRunId specialistRunId) rcaRunId kind b r b') :
      EvidenceStep rcaRunId specialistRunId b b' ∧ Stored rcaRunId specialistRunId kind b' := by
    obtain ⟨rows, others, records⟩ := opens.records
    refine ⟨evidenceStep_others others records opens.invocations opens.collections, ?_⟩
    unfold Stored
    rw [records, evidenceOf_append, evidenceOf_others others, List.append_nil, opens.collections]
    refine stored.imp_right fun ⟨drafts, run, found, same⟩ =>
      ⟨drafts, run, opens.specialistRuns run found, same⟩
  obtain ⟨id | e | _, b', rest⟩ := out
  · obtain ⟨own, first⟩ := opened_session at_ stored opens
    have foreign : ∀ e ∈ a.exchanges, ∀ answer ∈ e.answers,
        Foreign (a.session id).request.rcaRunId specialistRunId answer := by
      rw [show (a.session id).request.rcaRunId = rcaRunId from at_.ofRun]
      exact at_.exchanges
    have ended : EvidenceStep _ _ b' (sessionEnd checks _ b' a.exchanges) ∧ _ :=
      sessionEnd_evidenceStep foreign own
    obtain ⟨steps, own, runs⟩ := ended
    rw [show (a.session id).request.rcaRunId = rcaRunId from at_.ofRun] at steps
    have whole := first.trans steps
    refine ⟨whole, ?_⟩
    dsimp only
    by_cases none_ : evidenceOf rcaRunId specialistRunId
      (sessionEnd checks (a.session id) b' a.exchanges).records = []
    · exact .inl none_
    · right
      have same : id = specialistRunId := by
        refine own.resolve_right ?_
        rwa [show (a.session id).request.rcaRunId = rcaRunId from at_.ofRun]
      obtain ⟨run, found, rfl⟩ := opens.returned id rfl
      refine ⟨?_, run, by rw [runs]; exact found, same⟩
      rcases whole.evidence with same | ⟨-, collected⟩
      · rcases stored with absent | ⟨⟨drafts, mem, drafted⟩, -⟩
        · exact absurd (same.trans absent) none_
        · exact ⟨drafts, whole.collections mem, same ▸ drafted⟩
      · exact collected
  · exact unreturned opens
  · exact unreturned opens

/-- All attempts. -/
theorem attempts_step {as : List Attempt} (at_ : ∀ a ∈ as, a.At rcaRunId specialistRunId kind)
    (stored : Stored rcaRunId specialistRunId kind b) :
    Stored rcaRunId specialistRunId kind (attempts checks b as) := by
  induction as generalizing b with
  | nil => exact stored
  | cons a as ih =>
    exact ih (fun a mem => at_ a (List.mem_cons_of_mem _ mem)) (run_step (at_ a List.mem_cons_self) stored).2

/-- The calls of an attempt, and what they come to. -/
theorem outcomes_cases (checks : Checks) (b : Branch) (a : Attempt) :
    a.outcomes checks b = [] ∧ (a.run checks b).invocations = b.invocations ∨
      ∃ id b', b'.invocations = b.invocations ∧ Kept checks (a.session id) b' ∧ b'.toolCalls = 0 ∧
        a.outcomes checks b = session checks (a.session id) b' a.exchanges ∧
        a.run checks b = sessionEnd checks (a.session id) b' a.exchanges := by
  have spec : (openBranch a.config).wp (fun _ => True) _ b := openBranch_spec
  obtain ⟨used, -, opens, fresh⟩ := spec a.opening fun _ _ => trivial
  unfold Attempt.outcomes Attempt.run
  generalize openBranch a.config b a.opening = out at opens fresh ⊢
  obtain ⟨id | e | _, b', rest⟩ := out
  · obtain ⟨unused, empty, -⟩ := fresh id rfl
    refine .inr ⟨id, b', opens.invocations, fun receipt cached => ?_, unused, rfl, rfl⟩
    exact nomatch empty.symm.trans cached
  · exact .inl ⟨rfl, opens.invocations⟩
  · exact .inl ⟨rfl, opens.invocations⟩

/-- Evidence is collected once. Whatever fails, times out or crashes in the attempts at a branch: its
evidence is none or that of one collection; where there is some, the collector is not called; a
session none of whose calls is cancelled calls it once at most, and answers its later collections as
the first that ended; and what is returned is of committed rows. -/
theorem evidence_collected_once (checks : Checks) {as : List Attempt}
    (at_ : ∀ a ∈ as, a.At rcaRunId specialistRunId kind) {specialistRuns : List SpecialistRun}
    {records : List EvidenceRecord} (none_ : evidenceOf rcaRunId specialistRunId records = []) :
    (evidenceOf rcaRunId specialistRunId
      (attempts checks (Branch.start specialistRuns records) as).records = [] ∨
      ∃ drafts ∈ (attempts checks (Branch.start specialistRuns records) as).collections,
        DraftedFor rcaRunId specialistRunId drafts
        (evidenceOf rcaRunId specialistRunId
          (attempts checks (Branch.start specialistRuns records) as).records)) ∧
    ∀ earlier a later, as = earlier ++ a :: later →
      ∀ b, b = attempts checks (Branch.start specialistRuns records) earlier →
      (evidenceOf rcaRunId specialistRunId b.records ≠ [] → (a.run checks b).invocations = b.invocations) ∧
      ((∀ o ∈ a.outcomes checks b, o.reply ≠ .stopped) → (a.run checks b).invocations ≤ b.invocations + 1) ∧
      (a.outcomes checks b).Pairwise Sticky ∧
      ∀ o ∈ a.outcomes checks b, ∀ value, o.reply = .returned value →
        ∃ id, OwnedValue checks (a.session id) o.after.records value := by
  have start : Stored rcaRunId specialistRunId kind (Branch.start specialistRuns records) := .inl none_
  refine ⟨(attempts_step at_ start).imp_right And.left, ?_⟩
  rintro earlier a later rfl b rfl
  have stored : Stored _ _ _ (attempts checks _ earlier) :=
    attempts_step (fun a mem => at_ a (List.mem_append_left _ mem)) start
  have here := at_ a (List.mem_append_right _ List.mem_cons_self)
  refine ⟨(run_step here stored).1.invocations, ?_⟩
  obtain ⟨nothing, uncalled⟩ | ⟨id, b', uncalled, kept, unused, outcomes, run⟩ :=
    outcomes_cases checks (attempts checks (Branch.start specialistRuns records) earlier) a
  · rw [nothing, uncalled]
    exact ⟨fun _ => Nat.le_succ _, List.Pairwise.nil, fun o mem => absurd mem List.not_mem_nil⟩
  · rw [outcomes, run, ← uncalled]
    refine ⟨session_invocations a.exchanges, session_sticky a.exchanges, fun o mem value returned => ⟨id, ?_⟩⟩
    have within : b'.toolCalls ≤ (a.session id).maxToolCalls := unused ▸ Nat.zero_le _
    exact (((session_sound a.exchanges kept within).1 o mem).returned value returned).2.1

end Attempts

/-! ## A commit that is not acknowledged -/

/-- An attempt with one tool and a deadline at ten. -/
def latencyAttempt (opening : List Answer) (exchanges : List Exchange) : Attempt where
  config := {
    request := {
      incidentId := 1
      rcaRunId := 2
      alertIssue := "latency"
      scope := some ⟨.GCP, "shop", true, shop_ne⟩
      windowStart := 0
      windowEnd := 5
      availableTools := [⟨"metrics.query", "metrics.query", .METRICS, .obj []⟩]
      alertIssue_ne := by decide
      window_le := by decide }
    specialistRunId := 3
    kind := .METRICS
    deadline := 10
    chunkChars := 100
    maxChunks := 4
    maxTotalChars := 400
    maxToolCalls := 5
    limits := by decide
    maxToolCalls_range := by decide }
  opening := opening
  exchanges := exchanges

theorem sha256Text_of_digits {s : String} (length : s.toList.length = 64)
    (digits : (s.toList.all fun c => c ∈ "0123456789abcdef".toList) = true) : Sha256Text s :=
  ⟨length, fun c hc => of_decide_eq_true (List.all_eq_true.1 digits c hc)⟩

/-- What the collector returns. -/
def latencyDraft : EvidenceDraft where
  endpointIdentity := .METRICS
  capability := "metrics.query"
  tool := "metrics.query"
  inputScope := ⟨.GCP, "shop", true, shop_ne⟩
  normalizedScope := ⟨.GCP, "shop", true, shop_ne⟩
  observedAt := 4
  requestWindowStart := 0
  requestWindowEnd := 5
  windowStart := 0
  windowEnd := 5
  structuredJson := .obj []
  rawResult := []
  contentType := "application/json"
  inputSha256 := "e3b0c44298fc1c149afbf4c8996fb92427ae41e4649b934ca495991b7852b855"
  structured := trivial
  contentType_length := by decide
  inputSha256_hex := sha256Text_of_digits rfl (by decide +kernel)
  scope_safe := ⟨rfl, rfl⟩
  scope_same := rfl
  capability_of := by decide
  tool_of := by decide
  window := by decide

/-- The first attempt is lost in the commit, the second reads what was committed. -/
def lostCommit : List Attempt :=
  [latencyAttempt [.done [], .inserted 3, .clock (some 0), .done []]
      [⟨.collect, [.clock (some 1), .clock (some 1), .done [], .clock (some 1), .clock (some 1),
        .drafts [latencyDraft], .clock (some 2),
        .clock (some 2), .done [], .clock (some 2), .inserted 7, .clock (some 2), .unacknowledged none]⟩],
    latencyAttempt [.done [], .done [], .clock (some 3), .done []]
      [⟨.collect, [.clock (some 4), .clock (some 4), .done [], .clock (some 4), .clock (some 4),
        .clock (some 4), .clock (some 4)]⟩]]

def plainChecks : Checks := ⟨fun _ => "", fun _ => true, ⟨4300, 1000, fun _ => .nan⟩⟩

/-- Nothing is committed meanwhile. -/
def Answer.quiet : Answer → Bool
  | .done rows => rows.isEmpty
  | _ => true

/-- An answer that commits nothing commits nothing under this specialist run. -/
theorem Answer.foreign_of_quiet {rcaRunId specialistRunId : Uuid} {answer : Answer}
    (h : answer.quiet = true) :
    Foreign rcaRunId specialistRunId answer := by
  rintro rows rfl row mem
  rw [List.isEmpty_iff.1 h] at mem
  exact absurd mem List.not_mem_nil

theorem lostCommit_at : ∀ a ∈ lostCommit, a.At 2 3 .METRICS := by
  have quiet : (lostCommit.all fun a => a.opening.all Answer.quiet &&
      a.exchanges.all fun e => e.answers.all Answer.quiet) = true := rfl
  rw [List.all_eq_true] at quiet
  intro a mem
  have parts := quiet a mem
  rw [Bool.and_eq_true, List.all_eq_true, List.all_eq_true] at parts
  have keys : a.config.request.rcaRunId = 2 ∧ a.config.kind = .METRICS := by
    rcases List.mem_pair.1 mem with rfl | rfl
    · exact ⟨rfl, rfl⟩
    · exact ⟨rfl, rfl⟩
  exact ⟨keys.1, keys.2, fun answer hanswer => Answer.foreign_of_quiet (parts.1 answer hanswer),
    fun e he answer hanswer => Answer.foreign_of_quiet (List.all_eq_true.1 (parts.2 e he) answer hanswer)⟩

/-- The evidence of the lost commit is that of one collection, and both attempts called the collector once. -/
theorem lost_commit_collected_once : (attempts plainChecks (Branch.start [] []) lostCommit).invocations = 1 ∧
    ∃ drafts ∈ (attempts plainChecks (Branch.start [] []) lostCommit).collections,
      DraftedFor 2 3 drafts (evidenceOf 2 3
        (attempts plainChecks (Branch.start [] []) lostCommit).records) := by
  refine ⟨rfl, (evidence_collected_once plainChecks lostCommit_at rfl).1.resolve_left fun none_ => ?_⟩
  have one : (evidenceOf 2 3 (attempts plainChecks (Branch.start [] []) lostCommit).records).length = 1 := rfl
  rw [none_] at one
  cases one

end SreAgent.Rca
