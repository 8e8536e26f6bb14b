import SreAgent.Rca.ToolSpecs

/-!
# What a collection does

A collection that finds no evidence of its specialist run calls the collector once and stores all
the drafts it returned, or none of them. One that finds evidence hands it out.
-/

namespace SreAgent.Rca
open Base Procedure

/-- Rows that other transactions may commit. -/
def Others (env : Answer → Prop) (rows : List EvidenceRecord) : Prop :=
  ∀ row ∈ rows, ∃ meanwhile, env (.done meanwhile) ∧ row ∈ meanwhile

theorem Others.append {env : Answer → Prop} {rows rows' : List EvidenceRecord} (h : Others env rows)
    (h' : Others env rows') :
    Others env (rows ++ rows') := by
  intro row mem
  rcases List.mem_append.1 mem with mem | mem
  · exact h row mem
  · exact h' row mem

theorem others_nil (env : Answer → Prop) : Others env [] := nofun

/-- What the answers of other workers commit are rows of others. -/
theorem others_committed {env : Answer → Prop} {used : List Answer}
    (allowed : ∀ answer ∈ used, env answer) : Others env (committed used) := by
  intro row mem
  obtain ⟨answer, hanswer, mem⟩ := List.mem_flatMap.1 mem
  cases answer
  case done rows => exact ⟨rows, allowed _ hanswer, mem⟩
  all_goals exact absurd mem List.not_mem_nil

/-- After a procedure that only reads, one goes on with the rows committed meanwhile. -/
theorem ToolReads.andThen {env : Answer → Prop} {α β : Type} {x : ToolM α} {f : α → ToolM β} {b : Branch}
    {P : α → List Answer → Prop} {R : Reply ToolFault β → Branch → List Answer → Prop}
    (reads : ToolReads env x b P)
    (returned : ∀ a u, P a u → Others env (committed u) →
      (f a).wp env (fun r b' v => R r b' (u ++ v)) (b.meanwhile (committed u)))
    (ended : ∀ r u, (∀ a, r ≠ .returned a) → Others env (committed u) → R r (b.meanwhile (committed u)) u) :
    (x >>= f).wp env R b := by
  refine wp_bind (wp_allowed reads) ?_ ?_ ?_
  · rintro a _ u ⟨allowed, rfl, holds⟩
    rw [acts_eq]
    exact returned a u (holds a rfl) (others_committed allowed)
  · rintro e _ u ⟨allowed, rfl, -⟩
    rw [acts_eq]
    exact ended (.raised e) u nofun (others_committed allowed)
  · rintro _ u ⟨allowed, rfl, -⟩
    rw [acts_eq]
    exact ended .stopped u nofun (others_committed allowed)

namespace EvidenceToolSession

variable {env : Answer → Prop} {checks : Checks} {config : SessionConfig} {b : Branch}

/-- The rows are those of the drafts. -/
def Drafted (config : SessionConfig) (drafts : List EvidenceDraft) (rows : List EvidenceRecord) : Prop :=
  List.Forall₂ (fun draft row => row = draft.record config.request.rcaRunId config.specialistRunId row.id)
    drafts rows

/-! ## Inserts -/

/-- A transaction under way, with the drafts inserted so far. -/
def Inserting (env : Answer → Prop) (config : SessionConfig) (b : Branch) (drafts : List EvidenceDraft)
    (b' : Branch) : Prop :=
  ∃ rows written, Others env rows ∧ Drafted config drafts written ∧
    b' = { b with records := b.records ++ rows, pending := written }

/-- What is left where nothing is committed. -/
def Uncommitted (env : Answer → Prop) (b b' : Branch) : Prop :=
  ∃ rows pending, Others env rows ∧ b' = { b with records := b.records ++ rows, pending }

/-- What is left once the drafts are committed. -/
def Committed (env : Answer → Prop) (config : SessionConfig) (b : Branch) (drafts : List EvidenceDraft)
    (b' : Branch) : Prop :=
  ∃ rows rows' written, Others env rows ∧ Others env rows' ∧ Drafted config drafts written ∧
    b' = { b with records := b.records ++ rows ++ written ++ rows', pending := [] }

/-- A batch that is not committed stays so while others commit. -/
theorem Uncommitted.meanwhile {b' : Branch} (h : Uncommitted env b b') {rows : List EvidenceRecord}
    (others : Others env rows) :
    Uncommitted env b (b'.meanwhile rows) := by
  obtain ⟨rows', pending, others', rfl⟩ := h
  refine ⟨rows' ++ rows, pending, others'.append others, ?_⟩
  rw [← List.append_assoc]
  rfl

theorem Committed.meanwhile {drafts : List EvidenceDraft} {b' : Branch}
    (h : Committed env config b drafts b') {rows : List EvidenceRecord} (others : Others env rows) :
    Committed env config b drafts (b'.meanwhile rows) := by
  obtain ⟨before, after, written, hbefore, hafter, drafted, rfl⟩ := h
  refine ⟨before, after ++ rows, written, hbefore, hafter.append others, drafted, ?_⟩
  rw [← List.append_assoc]
  rfl

theorem Inserting.meanwhile {drafts : List EvidenceDraft} {b' : Branch}
    (h : Inserting env config b drafts b') {rows : List EvidenceRecord} (others : Others env rows) :
    Inserting env config b drafts (b'.meanwhile rows) := by
  obtain ⟨rows', written, others', drafted, rfl⟩ := h
  refine ⟨rows' ++ rows, written, others'.append others, drafted, ?_⟩
  rw [← List.append_assoc]
  rfl

theorem Inserting.uncommitted {drafts : List EvidenceDraft} {b' : Branch}
    (h : Inserting env config b drafts b') : Uncommitted env b b' := by
  obtain ⟨rows, written, others, -, rfl⟩ := h
  exact ⟨rows, written, others, rfl⟩

/-- Saving one draft adds it to the batch, or leaves the batch uncommitted. -/
theorem save_spec {drafts : List EvidenceDraft} {draft : EvidenceDraft} {b' : Branch}
    (h : Inserting env config b drafts b') :
    (save config draft).wp env (fun r b'' _ => match r with
      | .returned _ => Inserting env config b (drafts ++ [draft]) b''
      | _ => Uncommitted env b b'') b' := by
  refine answer_reads.andThen ?_ ?_
  · rintro a _ ⟨-, rfl⟩ others
    have now := h.meanwhile others
    cases a
    case inserted id =>
      refine wp_get_bind ?_
      dsimp only
      split
      · exact wp_raise_bind now.uncommitted
      · refine wp_modify_bind (wp_pure ?_)
        obtain ⟨rows, written, others, drafted, same⟩ := now
        refine ⟨rows, written ++ [draft.record config.request.rcaRunId config.specialistRunId id],
          others, ?_, ?_⟩
        · exact List.rel_append drafted (.cons rfl .nil)
        · rw [same]
    case raises e => exact wp_raise now.uncommitted
    all_goals exact wp_stop now.uncommitted
  · intro r u unreturned others
    cases r with
    | returned a => exact absurd rfl (unreturned a)
    | raised e => exact (h.meanwhile others).uncommitted
    | stopped => exact (h.meanwhile others).uncommitted

/-- A draft is persisted with its digest, or the batch stays uncommitted. -/
theorem persistDraft_spec {drafts : List EvidenceDraft} {draft : EvidenceDraft} {b' : Branch}
    (h : Inserting env config b drafts b') :
    (persistDraft config draft).wp env (fun r b'' _ => match r with
      | .returned _ => Inserting env config b (drafts ++ [draft]) b''
      | _ => Uncommitted env b b'') b' := by
  refine ensureBeforeDeadline_reads.andThen (fun _ u _ others => ?_) fun r u unreturned others => ?_
  · refine wp_bind (save_spec (h.meanwhile others)) ?_ (fun _ _ _ h => h) fun _ _ h => h
    intro reference b'' _ saved
    refine ensureBeforeDeadline_reads.andThen (fun _ u _ others => ?_) fun r u unreturned others => ?_
    · exact wp_pure (saved.meanwhile others)
    · cases r with
      | returned a => exact absurd rfl (unreturned a)
      | raised e => exact (saved.meanwhile others).uncommitted
      | stopped => exact (saved.meanwhile others).uncommitted
  · cases r with
    | returned a => exact absurd rfl (unreturned a)
    | raised e => exact (h.meanwhile others).uncommitted
    | stopped => exact (h.meanwhile others).uncommitted

/-- All the drafts are stored, or none. -/
theorem persistAll_spec (drafts : List EvidenceDraft) :
    (persistAll config drafts).wp env (fun _ b' _ => Uncommitted env b b' ∨
      Committed env config b drafts b') b := by
  have start : Uncommitted env b b := ⟨[], b.pending, others_nil env, by rw [List.append_nil]⟩
  refine remainingSeconds_reads.andThen (fun _ u _ others => ?_) fun r u _ others =>
    .inl (start.meanwhile others)
  have start := start.meanwhile others
  refine wp_bind (I := fun r b' _ => match r with
    | .returned _ => Committed env config b drafts b'
    | _ => Uncommitted env b b' ∨ Committed env config b drafts b') ?_ ?_ (fun _ _ _ h => h) fun _ _ h => h
  · refine awaiting_reads.andThen (fun _ v _ others' => ?_) fun r v unreturned others' => ?_
    · refine wp_modify_bind ?_
      have opened : Inserting env config b
          [] { b.meanwhile (committed u ++ committed v) with pending := [] } :=
        ⟨committed u ++ committed v, [], others.append others', .nil, rfl⟩
      have same : { (b.meanwhile (committed u)).meanwhile (committed v) with pending := [] } =
          { b.meanwhile (committed u ++ committed v) with pending := [] } := by
        rw [Branch.meanwhile, Branch.meanwhile, Branch.meanwhile, List.append_assoc]
      rw [same]
      refine wp_bind (wp_each (I := fun done _ b' => Inserting env config b done b')
        (Q := fun r b' => match r with
          | .returned _ => Inserting env config b drafts b'
          | _ => Uncommitted env b b') ?_ ?_ opened) ?_ ?_ ?_
      · intro done draft _ b' inserting
        refine wp_mono (persistDraft_spec inserting) ?_
        rintro (_ | _ | _) b'' _ h <;> exact h
      · exact fun _ _ h => h
      · intro references b' _ inserted
        refine answer_reads.andThen ?_ ?_
        · rintro a _ ⟨-, rfl⟩ others
          have now := inserted.meanwhile others
          have done : Committed env config b drafts (b'.meanwhile (committed [a])).commit := by
            obtain ⟨rows, written, others, drafted, same⟩ := now
            refine ⟨rows, [], written, others, others_nil env, drafted, ?_⟩
            rw [same, Branch.commit, List.append_nil]
          cases a
          case done => exact wp_modify_bind (wp_pure done)
          case raises e => exact wp_raise (.inl now.uncommitted)
          case unacknowledged e =>
            cases e with
            | some e => exact wp_modify_bind (wp_raise (.inr done))
            | none => exact wp_modify_bind (wp_stop (.inr done))
          all_goals exact wp_stop (.inl now.uncommitted)
        · intro r u unreturned others
          cases r with
          | returned a => exact absurd rfl (unreturned a)
          | raised e => exact .inl (inserted.meanwhile others).uncommitted
          | stopped => exact .inl (inserted.meanwhile others).uncommitted
      · exact fun _ _ _ h => .inl h
      · exact fun _ _ h => .inl h
    · cases r with
      | returned a => exact absurd rfl (unreturned a)
      | raised e => exact .inl (start.meanwhile others')
      | stopped => exact .inl (start.meanwhile others')
  · intro references b' _ committed_
    refine ensureBeforeDeadline_reads.andThen (fun _ v _ others => ?_) fun _ v _ others =>
      .inr (committed_.meanwhile others)
    exact wp_pure (.inr (committed_.meanwhile others))

/-! ## Collections -/

/-- A listing finds no evidence of the specialist run. -/
def ListedNone (env : Answer → Prop) (config : SessionConfig) (b : Branch) : Prop :=
  ∃ rows, Others env rows ∧ evidenceOf config.request.rcaRunId config.specialistRunId (b.records ++ rows) = []

/-- Only rows of other transactions have been added. -/
def Unstored (env : Answer → Prop) (b s : Branch) : Prop :=
  ∃ rows, Others env rows ∧ s.records = b.records ++ rows

theorem Unstored.meanwhile {s : Branch} (h : Unstored env b s) {rows : List EvidenceRecord}
    (others : Others env rows) :
    Unstored env b (s.meanwhile rows) := by
  obtain ⟨rows', others', same⟩ := h
  refine ⟨rows' ++ rows, others'.append others, ?_⟩
  rw [Branch.meanwhile, same, List.append_assoc]

/-- The rows another transaction or one collection of drafts has added. -/
def Added (env : Answer → Prop) (config : SessionConfig) (b s : Branch) : Prop :=
  Unstored env b s ∨
    ListedNone env config b ∧ ∃ drafts ∈ s.collections, ∃ rows rows' written, Others env rows ∧
      Others env rows' ∧
      Drafted config drafts written ∧ s.records = b.records ++ rows ++ written ++ rows'

/-- How far a collection from `b` has come: its drafts are stored at once, after a listing that found
none, and only after such a listing is the collector called. -/
structure Under (env : Answer → Prop) (config : SessionConfig) (b s : Branch) : Prop where
  toolCalls : s.toolCalls = b.toolCalls
  receipt : s.receipt = b.receipt
  terminalErrorCode : s.terminalErrorCode = b.terminalErrorCode
  specialistRuns : s.specialistRuns = b.specialistRuns
  records : Added env config b s
  invocations : s.invocations = b.invocations ∨ s.invocations = b.invocations + 1 ∧ ListedNone env config b
  collections : b.collections ⊆ s.collections

theorem under_refl : Under env config b b where
  toolCalls := rfl
  receipt := rfl
  terminalErrorCode := rfl
  specialistRuns := rfl
  records := .inl ⟨[], others_nil env, (List.append_nil _).symm⟩
  invocations := .inl rfl
  collections := List.Subset.refl _

theorem Added.meanwhile {s : Branch} (h : Added env config b s) {rows : List EvidenceRecord}
    (others : Others env rows) :
    Added env config b (s.meanwhile rows) := by
  obtain unstored | ⟨none_, drafts, mem, before, after, written, hbefore, hafter, drafted, same⟩ := h
  · exact .inl (unstored.meanwhile others)
  · refine .inr ⟨none_, drafts, mem, before, after ++ rows, written, hbefore, hafter.append others,
      drafted, ?_⟩
    rw [Branch.meanwhile, same, List.append_assoc]

theorem Under.meanwhile {s : Branch} (h : Under env config b s) {rows : List EvidenceRecord}
    (others : Others env rows) :
    Under env config b (s.meanwhile rows) :=
  { h with records := h.records.meanwhile others }

/-- What a collection ends in: a receipt of stored rows, which the session keeps, or nothing that it keeps. -/
def Collects (env : Answer → Prop) (checks : Checks) (config : SessionConfig) (b : Branch)
    (r : Reply ToolFault EvidenceReceipt) (b' : Branch) (used : List Answer) : Prop :=
  match r with
  | .returned receipt => OwnedReceipt checks config b'.records receipt ∧ Checked config.deadline used ∧
      ∃ s, Under env config b s ∧ b' = { s with receipt := some receipt }
  | _ => Under env config b b'

/-- A collection that returns nothing collects what it had so far. -/
theorem Collects.of_under {r : Reply ToolFault EvidenceReceipt} {s : Branch} {used : List Answer}
    (h : Under env config b s) (unreturned : ∀ receipt, r ≠ .returned receipt) :
    Collects env checks config b r s used := by
  cases r with
  | returned receipt => exact absurd rfl (unreturned receipt)
  | raised e => exact h
  | stopped => exact h

theorem Collects.prepend {r : Reply ToolFault EvidenceReceipt} {b' : Branch} {used : List Answer}
    (before : List Answer) (h : Collects env checks config b r b' used) :
    Collects env checks config b r b' (before ++ used) := by
  cases r with
  | returned receipt => exact ⟨h.1, h.2.1.append before, h.2.2⟩
  | raised e => exact h
  | stopped => exact h

/-- The end of a collection that builds a receipt of listed rows. -/
theorem keep_built {s : Branch} (h : Under env config b s) {persisted : List PersistedEvidence}
    (listed : listSpecialistEvidence config.request.rcaRunId config.specialistRunId s.records =
      some persisted) :
    (buildReceipt checks config persisted >>= keepReceipt).wp env (Collects env checks config b) s := by
  refine (buildReceipt_reads persisted).andThen ?_ fun r u unreturned others =>
    .of_under (h.meanwhile others) unreturned
  rintro _ u ⟨checked, allChunks, rfl, built⟩ others
  refine wp_modify_bind (wp_pure ?_)
  refine ⟨?_, checked.append_nil, _, h.meanwhile others, rfl⟩
  exact (receiptOf_owned listed built).mono (List.subset_append_left _ _)

/-- The end of a collection without evidence. -/
theorem keep_empty (checks : Checks) {s : Branch} (h : Under env config b s) :
    (emptyReceipt config >>= keepReceipt).wp env (Collects env checks config b) s := by
  refine emptyReceipt_reads.andThen ?_ fun r u unreturned others => .of_under (h.meanwhile others) unreturned
  rintro _ u ⟨rfl, checked⟩ others
  refine wp_modify_bind (wp_pure ?_)
  exact ⟨⟨rfl, nofun, nofun⟩, checked.append_nil, _, h.meanwhile others, rfl⟩

/-- The collector is called after a listing that found nothing. -/
theorem collector_spec {s : Branch} (request : SpecialistRequest) (h : Under env config b s)
    (uncalled : s.invocations = b.invocations) (unstored : Unstored env b s)
    (none_ : ListedNone env config b) : (collectEvidenceDrafts request).wp env (fun r s' _ =>
      Under env config b s' ∧ Unstored env b s' ∧ ∀ drafts, r = .returned drafts →
        drafts ∈ s'.collections) s := by
  have called : Under env config b { s with invocations := s.invocations + 1 } :=
    { h with invocations := .inr ⟨by rw [uncalled], none_⟩ }
  refine wp_modify_bind (answer_reads.andThen ?_ ?_)
  · rintro a _ ⟨-, rfl⟩ others
    have now := called.meanwhile others
    have still : Unstored env b (s.meanwhile (committed [a])) := unstored.meanwhile others
    cases a
    case drafts drafts =>
      refine wp_modify_bind (wp_pure ⟨?_, still, ?_⟩)
      · exact { now with
          records := .inl still
          collections := fun drafts' mem => List.mem_append_left _ (now.collections mem) }
      · rintro _ ⟨⟩
        exact List.mem_append_right _ List.mem_cons_self
    case raises e => exact wp_raise ⟨now, still, nofun⟩
    all_goals exact wp_stop ⟨now, still, nofun⟩
  · exact fun r u unreturned others =>
      ⟨called.meanwhile others, unstored.meanwhile others, fun drafts same => absurd same (unreturned drafts)⟩

/-- The drafts of the collector are stored at once or not at all. -/
theorem store_spec {s : Branch} {drafts : List EvidenceDraft} (h : Under env config b s)
    (unstored : Unstored env b s) (none_ : ListedNone env config b) (mem : drafts ∈ s.collections) :
    (persistAll config drafts).wp env (fun _ s' _ => Under env config b s') s := by
  refine wp_mono (persistAll_spec drafts) ?_
  obtain ⟨earlier, others, same⟩ := unstored
  rintro r s' u (⟨rows, pending, others', rfl⟩ | ⟨rows, rows', written, others', others'', drafted, rfl⟩)
  · refine { h with records := .inl ⟨earlier ++ rows, others.append others', ?_⟩ }
    rw [same, List.append_assoc]
  · refine { h with
      records := .inr ⟨none_, drafts, mem, earlier ++ rows, rows', written, others.append others', others'',
        drafted, ?_⟩ }
    rw [same, ← List.append_assoc]

/-- One collection ends in a receipt of stored rows, or keeps nothing. -/
theorem collectOnce_spec : (collectOnce checks config).wp env (Collects env checks config b) b := by
  have start : Under env config b b := under_refl
  refine approvedTools_reads.andThen ?_ fun r u unreturned others =>
    .of_under (start.meanwhile others) unreturned
  rintro approved _ ⟨rfl, -⟩ others
  have start := start.meanwhile others
  have unstored : Unstored env b (b.meanwhile (committed [])) := ⟨_, others, rfl⟩
  cases approved with
  | none => exact keep_empty checks start
  | some approved =>
    refine listPersisted_reads.andThen ?_ fun r u unreturned others =>
      .of_under (start.meanwhile others) unreturned
    rintro persisted u ⟨listed, -⟩ others
    have now := start.meanwhile others
    have unstored := unstored.meanwhile others
    rw [acts_eq] at listed
    split
    · exact wp_mono (keep_built now listed) fun r b' used h => (h.prepend u).prepend []
    · next empty =>
      rw [not_not] at empty
      have none_ : ListedNone env config b := by
        obtain ⟨rows, others, same⟩ := unstored
        exact ⟨rows, others, same ▸ (listed_eq_nil listed).1 empty⟩
      refine remainingSeconds_reads.andThen ?_ fun r u unreturned others =>
        .of_under (now.meanwhile others) unreturned
      rintro _ u₂ - others
      refine wp_bind (collector_spec _ (now.meanwhile others) rfl (unstored.meanwhile others) none_) ?_ ?_ ?_
      · rintro drafts s u₃ ⟨under, unstored, mem⟩
        have mem := mem drafts rfl
        refine ensureBeforeDeadline_reads.andThen ?_ fun r u unreturned others =>
          .of_under (under.meanwhile others) unreturned
        rintro _ u₄ - others
        have under := under.meanwhile others
        have unstored := unstored.meanwhile others
        refine (validatedDrafts_reads drafts approved).andThen ?_ fun r u unreturned others =>
          .of_under (under.meanwhile others) unreturned
        rintro _ _ ⟨rfl, rfl, -⟩ others
        have under := under.meanwhile others
        have unstored := unstored.meanwhile others
        split
        · refine wp_mono (keep_empty checks under) fun r b' used h => ?_
          exact (((((h.prepend []).prepend u₄).prepend u₃).prepend u₂).prepend u).prepend []
        · refine wp_bind (store_spec under unstored none_ mem) ?_ ?_ ?_
          · rintro references s u₅ under
            refine listPersisted_reads.andThen ?_ fun r u unreturned others =>
              .of_under (under.meanwhile others) unreturned
            rintro stored u₆ ⟨listed, -⟩ others
            have under := under.meanwhile others
            rw [acts_eq] at listed
            split
            · exact wp_raise_bind under
            · refine wp_mono (keep_built under listed) fun r b' used h => ?_
              exact (((((((h.prepend u₆).prepend u₅).prepend []).prepend u₄).prepend u₃).prepend u₂).prepend
                u).prepend []
          · exact fun e s u under => under
          · exact fun s u under => under
      · exact fun e s u h => h.1
      · exact fun s u h => h.1

end EvidenceToolSession

end SreAgent.Rca
