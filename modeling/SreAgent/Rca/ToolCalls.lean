import SreAgent.Rca.Collecting

/-!
# Calls of the evidence tools

Whatever a model calls and in whatever order, a session admits no more calls than its budget, returns
nothing but what rows of its own specialist run and kind hold, and nothing without a reading of the
clock before the deadline after the last query (`tool_calls_owned`).
-/

namespace SreAgent.Rca
open Base Procedure

/-- A call of one of the two tools. -/
inductive ToolCall where
  | collect
  | read (evidenceId : Option Uuid) (chunkIndex : Option Int)

inductive ToolValue where
  | receipt (receipt : EvidenceReceipt)
  | chunk (chunk : EvidenceChunk)

namespace EvidenceToolSession

/-- The tool a call is of. -/
def call (checks : Checks) (config : SessionConfig) : ToolCall → ToolM ToolValue
  | .collect => do return .receipt (← collectEvidence checks config)
  | .read evidenceId chunkIndex => do return .chunk (← readEvidenceChunk checks config evidenceId chunkIndex)

variable {env : Answer → Prop} {checks : Checks} {config : SessionConfig} {b : Branch}

/-! ## Admission -/

/-- A call counted. -/
def Branch.count (b : Branch) : Branch := { b with toolCalls := b.toolCalls + 1 }

/-- The deadline is checked against one reading of the clock, and refused with a stable code. -/
theorem ensureBeforeDeadline_spec : (ensureBeforeDeadline config).wp env (fun r b' used => match r with
    | .returned _ => b' = b ∧ ∃ now, used = [.clock (some now)] ∧ now < config.deadline
    | .raised e => (∃ code, e = .evidenceTool code) ∧ b' = b ∧ committed used = []
    | .stopped => b' = b.meanwhile (committed used)) b := by
  have quiet : b.meanwhile [] = b := congrArg (fun records => { b with records }) (List.append_nil b.records)
  refine wp_bind (I := fun r b' used => match r with
    | .returned now => b' = b ∧ used = [.clock now]
    | .raised _ => False
    | .stopped => b' = b.meanwhile (committed used)) ?_ ?_ (fun _ _ _ h => h.elim) fun _ _ h => h
  · have asked : (ask Answer.act : Procedure Branch Answer ToolFault Answer).wp env
      (fun r b' used => match r with
        | .returned answer => b' = b.meanwhile (committed used) ∧ used = [answer]
        | .raised _ => False
        | .stopped => b' = b.meanwhile (committed used)) b :=
          wp_ask quiet.symm fun answer _ => ⟨acts_eq [answer] b, rfl⟩
    refine wp_bind asked ?_ (fun _ _ _ h => h.elim) fun _ _ h => h
    rintro answer _ _ ⟨rfl, rfl⟩
    cases answer
    case clock now => exact wp_pure ⟨quiet, rfl⟩
    all_goals exact wp_stop rfl
  · rintro now _ _ ⟨rfl, rfl⟩
    cases now with
    | none => exact wp_raise ⟨⟨_, rfl⟩, rfl, rfl⟩
    | some now =>
      dsimp only
      split
      · exact wp_raise ⟨⟨_, rfl⟩, rfl, rfl⟩
      · next before => exact wp_pure ⟨rfl, now, rfl, not_le.1 before⟩

/-- A call is admitted before the deadline and within the budget; one that is not changes nothing. -/
theorem admitToolCall_spec : (admitToolCall config).wp env (fun r b' used => match r with
    | .returned _ => b.toolCalls < config.maxToolCalls ∧ b' = Branch.count b ∧ ∃ now,
    used = [.clock (some now)] ∧ now < config.deadline
    | .raised e => (∃ code, e = .evidenceTool code) ∧ b' = b ∧ committed used = []
    | .stopped => b' = b.meanwhile (committed used)) b := by
  refine wp_bind ensureBeforeDeadline_spec ?_ (fun _ _ _ h => h) fun _ _ h => h
  rintro _ _ _ ⟨rfl, now, rfl, before⟩
  refine wp_get_bind ?_
  dsimp only
  split
  · exact wp_raise_bind ⟨⟨_, rfl⟩, rfl, rfl⟩
  · next within => exact wp_modify ⟨not_le.1 within, rfl, now, rfl, before⟩

/-- The reading of an admission is before the deadline. -/
theorem checked_admission {now : Timestamp} (before : now < config.deadline) :
    Checked config.deadline [.clock (some now)] :=
  ⟨[], now, [], rfl, before, nofun⟩

/-! ## Collecting -/

/-- How a call of `collect_evidence` ends. -/
inductive CollectCase (env : Answer → Prop) (checks : Checks) (config : SessionConfig) (b : Branch) :
    Reply ToolFault EvidenceReceipt → Branch → List Answer → Prop where
  | refused (code : StableSpecialistCode) (used : List Answer) (quiet : committed used = []) :
      CollectCase env checks config b (.raised (.evidenceTool code)) b used
  | lost (used : List Answer) : CollectCase env checks config b .stopped (b.meanwhile (committed used)) used
  | failed (admitted : b.toolCalls < config.maxToolCalls) (code : StableSpecialistCode)
      (sticky : b.terminalErrorCode = some code)
      (used : List Answer) : CollectCase env checks config b (.raised (.evidenceTool code))
      (Branch.count b) used
  | kept (admitted : b.toolCalls < config.maxToolCalls) (unfailed : b.terminalErrorCode = none)
      (receipt : EvidenceReceipt) (cached : b.receipt = some receipt) (used : List Answer)
      (checked : Checked config.deadline used) :
      CollectCase env checks config b (.returned receipt) (Branch.count b) used
  | collected (admitted : b.toolCalls < config.maxToolCalls) (unfailed : b.terminalErrorCode = none)
      (fresh : b.receipt = none) (receipt : EvidenceReceipt) (s : Branch)
      (under : Under env config (Branch.count b) s) (owned : OwnedReceipt checks config s.records receipt)
      (used : List Answer) (checked : Checked config.deadline used) :
      CollectCase env checks config b (.returned receipt) { s with receipt := some receipt } used
  | fails (admitted : b.toolCalls < config.maxToolCalls) (unfailed : b.terminalErrorCode = none)
      (fresh : b.receipt = none) (code : StableSpecialistCode) (s : Branch)
      (under : Under env config (Branch.count b) s) (used : List Answer) :
      CollectCase env checks config b (.raised (.evidenceTool code))
      { s with terminalErrorCode := some code } used
  | stops (admitted : b.toolCalls < config.maxToolCalls) (unfailed : b.terminalErrorCode = none)
      (fresh : b.receipt = none) (s : Branch) (under : Under env config (Branch.count b) s)
      (used : List Answer) : CollectCase env checks config b .stopped s used

theorem collectEvidence_spec :
    (collectEvidence checks config).wp env (CollectCase env checks config b) b := by
  refine wp_bind admitToolCall_spec ?_ ?_ ?_
  · rintro _ _ u ⟨admitted, rfl, now, rfl, before⟩
    refine wp_get_bind ?_
    split
    · next _ _ code sticky => exact wp_raise (.failed admitted code sticky _)
    · next receipt unfailed cached =>
        exact wp_pure (.kept admitted unfailed receipt cached _ (checked_admission before))
    · next unfailed fresh =>
      refine wp_tryCatch collectOnce_spec ?_ ?_ ?_
      · rintro receipt _ v ⟨owned, checked, s, under, rfl⟩
        exact .collected admitted unfailed fresh receipt s under owned _ (checked.append _)
      · intro e s v under
        exact wp_modify_bind (wp_raise (.fails admitted unfailed fresh _ s under _))
      · exact fun s v under => .stops admitted unfailed fresh s under _
  · rintro e _ u ⟨⟨code, rfl⟩, rfl, quiet⟩
    exact .refused code u quiet
  · rintro _ u rfl
    exact .lost u

/-! ## Reading -/

/-- How a call of `read_evidence_chunk` ends. -/
inductive ReadCase (checks : Checks) (config : SessionConfig) (b : Branch) : Reply ToolFault EvidenceChunk →
      Branch → List Answer → Prop where
  | refused (code : StableSpecialistCode) (used : List Answer) (quiet : committed used = []) :
      ReadCase checks config b (.raised (.evidenceTool code)) b used
  | lost (used : List Answer) : ReadCase checks config b .stopped (b.meanwhile (committed used)) used
  | returned (admitted : b.toolCalls < config.maxToolCalls) (chunk : EvidenceChunk) (used : List Answer)
      (owned : OwnedChunk checks config (b.meanwhile (committed used)).records chunk)
      (checked : Checked config.deadline used) :
      ReadCase checks config b (.returned chunk) ((Branch.count b).meanwhile (committed used)) used
  | fails (admitted : b.toolCalls < config.maxToolCalls) (code : StableSpecialistCode) (used : List Answer) :
      ReadCase checks config b (.raised (.evidenceTool code))
      ((Branch.count b).meanwhile (committed used)) used
  | stops (admitted : b.toolCalls < config.maxToolCalls) (used : List Answer) :
      ReadCase checks config b .stopped ((Branch.count b).meanwhile (committed used)) used

theorem readEvidenceChunk_spec (evidenceId : Option Uuid) (chunkIndex : Option Int) :
    (readEvidenceChunk checks config evidenceId chunkIndex).wp env (ReadCase checks config b) b := by
  have still : (Branch.count b).meanwhile (committed []) = Branch.count b :=
    congrArg (fun records => { Branch.count b with records }) (List.append_nil b.records)
  refine wp_bind admitToolCall_spec ?_ ?_ ?_
  · rintro _ _ _ ⟨admitted, rfl, now, rfl, before⟩
    have unknown : ReadCase checks config b (.raised (.evidenceTool .ANALYSIS_UNKNOWN_EVIDENCE))
        (Branch.count b) [.clock (some now)] := by
      have fails : ReadCase checks config b (.raised (.evidenceTool .ANALYSIS_UNKNOWN_EVIDENCE))
          ((Branch.count b).meanwhile (committed [.clock (some now)])) [.clock (some now)] :=
            .fails admitted _ _
      rwa [show committed [.clock (some now)] = committed [] from rfl, still] at fails
    dsimp only
    split
    · next evidenceId chunkIndex =>
      split
      · exact wp_raise_bind unknown
      · refine wp_tryCatch (readOnce_reads evidenceId chunkIndex) ?_ ?_ ?_
        · rintro chunk _ v ⟨rfl, holds⟩
          obtain ⟨owned, checked⟩ := holds chunk rfl
          rw [acts_eq] at owned ⊢
          exact .returned admitted chunk ([.clock (some now)] ++ v) owned (checked.append _)
        · rintro e _ v ⟨rfl, -⟩
          rw [acts_eq]
          have fails (code : StableSpecialistCode) : ReadCase checks config b (.raised (.evidenceTool code))
              ((Branch.count b).meanwhile (committed v)) ([.clock (some now)] ++ (v ++ [])) := by
            rw [List.append_nil]
            exact .fails admitted code ([.clock (some now)] ++ v)
          cases e <;> exact wp_raise (fails _)
        · rintro _ v ⟨rfl, -⟩
          rw [acts_eq]
          exact .stops admitted ([.clock (some now)] ++ v)
    · exact wp_raise unknown
  · rintro e _ u ⟨⟨code, rfl⟩, rfl, quiet⟩
    exact .refused code u quiet
  · rintro _ u rfl
    exact .lost u

/-! ## Sessions -/

/-- A call and what the environment answers to it. -/
structure Exchange where
  call : ToolCall
  answers : List Answer

/-- A call that was made, with the answers it used. -/
structure Outcome where
  call : ToolCall
  reply : Reply ToolFault ToolValue
  before : Branch
  after : Branch
  used : List Answer

/-- The call counted. -/
def Outcome.admitted (o : Outcome) : Bool := o.after.toolCalls = o.before.toolCalls + 1

/-- One call of a session. -/
def exchange (checks : Checks) (config : SessionConfig) (b : Branch) (e : Exchange) : Outcome :=
  let (reply, after, rest) := call checks config e.call b e.answers
  ⟨e.call, reply, b, after, e.answers.take (e.answers.length - rest.length)⟩

/-- The calls of a session, one after the other. -/
def session (checks : Checks) (config : SessionConfig) (b : Branch) : List Exchange → List Outcome
  | [] => []
  | e :: exchanges =>
    exchange checks config b e :: session checks config (exchange checks config b e).after exchanges

/-- Where the calls of a session leave it. -/
def sessionEnd (checks : Checks) (config : SessionConfig) (b : Branch) (exchanges : List Exchange) : Branch :=
  exchanges.foldl (fun b e => (exchange checks config b e).after) b

/-- The value is of rows of the session. -/
def OwnedValue (checks : Checks) (config : SessionConfig) (records : List EvidenceRecord) : ToolValue → Prop
  | .receipt receipt => OwnedReceipt checks config records receipt
  | .chunk chunk => OwnedChunk checks config records chunk

/-- How a call ends. -/
inductive CallCase (env : Answer → Prop) (checks : Checks) (config : SessionConfig) (o : Outcome) : Prop where
  | collect (reply : Reply ToolFault EvidenceReceipt) (of : o.call = .collect)
      (same : o.reply = match reply with
      | .returned receipt => .returned (.receipt receipt)
      | .raised e => .raised e
      | .stopped => .stopped)
      (case : CollectCase env checks config o.before reply o.after o.used)
  | read (evidenceId : Option Uuid) (chunkIndex : Option Int) (reply : Reply ToolFault EvidenceChunk)
      (of : o.call = .read evidenceId chunkIndex) (same : o.reply = match reply with
        | .returned chunk => .returned (.chunk chunk)
        | .raised e => .raised e
        | .stopped => .stopped)
      (case : ReadCase checks config o.before reply o.after o.used)

/-- Every tool call meets its case. -/
theorem call_spec (c : ToolCall) :
    (call checks config c).wp env (fun r b' used => CallCase env checks config ⟨c, r, b, b', used⟩) b := by
  cases c with
  | collect =>
    refine wp_bind collectEvidence_spec (fun receipt b' u case => wp_pure ?_) ?_ ?_
    · rw [List.append_nil]
      exact .collect (.returned receipt) rfl rfl case
    · exact fun e b' u case => .collect (.raised e) rfl rfl case
    · exact fun b' u case => .collect .stopped rfl rfl case
  | read evidenceId chunkIndex =>
    refine wp_bind (readEvidenceChunk_spec evidenceId chunkIndex) (fun chunk b' u case => wp_pure ?_) ?_ ?_
    · rw [List.append_nil]
      exact .read evidenceId chunkIndex (.returned chunk) rfl rfl case
    · exact fun e b' u case => .read evidenceId chunkIndex (.raised e) rfl rfl case
    · exact fun b' u case => .read evidenceId chunkIndex .stopped rfl rfl case

theorem exchange_case {e : Exchange} (allowed : ∀ answer ∈ e.answers, env answer) :
    CallCase env checks config (exchange checks config b e) := by
  have spec : (call checks config e.call).wp env
      (fun r b' used => CallCase env checks config ⟨e.call, r, b, b', used⟩) b :=
    call_spec e.call
  obtain ⟨used, split, case⟩ := spec e.answers allowed
  unfold exchange
  generalize call checks config e.call b e.answers = out at split case ⊢
  have same : e.answers.take (e.answers.length - out.2.2.length) = used := by
    rw [split, List.length_append, Nat.add_sub_cancel]
    exact List.take_left
  dsimp only
  rw [same]
  exact case

/-! ## The guarantees -/

/-- What every call of a session keeps: its receipt is of stored rows. -/
def Kept (checks : Checks) (config : SessionConfig) (b : Branch) : Prop :=
  ∀ receipt, b.receipt = some receipt → OwnedReceipt checks config b.records receipt

/-- What holds of a call: only an admitted one returns a value, of rows of the session and after a
reading of the clock before the deadline; one that raises raises a stable code; a refused one changes
nothing, and a read no more than the count of calls. -/
structure Outcome.Sound (checks : Checks) (config : SessionConfig) (o : Outcome) : Prop where
  returned : ∀ value, o.reply = .returned value →
    o.admitted = true ∧ OwnedValue checks config o.after.records value ∧
    Checked config.deadline o.used
  raised : ∀ e, o.reply = .raised e → ∃ code, e = .evidenceTool code
  refused : ∀ e, o.reply = .raised e → o.admitted = false → o.after = o.before
  reading : ∀ evidenceId chunkIndex, o.call = .read evidenceId chunkIndex →
    o.after = { o.before.meanwhile (committed o.used) with toolCalls := o.after.toolCalls }

/-- An outcome whose call is counted. -/
theorem admitted_iff {o : Outcome} : o.admitted = true ↔ o.after.toolCalls = o.before.toolCalls + 1 :=
  decide_eq_true_iff

/-- A collection keeps what a session keeps. -/
theorem CollectCase.keeps {r : Reply ToolFault EvidenceReceipt} {b' : Branch} {used : List Answer}
    (h : CollectCase env checks config b r b' used) (kept : Kept checks config b) :
    Kept checks config b' := by
  cases h with
  | refused => exact kept
  | lost => exact fun receipt cached => (kept receipt cached).mono (List.subset_append_left _ _)
  | failed => exact kept
  | kept => exact kept
  | collected _ _ _ receipt s under owned =>
    rintro _ ⟨⟩
    exact owned
  | fails _ _ fresh _ s under =>
    intro receipt cached
    rw [show s.receipt = b.receipt from under.receipt, fresh] at cached
    cases cached
  | stops _ _ fresh _ under =>
    intro receipt cached
    rw [show b'.receipt = b.receipt from under.receipt, fresh] at cached
    cases cached

/-- A collection is counted once it is admitted. -/
theorem CollectCase.count {r : Reply ToolFault EvidenceReceipt} {b' : Branch} {used : List Answer}
    (h : CollectCase env checks config b r b' used) : b'.toolCalls = b.toolCalls ∨
      b.toolCalls < config.maxToolCalls ∧ b'.toolCalls = b.toolCalls + 1 := by
  cases h with
  | refused => exact .inl rfl
  | lost => exact .inl rfl
  | failed admitted => exact .inr ⟨admitted, rfl⟩
  | kept admitted => exact .inr ⟨admitted, rfl⟩
  | collected admitted _ _ _ s under => exact .inr ⟨admitted, under.toolCalls⟩
  | fails admitted _ _ _ s under => exact .inr ⟨admitted, under.toolCalls⟩
  | stops admitted _ _ _ under => exact .inr ⟨admitted, under.toolCalls⟩

/-- A receipt that is returned is one the session keeps. -/
theorem CollectCase.returned {receipt : EvidenceReceipt} {b' : Branch} {used : List Answer}
    (h : CollectCase env checks config b (.returned receipt) b' used) : b'.toolCalls = b.toolCalls + 1 ∧
      b'.receipt = some receipt ∧
      b'.terminalErrorCode = none ∧ Checked config.deadline used := by
  cases h with
  | kept _ unfailed _ cached _ checked => exact ⟨rfl, cached, unfailed, checked⟩
  | collected _ unfailed _ _ s under _ _ checked =>
    exact ⟨under.toolCalls, rfl, under.terminalErrorCode.trans unfailed, checked⟩

/-- A collection that raises changes nothing, or is counted and keeps its code. -/
theorem CollectCase.raised {e : ToolFault} {b' : Branch} {used : List Answer}
    (h : CollectCase env checks config b (.raised e) b' used) :
    ∃ code, e = .evidenceTool code ∧
      (b' = b ∨ b'.toolCalls = b.toolCalls + 1 ∧ b'.terminalErrorCode = some code) := by
  cases h with
  | refused code => exact ⟨code, rfl, .inl rfl⟩
  | failed _ code sticky => exact ⟨code, rfl, .inr ⟨rfl, sticky⟩⟩
  | fails _ _ _ code s under => exact ⟨code, rfl, .inr ⟨under.toolCalls, rfl⟩⟩

/-- A collection that meets its case is sound. -/
theorem CollectCase.sound {o : Outcome} {reply : Reply ToolFault EvidenceReceipt} (of : o.call = .collect)
    (same : o.reply = match reply with
      | .returned receipt => .returned (.receipt receipt)
      | .raised e => .raised e
      | .stopped => .stopped)
    (case : CollectCase env checks config o.before reply o.after o.used)
      (kept : Kept checks config o.before) : o.Sound checks config where
  returned value returned := by
    rw [same] at returned
    cases reply with
    | returned receipt =>
      cases returned
      obtain ⟨count, cached, -, checked⟩ := case.returned
      exact ⟨admitted_iff.2 count, case.keeps kept receipt cached, checked⟩
    | raised e => cases returned
    | stopped => cases returned
  raised e raised := by
    rw [same] at raised
    cases reply with
    | returned receipt => cases raised
    | raised e =>
      cases raised
      obtain ⟨code, same, -⟩ := case.raised
      exact ⟨code, same⟩
    | stopped => cases raised
  refused e raised refused := by
    rw [same] at raised
    cases reply with
    | returned receipt => cases raised
    | raised e =>
      cases raised
      obtain ⟨-, -, unchanged | ⟨count, -⟩⟩ := case.raised
      · exact unchanged
      · exact absurd (admitted_iff.2 count) (Bool.eq_false_iff.1 refused)
    | stopped => cases raised
  reading evidenceId chunkIndex read := by
    rw [of] at read
    cases read

/-- A read leaves all but the count of calls. -/
theorem ReadCase.frame {r : Reply ToolFault EvidenceChunk} {b' : Branch} {used : List Answer}
    (h : ReadCase checks config b r b' used) :
    b' = { b.meanwhile (committed used) with toolCalls := b'.toolCalls } := by
  cases h with
  | refused code _ quiet =>
    rw [quiet, Branch.meanwhile, List.append_nil]
  | lost => rfl
  | returned => rfl
  | fails => rfl
  | stops => rfl

/-- A read counts one call, or none. -/
theorem ReadCase.count {r : Reply ToolFault EvidenceChunk} {b' : Branch} {used : List Answer}
    (h : ReadCase checks config b r b' used) :
    b'.toolCalls = b.toolCalls ∨ b.toolCalls < config.maxToolCalls ∧ b'.toolCalls = b.toolCalls + 1 := by
  cases h with
  | refused => exact .inl rfl
  | lost => exact .inl rfl
  | returned admitted => exact .inr ⟨admitted, rfl⟩
  | fails admitted => exact .inr ⟨admitted, rfl⟩
  | stops admitted => exact .inr ⟨admitted, rfl⟩

/-- A chunk that is returned is owned, and was read before the deadline. -/
theorem ReadCase.of_returned {chunk : EvidenceChunk} {b' : Branch} {used : List Answer}
    (h : ReadCase checks config b (.returned chunk) b' used) : b'.toolCalls = b.toolCalls + 1 ∧
      OwnedChunk checks config b'.records chunk ∧
      Checked config.deadline used := by
  cases h with
  | returned _ _ _ owned checked => exact ⟨rfl, owned, checked⟩

/-- A read that fails raises a stable code, and at most counts a call. -/
theorem ReadCase.of_raised {e : ToolFault} {b' : Branch} {used : List Answer}
    (h : ReadCase checks config b (.raised e) b' used) :
    ∃ code, e = .evidenceTool code ∧ (b' = b ∨ b'.toolCalls = b.toolCalls + 1) := by
  cases h with
  | refused code => exact ⟨code, rfl, .inl rfl⟩
  | fails _ code => exact ⟨code, rfl, .inr rfl⟩

/-- A read keeps what the session keeps. -/
theorem ReadCase.keeps {r : Reply ToolFault EvidenceChunk} {b' : Branch} {used : List Answer}
    (h : ReadCase checks config b r b' used) (kept : Kept checks config b) : Kept checks config b' := by
  rw [h.frame]
  exact fun receipt cached => (kept receipt cached).mono (List.subset_append_left _ _)

/-- A read that meets its case is sound. -/
theorem ReadCase.sound {o : Outcome} {reply : Reply ToolFault EvidenceChunk}
    (same : o.reply = match reply with
      | .returned chunk => .returned (.chunk chunk)
      | .raised e => .raised e
      | .stopped => .stopped)
    (case : ReadCase checks config o.before reply o.after o.used) : o.Sound checks config where
  returned value returned := by
    rw [same] at returned
    cases reply with
    | returned chunk =>
      cases returned
      obtain ⟨count, owned, checked⟩ := case.of_returned
      exact ⟨admitted_iff.2 count, owned, checked⟩
    | raised e => cases returned
    | stopped => cases returned
  raised e raised := by
    rw [same] at raised
    cases reply with
    | returned chunk => cases raised
    | raised e =>
      cases raised
      obtain ⟨code, same, -⟩ := case.of_raised
      exact ⟨code, same⟩
    | stopped => cases raised
  refused e raised refused := by
    rw [same] at raised
    cases reply with
    | returned chunk => cases raised
    | raised e =>
      cases raised
      obtain ⟨-, -, unchanged | count⟩ := case.of_raised
      · exact unchanged
      · exact absurd (admitted_iff.2 count) (Bool.eq_false_iff.1 refused)
    | stopped => cases raised
  reading _ _ _ := case.frame

/-- A call keeps what a session keeps and is counted at most once. -/
theorem CallCase.step {o : Outcome} (h : CallCase env checks config o)
    (kept : Kept checks config o.before) : Kept checks config o.after ∧
    o.Sound checks config ∧ (o.after.toolCalls = o.before.toolCalls ∨
      o.before.toolCalls < config.maxToolCalls ∧ o.after.toolCalls = o.before.toolCalls + 1) := by
  cases h with
  | collect reply of same case => exact ⟨case.keeps kept, case.sound of same kept, case.count⟩
  | read evidenceId chunkIndex reply of same case => exact ⟨case.keeps kept, case.sound same, case.count⟩

/-- A session's calls, from any state its calls can have come to. -/
theorem session_sound (exchanges : List Exchange) (kept : Kept checks config b)
    (within : b.toolCalls ≤ config.maxToolCalls) :
    (∀ o ∈ session checks config b exchanges, o.Sound checks config) ∧
      b.toolCalls + ((session checks config b exchanges).filter Outcome.admitted).length ≤
        config.maxToolCalls := by
  induction exchanges generalizing b with
  | nil => exact ⟨fun o mem => absurd mem List.not_mem_nil, within⟩
  | cons e exchanges ih =>
    have case : CallCase (fun _ => True) checks config (exchange checks config b e) :=
      exchange_case fun _ _ => trivial
    have start : (exchange checks config b e).before = b := rfl
    obtain ⟨keeps, sound, count⟩ := case.step (start ▸ kept)
    rw [start] at count
    have within' : (exchange checks config b e).after.toolCalls ≤ config.maxToolCalls := by omega
    obtain ⟨later, rest⟩ := ih keeps within'
    constructor
    · intro o mem
      rcases List.mem_cons.1 mem with rfl | mem
      · exact sound
      · exact later o mem
    · rw [session, List.filter_cons]
      split
      · next admitted =>
        rw [List.length_cons]
        rw [admitted_iff, start] at admitted
        omega
      · next refused =>
        rw [admitted_iff, start] at refused
        omega

/-- Evidence tools stay inside their owner and their budget. -/
theorem tool_calls_owned (checks : Checks) (config : SessionConfig) (b : Branch) (exchanges : List Exchange) :
    (∀ o ∈ session checks config b.renew exchanges, o.Sound checks config) ∧
      ((session checks config b.renew exchanges).filter Outcome.admitted).length ≤ config.maxToolCalls := by
  have kept : Kept checks config b.renew := fun _ cached => nomatch cached
  obtain ⟨sound, budget⟩ := session_sound exchanges kept (Nat.zero_le _)
  refine ⟨sound, ?_⟩
  rwa [show b.renew.toolCalls = 0 from rfl, Nat.zero_add] at budget

end EvidenceToolSession

end SreAgent.Rca
