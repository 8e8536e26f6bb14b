import SreAgent.Outbox.Publishing

/-!
# Publishing is safe in every schedule

The invariant `Safe` of the publishing calls: a call under way holds the lock of every row it
selected, and those rows are still the committed ones (`Held`). So the versions a commit writes
replace exactly what the call read, a published row is written back unchanged, and no call ever
sends it again. `outbox_safe` reads the results off the invariant: for one state, for one step
and for a whole run.
-/

namespace SreAgent.Outbox
open Base Pubsub

/-! ## Selections -/

/-- What a selecting statement returns for a request. -/
structure Selection (r : Request) (rows : List OutboxEvent) : Prop where
  distinct : (rows.map OutboxEvent.id).Nodup
  event : ∀ id, r = .event id → ∀ row ∈ rows, row.id = id
  status : ∀ status limit, r = .batch status limit → ∀ row ∈ rows, row.status = status ∧
    row.publishedAt = none
  limit : ∀ status limit, r = .batch status limit → rows.length ≤ limit
  ordered : ∀ status limit, r = .batch status limit → rows.Pairwise OutboxEvent.Before

theorem Selection.nil (r : Request) : Selection r [] :=
  ⟨List.nodup_nil, by simp, by simp, by simp, by simp⟩

theorem Selection.single {id : Uuid} {row : OutboxEvent} (h : row.id = id) : Selection (.event id) [row] where
  distinct := List.nodup_singleton _
  event := by
    rintro _ ⟨rfl⟩ r hr
    rw [List.mem_singleton.1 hr]
    exact h
  status := nofun
  limit := nofun
  ordered := nofun

theorem OutboxEvent.Before.total (a b : OutboxEvent) : a.Before b ∨ b.Before a := by
  unfold OutboxEvent.Before
  rcases lt_trichotomy a.availableAt b.availableAt with h | h | h
  · exact .inl (.inl h)
  · rcases lt_trichotomy a.createdAt b.createdAt with h' | h' | h'
    · exact .inl (.inr ⟨h, .inl h'⟩)
    · exact (BitVec.le_total a.id b.id).imp (fun hle => .inr ⟨h, .inr ⟨h', hle⟩⟩)
        fun hle => .inr ⟨h.symm, .inr ⟨h'.symm, hle⟩⟩
    · exact .inr (.inr ⟨h.symm, .inl h'⟩)
  · exact .inr (.inl h)

theorem OutboxEvent.Before.trans {a b c : OutboxEvent} (hab : a.Before b) (hbc : b.Before c) :
    a.Before c := by
  unfold OutboxEvent.Before at *
  rcases hab with h | ⟨h, hab⟩ <;> rcases hbc with h' | ⟨h', hbc⟩
  · exact .inl (lt_trans h h')
  · exact .inl (h' ▸ h)
  · exact .inl (h ▸ h')
  · refine .inr ⟨h.trans h', ?_⟩
    rcases hab with k | ⟨k, hab⟩ <;> rcases hbc with k' | ⟨k', hbc⟩
    · exact .inl (lt_trans k k')
    · exact .inl (k' ▸ k)
    · exact .inl (k ▸ k')
    · exact .inr ⟨k.trans k', BitVec.le_trans hab hbc⟩

instance : Std.Total OutboxEvent.Before := ⟨OutboxEvent.Before.total⟩

instance : IsTrans OutboxEvent OutboxEvent.Before := ⟨fun _ _ _ => OutboxEvent.Before.trans⟩

namespace OutboxState

variable {s : OutboxState} {status : OutboxStatus} {limit : Nat} {row : OutboxEvent}

/-- A batch reads committed, unlocked rows of its status. -/
theorem of_mem_selectable (h : row ∈ s.selectable status limit) :
    row ∈ s.events ∧ row.status = status ∧ row.publishedAt = none ∧ s.locks row.id = none := by
  have := (List.mem_insertionSort _).1 (List.mem_of_mem_take h)
  simpa using this

theorem selection_selectable (keyed : Table.Keyed OutboxEvent.id s.events) (status : OutboxStatus)
    (limit : Nat) :
    Selection (.batch status limit) (s.selectable status limit) where
  distinct := by
    refine ((List.take_sublist _ _).map _).nodup ?_
    rw [((List.perm_insertionSort _ _).map _).nodup_iff]
    exact (List.filter_sublist.map _).nodup keyed
  event := nofun
  status := by
    rintro _ _ ⟨rfl, rfl⟩ row hrow
    exact ⟨(of_mem_selectable hrow).2.1, (of_mem_selectable hrow).2.2.1⟩
  limit := by
    rintro _ _ ⟨rfl, rfl⟩
    exact List.length_take_le _ _
  ordered := fun _ _ _ => (List.pairwise_insertionSort _ _).sublist (List.take_sublist _ _)

end OutboxState

/-! ## What calls hold -/

/-- A call in the middle of its transaction: it holds the locks of the rows it selected, no one has
written them since, and it has settled the rows before `todo`. -/
structure Held (s : OutboxState) (p : Nat) (sel todo : List OutboxEvent)
    (done : List (OutboxPublishResult × OutboxEvent)) : Prop where
  locked : ∀ row ∈ sel, s.locks row.id = some p
  stored : ∀ row ∈ sel, row ∈ s.events
  settled : ∃ rows, sel = rows ++ todo ∧ List.Forall₂ (fun row d => SettledAs row d.1 d.2) rows done

/-- One result answers one selected row. -/
structure Answers (row : OutboxEvent) (result : OutboxPublishResult) : Prop where
  eventId : result.eventId = row.id
  previousStatus : result.previousStatus = row.status
  noOp : row.status = .PUBLISHED → result.result = .NO_OP
  settled : row.status ≠ .PUBLISHED → result.result = .PUBLISHED ∨ result.result = .FAILED

theorem SettledAs.answers {row version : OutboxEvent} {result : OutboxPublishResult}
    (h : SettledAs row result version) : Answers row result :=
  ⟨h.eventId, h.previousStatus, fun published => (h.noOp published).1,
    fun open_ => (h.settled open_).imp And.left And.left⟩

/-- The invariant. -/
structure Safe (svc : OutboxPublishService) (s : OutboxState) : Prop where
  keyed : Table.Keyed OutboxEvent.id s.events
  dated : ∀ e ∈ s.events, e.Dated
  selection : ∀ p r phase, s.calls p = some ⟨r, phase⟩ → Selection r phase.selected
  held : ∀ p r attemptedAt sel todo done, s.calls p = some ⟨r, .settling attemptedAt sel todo done⟩ →
    Held s p sel todo done
  answers : ∀ p r sel results, s.calls p = some ⟨r, .committed sel results⟩ → List.Forall₂ Answers sel results
  messages : ∀ m ∈ s.sent, ∃ e ∈ s.events, m.Of svc e

/-! ## What a commit writes -/

namespace OutboxState

@[simp] theorem calls_setPhase (s : OutboxState) (p q : Nat) (r : Request) (phase : Phase) :
    (s.setPhase p r phase).calls q = if q = p then some ⟨r, phase⟩ else s.calls q := by
  simp [setPhase, Function.update_apply]

@[simp] theorem events_setPhase (s : OutboxState) (p : Nat) (r : Request) (phase : Phase) :
    (s.setPhase p r phase).events = s.events := rfl

@[simp] theorem locks_setPhase (s : OutboxState) (p : Nat) (r : Request) (phase : Phase) :
    (s.setPhase p r phase).locks = s.locks := rfl

@[simp] theorem sent_setPhase (s : OutboxState) (p : Nat) (r : Request) (phase : Phase) :
    (s.setPhase p r phase).sent = s.sent := rfl

/-- A release frees the locks of its call only. -/
theorem release_locks {s : OutboxState} {p q : Nat} (ne : q ≠ p) {id : Uuid} (h : s.locks id = some q) :
    (s.release p).locks id = some q := by
  simp [release, h, ne]

/-- Locking free rows leaves the locks held by others. -/
theorem lock_locks {s : OutboxState} {p q : Nat} {rows : List OutboxEvent}
    (free : ∀ row ∈ rows, s.locks row.id = none) {id : Uuid} (h : s.locks id = some q) :
    (s.lock p rows).locks id = some q := by
  have other : ¬ ∃ row ∈ rows, row.id = id := by
    rintro ⟨row, hrow, rfl⟩
    rw [free row hrow] at h
    cases h
  simp [lock, other, h]

theorem lock_self {s : OutboxState} {p : Nat} {rows : List OutboxEvent} {row : OutboxEvent} (h : row ∈ rows) :
    (s.lock p rows).locks row.id = some p := if_pos ⟨row, h, rfl⟩

end OutboxState

/-- The versions of a finished call, read by identifier. -/
theorem settled_version {rows : List OutboxEvent} {done : List (OutboxPublishResult × OutboxEvent)}
    (settled : List.Forall₂ (fun row d => SettledAs row d.1 d.2) rows done) {id : Uuid}
    {version : OutboxEvent} (h : Table.lookup OutboxEvent.id id (done.map Prod.snd) = some version) :
    ∃ row ∈ rows, ∃ result, row.id = id ∧ SettledAs row result version := by
  obtain ⟨d, hd, rfl⟩ := List.mem_map.1 (Table.mem_of_lookup h)
  obtain ⟨row, hrow, as⟩ : ∃ row ∈ rows, SettledAs row d.1 d.2 := by
    clear h
    induction settled with
    | nil => cases hd
    | cons head _ ih =>
      rcases List.mem_cons.1 hd with rfl | hd
      · exact ⟨_, List.mem_cons_self, head⟩
      · obtain ⟨row, hrow, as⟩ := ih hd
        exact ⟨row, List.mem_cons_of_mem _ hrow, as⟩
  exact ⟨row, hrow, d.1, as.same.1.symm.trans (Table.lookup_key h), as⟩

/-- The versions carry the identifiers of the rows they settle. -/
theorem settled_ids {rows : List OutboxEvent} {done : List (OutboxPublishResult × OutboxEvent)}
    (settled : List.Forall₂ (fun row d => SettledAs row d.1 d.2) rows done) :
    (done.map Prod.snd).map OutboxEvent.id = rows.map OutboxEvent.id := by
  induction settled with
  | nil => rfl
  | cons head _ ih => rw [List.map_cons, List.map_cons, List.map_cons, ih, head.same.1]

section Commit

variable {s : OutboxState} {p : Nat} {sel : List OutboxEvent}
  {done : List (OutboxPublishResult × OutboxEvent)}

theorem Held.finished (held : Held s p sel [] done) :
    List.Forall₂ (fun row d => SettledAs row d.1 d.2) sel done := by
  obtain ⟨rows, hrows, settled⟩ := held.settled
  rw [List.append_nil] at hrows
  rwa [hrows]

/-- A committed row either stays or is a row of the call, replaced by its settled version. -/
theorem Held.overlay_cases (held : Held s p sel [] done) (keyed : Table.Keyed OutboxEvent.id s.events)
    {e : OutboxEvent} (he : e ∈ s.events) :
    (∀ row ∈ sel, row.id ≠ e.id) ∧ (Table.lookup OutboxEvent.id e.id (done.map Prod.snd)).getD e = e ∨
    e ∈ sel ∧
      ∃ result, SettledAs e result ((Table.lookup OutboxEvent.id e.id (done.map Prod.snd)).getD e) := by
  cases h : Table.lookup OutboxEvent.id e.id (done.map Prod.snd) with
  | none =>
    refine .inl ⟨fun row hrow same => ?_, rfl⟩
    have named : e.id ∈ (done.map Prod.snd).map OutboxEvent.id := by
      rw [settled_ids held.finished]
      exact same ▸ List.mem_map_of_mem hrow
    obtain ⟨version, hversion, hid⟩ := List.mem_map.1 named
    exact Table.lookup_eq_none.1 h version hversion hid
  | some version =>
    obtain ⟨row, hrow, result, same, as⟩ := settled_version held.finished h
    have : row = e := List.inj_on_of_nodup_map keyed (held.stored row hrow) he same
    subst this
    exact .inr ⟨hrow, result, as⟩

/-- What a commit makes of the table. -/
theorem Held.mem_overlay (held : Held s p sel [] done) (keyed : Table.Keyed OutboxEvent.id s.events)
    {e : OutboxEvent} (he : e ∈ OutboxState.overlay (done.map Prod.snd) s.events) :
    e ∈ s.events ∨ ∃ row ∈ s.events, row ∈ sel ∧ ∃ result, SettledAs row result e := by
  obtain ⟨old, hold, rfl⟩ := List.mem_map.1 he
  rcases held.overlay_cases keyed hold with ⟨-, same⟩ | ⟨hsel, as⟩
  · rw [same]
    exact .inl hold
  · exact .inr ⟨old, hold, hsel, as⟩

theorem Held.kept (held : Held s p sel [] done) (keyed : Table.Keyed OutboxEvent.id s.events)
    {e : OutboxEvent} (he : e ∈ s.events) (other : ∀ row ∈ sel, row.id ≠ e.id) :
    e ∈ OutboxState.overlay (done.map Prod.snd) s.events := by
  refine List.mem_map.2 ⟨e, he, ?_⟩
  rcases held.overlay_cases keyed he with ⟨-, same⟩ | ⟨hsel, -⟩
  · exact same
  · exact absurd rfl (other e hsel)

/-- Every row a call settled has its version in the committed table. -/
theorem Held.overlay_settled (held : Held s p sel [] done) (distinct : (sel.map OutboxEvent.id).Nodup) :
    List.Forall₂ (fun row d => d.2 ∈ OutboxState.overlay (done.map Prod.snd) s.events ∧
      SettledAs row d.1 d.2) sel done := by
  obtain ⟨length, settled⟩ := List.forall₂_iff_zip.1 held.finished
  refine List.forall₂_iff_zip.2 ⟨length, fun {row d} pair => ⟨?_, settled pair⟩⟩
  have versions : Table.Keyed OutboxEvent.id (done.map Prod.snd) := by
    rw [Table.Keyed, settled_ids held.finished]
    exact distinct
  have found := versions.lookup_of_mem (List.mem_map_of_mem (List.of_mem_zip pair).2)
  rw [(settled pair).same.1] at found
  exact List.mem_map.2 ⟨row, held.stored row (List.of_mem_zip pair).1, by rw [found]; rfl⟩

/-- A published row is written back unchanged. -/
theorem Held.published (held : Held s p sel [] done) (keyed : Table.Keyed OutboxEvent.id s.events)
    {e : OutboxEvent} (he : e ∈ s.events) (published : e.status = .PUBLISHED) :
    e ∈ OutboxState.overlay (done.map Prod.snd) s.events := by
  refine List.mem_map.2 ⟨e, he, ?_⟩
  rcases held.overlay_cases keyed he with ⟨-, same⟩ | ⟨-, result, as⟩
  · exact same
  · exact (as.noOp published).2

theorem Held.overlay_keyed (held : Held s p sel [] done) (keyed : Table.Keyed OutboxEvent.id s.events) :
    Table.Keyed OutboxEvent.id (OutboxState.overlay (done.map Prod.snd) s.events) := by
  have ids : (OutboxState.overlay (done.map Prod.snd) s.events).map OutboxEvent.id =
      s.events.map OutboxEvent.id := by
    rw [OutboxState.overlay, List.map_map]
    refine List.map_congr_left fun e he => ?_
    rcases held.overlay_cases keyed he with ⟨-, same⟩ | ⟨-, result, as⟩
    · rw [Function.comp_apply, same]
    · exact as.same.1
  rw [Table.Keyed, ids]
  exact keyed

theorem Held.overlay_dated (held : Held s p sel [] done) (keyed : Table.Keyed OutboxEvent.id s.events)
    (dated : ∀ e ∈ s.events, e.Dated) : ∀ e ∈ OutboxState.overlay (done.map Prod.snd) s.events, e.Dated := by
  intro e he
  rcases held.mem_overlay keyed he with he | ⟨row, hrow, -, result, as⟩
  · exact dated e he
  · exact as.dated (dated row hrow)

/-- Every event of the table has its successor after the commit. -/
theorem Held.successor (held : Held s p sel [] done) (keyed : Table.Keyed OutboxEvent.id s.events)
    {e : OutboxEvent} (he : e ∈ s.events) :
    ∃ new ∈ OutboxState.overlay (done.map Prod.snd) s.events, SameEvent e new := by
  refine ⟨_, List.mem_map_of_mem he, ?_⟩
  rcases held.overlay_cases keyed he with ⟨-, same⟩ | ⟨-, result, as⟩
  · rw [same]
    exact .refl e
  · exact as.same

/-- Two calls never hold one row. -/
theorem Held.disjoint {q : Nat} {sel' todo todo' : List OutboxEvent}
    {done' : List (OutboxPublishResult × OutboxEvent)} (held : Held s p sel todo done)
    (held' : Held s q sel' todo' done') (ne : q ≠ p) {row row' : OutboxEvent} (h : row ∈ sel)
    (h' : row' ∈ sel') : row.id ≠ row'.id := by
  intro same
  have := held.locked row h
  rw [same, held'.locked row' h'] at this
  exact ne (Option.some.inj this)

end Commit

/-! ## The invariant is kept -/

section Preserved

variable {svc : OutboxPublishService} {s t : OutboxState} {a : Action}

/-- One call moves: the others keep what they hold. -/
theorem Safe.move {u : OutboxState} (safe : Safe svc s) (p : Nat) (r : Request) (phase : Phase)
    (keyed : Table.Keyed OutboxEvent.id u.events) (dated : ∀ e ∈ u.events, e.Dated)
    (calls : u.calls = s.calls)
    (others : ∀ q sel todo done, q ≠ p → Held s q sel todo done → Held u q sel todo done)
    (selection : Selection r phase.selected)
    (held : ∀ attemptedAt sel todo done, phase = .settling attemptedAt sel todo done →
      Held u p sel todo done)
    (answers : ∀ sel results, phase = .committed sel results → List.Forall₂ Answers sel results)
    (messages : ∀ m ∈ u.sent, ∃ e ∈ u.events, m.Of svc e) : Safe svc (u.setPhase p r phase) where
  keyed := keyed
  dated := dated
  messages := messages
  selection := by
    intro q r' phase' hq
    rw [OutboxState.calls_setPhase, calls] at hq
    split at hq
    · cases hq
      exact selection
    · exact safe.selection q r' phase' hq
  held := by
    intro q r' attemptedAt sel todo done hq
    rw [OutboxState.calls_setPhase, calls] at hq
    have stays : Held u q sel todo done := by
      split at hq
      · next same =>
        cases hq
        exact same ▸ held attemptedAt sel todo done rfl
      · next ne => exact others q sel todo done ne (safe.held q r' attemptedAt sel todo done hq)
    exact ⟨stays.locked, stays.stored, stays.settled⟩
  answers := by
    intro q r' sel results hq
    rw [OutboxState.calls_setPhase, calls] at hq
    split at hq
    · cases hq
      exact answers sel results rfl
    · exact safe.answers q r' sel results hq

/-- Selecting free committed rows. -/
theorem Safe.select (safe : Safe svc s) (p : Nat) (r : Request) (attemptedAt : Timestamp)
    {rows : List OutboxEvent} (stored : ∀ row ∈ rows, row ∈ s.events)
    (free : ∀ row ∈ rows, s.locks row.id = none) (selection : Selection r rows) :
    Safe svc (s.beginSettling p r attemptedAt rows) := by
  refine safe.move (u := s.lock p rows) p r _ safe.keyed safe.dated rfl ?_ selection ?_ nofun safe.messages
  · intro q sel todo done _ held
    exact ⟨fun row hrow => OutboxState.lock_locks free (held.locked row hrow), held.stored, held.settled⟩
  · rintro _ _ _ _ ⟨rfl⟩
    exact ⟨fun row hrow => OutboxState.lock_self hrow, stored, [], rfl, .nil⟩

/-- Settling the next row. -/
theorem Held.settleNext {p : Nat} {sel todo : List OutboxEvent} {row : OutboxEvent}
    {done : List (OutboxPublishResult × OutboxEvent)} (held : Held s p sel (row :: todo) done)
    (attemptedAt : Timestamp) (accepted : Bool) :
    Held s p sel todo (done ++ [((svc.settleRow attemptedAt row accepted).result,
      (svc.settleRow attemptedAt row accepted).version)]) := by
  obtain ⟨rows, hrows, settled⟩ := held.settled
  refine ⟨held.locked, held.stored, rows ++ [row], by rw [hrows]; simp, ?_⟩
  exact List.rel_append settled (.cons (settleRow_settledAs svc attemptedAt row accepted) .nil)

theorem StepCases.safe (safe : Safe svc s) (h : StepCases svc s a t) : Safe svc t := by
  cases h with
  | insert e pending undated fresh =>
    refine { keyed := ?_, dated := ?_, held := ?_, messages := ?_,
             selection := safe.selection, answers := safe.answers }
    · exact safe.keyed.insertUnique (Table.insertUnique_eq_some.2 ⟨fresh, rfl⟩)
    · intro x hx
      rcases List.mem_append.1 hx with hx | hx
      · exact safe.dated x hx
      · rw [List.mem_singleton.1 hx, OutboxEvent.Dated, pending, undated]
        simp
    · intro q r attemptedAt sel todo done hq
      have held := safe.held q r attemptedAt sel todo done hq
      exact ⟨held.locked, fun row hrow => List.mem_append_left _ (held.stored row hrow), held.settled⟩
    · intro m hm
      obtain ⟨x, hx, of⟩ := safe.messages m hm
      exact ⟨x, List.mem_append_left _ hx, of⟩
  | start p r free valid =>
    exact safe.move p r _ safe.keyed safe.dated rfl (fun _ _ _ _ _ held => held) (.nil r)
      (by rintro _ _ _ _ ⟨⟩) (by rintro _ _ ⟨⟩) safe.messages
  | notFound p attemptedAt id call =>
    exact safe.move p _ _ safe.keyed safe.dated rfl (fun _ _ _ _ _ held => held) (.nil _)
      (by rintro _ _ _ _ ⟨⟩) (by rintro _ _ ⟨⟩) safe.messages
  | selectEvent p attemptedAt id row call stored free =>
    have hid : row.id = id := Table.lookup_key stored
    refine safe.select p _ attemptedAt ?_ ?_ (.single hid)
    · intro r hr
      rw [List.mem_singleton.1 hr]
      exact Table.mem_of_lookup stored
    · intro r hr
      rw [List.mem_singleton.1 hr, hid]
      exact free
  | selectBatch p attemptedAt status limit call =>
    exact safe.select p _ attemptedAt (fun row hrow => (OutboxState.of_mem_selectable hrow).1)
      (fun row hrow => (OutboxState.of_mem_selectable hrow).2.2.2)
      (OutboxState.selection_selectable safe.keyed status limit)
  | settleNext p accepted r attemptedAt sel row todo done call =>
    have held := safe.held p r attemptedAt sel (row :: todo) done call
    have selection : Selection r sel := safe.selection p r _ call
    refine safe.move
      (u := { s with sent := s.sent ++ (svc.settleRow attemptedAt row accepted).sent.toList }) p r _
      safe.keyed safe.dated rfl ?_ selection ?_ (by rintro _ _ ⟨⟩) ?_
    · exact fun q sel todo done _ held => ⟨held.locked, held.stored, held.settled⟩
    · rintro _ _ _ _ ⟨rfl⟩
      have next := @Held.settleNext svc _ _ _ _ _ _ held attemptedAt accepted
      exact ⟨next.locked, next.stored, next.settled⟩
    · intro m hm
      rcases List.mem_append.1 hm with hm | hm
      · exact safe.messages m hm
      · obtain ⟨rows, hrows, -⟩ := held.settled
        exact ⟨row, held.stored row (hrows ▸ by simp),
          (settleRow_sent svc attemptedAt row accepted (by simpa using hm)).1⟩
  | commit p r attemptedAt sel done call =>
    have held := safe.held p r attemptedAt sel [] done call
    have selection : Selection r sel := safe.selection p r _ call
    refine safe.move
      (u := { s with events := OutboxState.overlay (done.map Prod.snd) s.events }.release p) p r
      (.committed sel (done.map Prod.fst)) (held.overlay_keyed safe.keyed)
        (held.overlay_dated safe.keyed safe.dated) rfl ?_ selection
      (by rintro _ _ _ _ ⟨⟩) ?_ ?_
    · intro q sel' todo' done' ne other
      refine ⟨fun row hrow => OutboxState.release_locks ne (other.locked row hrow), fun row hrow => ?_,
        other.settled⟩
      exact held.kept safe.keyed (other.stored row hrow) fun row' hrow' => held.disjoint other ne hrow' hrow
    · rintro _ _ ⟨rfl⟩
      refine List.forall₂_map_right_iff.2 (held.finished.imp fun row d as => as.answers)
    · intro m hm
      obtain ⟨e, he, of⟩ := safe.messages m hm
      obtain ⟨new, hnew, same⟩ := held.successor safe.keyed he
      exact ⟨new, hnew, of.mono same⟩
  | abort p r phase call =>
    refine safe.move (u := s.release p) p r _ safe.keyed safe.dated rfl ?_ (.nil r) (by rintro _ _ _ _ ⟨⟩)
      (by rintro _ _ ⟨⟩) safe.messages
    exact fun q sel todo done ne held =>
      ⟨fun row hrow => OutboxState.release_locks ne (held.locked row hrow), held.stored, held.settled⟩

theorem safe_invariant (reach : (outbox svc).Reachable s) : Safe svc s := by
  refine reach.invariant ?_ fun _ _ _ safe hstep => (step_cases hstep).safe safe
  rintro s ⟨keyed, dated, -, calls, sent⟩
  refine ⟨keyed, dated, ?_, ?_, ?_, ?_⟩ <;> simp [calls, sent]

end Preserved

/-! ## What a schedule can do to an event -/

section Schedule

variable {svc : OutboxPublishService} {s t : OutboxState} {a : Action}

/-- Every event has its successor after a step. -/
theorem StepCases.successor (safe : Safe svc s) (h : StepCases svc s a t) {e : OutboxEvent}
    (he : e ∈ s.events) :
    ∃ new ∈ t.events, SameEvent e new := by
  cases h with
  | insert => exact ⟨e, List.mem_append_left _ he, .refl e⟩
  | commit p r attemptedAt sel done call =>
    exact (safe.held p r attemptedAt sel [] done call).successor safe.keyed he
  | start | notFound | selectEvent | selectBatch | settleNext | abort => exact ⟨e, he, .refl e⟩

/-- `PUBLISHED` is absorbing. -/
theorem StepCases.published (safe : Safe svc s) (h : StepCases svc s a t) {e : OutboxEvent}
    (he : e ∈ s.events) (published : e.status = .PUBLISHED) : e ∈ t.events := by
  cases h with
  | insert => exact List.mem_append_left _ he
  | commit p r attemptedAt sel done call =>
    exact (safe.held p r attemptedAt sel [] done call).published safe.keyed he published
  | start | notFound | selectEvent | selectBatch | settleNext | abort => exact he

/-- The messages sent for an event. -/
def OutboxState.sentFor (s : OutboxState) (id : Uuid) : List SentMessage :=
  s.sent.filter fun m => m.eventId = id

/-- Nothing is sent for a published event. -/
theorem StepCases.sentFor (safe : Safe svc s) (h : StepCases svc s a t) {e : OutboxEvent} (he : e ∈ s.events)
    (published : e.status = .PUBLISHED) : t.sentFor e.id = s.sentFor e.id := by
  cases h with
  | settleNext p accepted r attemptedAt sel row todo done call =>
    have held := safe.held p r attemptedAt sel (row :: todo) done call
    have stored : row ∈ s.events := by
      obtain ⟨rows, hrows, -⟩ := held.settled
      exact held.stored row (hrows ▸ by simp)
    have none_ : (svc.settleRow attemptedAt row accepted).sent.toList.filter (fun m => m.eventId = e.id) =
        [] := by
      refine List.filter_eq_nil_iff.2 fun m hm => ?_
      obtain ⟨of, open_⟩ := settleRow_sent svc attemptedAt row accepted (by simpa using hm)
      simp only [decide_eq_true_eq]
      intro same
      rw [List.inj_on_of_nodup_map safe.keyed stored he (of.1.symm.trans same)] at open_
      exact open_ published
    simp only [OutboxState.sentFor, OutboxState.sent_setPhase, List.filter_append, none_, List.append_nil]
  | insert | start | notFound | selectEvent | selectBatch | commit | abort => rfl

/-- The call under way reads the event `e`, if any of its name. -/
def Phase.Reads (e : OutboxEvent) (phase : Phase) : Prop := ∀ row ∈ phase.selected, row.id = e.id → row = e

/-- Calls that have not committed read committed versions, and their selection never changes. -/
theorem StepCases.reads (safe : Safe svc s) (h : StepCases svc s a t) {e : OutboxEvent} (he : e ∈ s.events)
    {q : Nat} (before : ∀ r phase, s.calls q = some ⟨r, phase⟩ → phase.Reads e) :
    ∀ r phase, t.calls q = some ⟨r, phase⟩ → phase.Reads e := by
  have keyed : ∀ row ∈ s.events, row.id = e.id → row = e := fun row hrow same =>
    List.inj_on_of_nodup_map safe.keyed hrow he same
  have moved : ∀ (u : OutboxState) p r phase, u.calls = s.calls → phase.Reads e →
      ∀ r' phase', (u.setPhase p r phase).calls q = some ⟨r', phase'⟩ → phase'.Reads e := by
    intro u p r phase calls reads r' phase' hq
    rw [OutboxState.calls_setPhase, calls] at hq
    split at hq
    · cases hq
      exact reads
    · exact before r' phase' hq
  have empty : ∀ phase : Phase, phase.selected = [] → phase.Reads e := by
    intro phase none_ row hrow
    rw [none_] at hrow
    cases hrow
  cases h with
  | insert => exact before
  | start p r => exact moved s p r _ rfl (empty _ rfl)
  | notFound p attemptedAt id => exact moved s p _ _ rfl (empty _ rfl)
  | selectEvent p attemptedAt id row call stored =>
    refine moved (s.lock p [row]) p _ _ rfl fun r hr => keyed r ?_
    rw [List.mem_singleton.1 hr]
    exact Table.mem_of_lookup stored
  | selectBatch p attemptedAt status limit =>
    exact moved (s.lock p _) p _ _ rfl fun r hr => keyed r (OutboxState.of_mem_selectable hr).1
  | settleNext p accepted r attemptedAt sel row todo done call =>
    refine moved { s with sent := s.sent ++ (svc.settleRow attemptedAt row accepted).sent.toList } p r
      _ rfl ?_
    intro x hx
    obtain ⟨rows, hrows, -⟩ := (safe.held p r attemptedAt sel (row :: todo) done call).settled
    exact keyed x ((safe.held p r attemptedAt sel (row :: todo) done call).stored x hx)
  | commit p r attemptedAt sel done call =>
    refine moved ({ s with events := OutboxState.overlay (done.map Prod.snd) s.events }.release p) p r
      _ rfl ?_
    exact fun x hx => keyed x ((safe.held p r attemptedAt sel [] done call).stored x hx)
  | abort p r => exact moved (s.release p) p r _ rfl (empty _ rfl)

/-- A call that has not committed. -/
def OutboxState.Open (s : OutboxState) (p : Nat) : Prop :=
  ∀ r sel results, s.calls p ≠ some ⟨r, .committed sel results⟩

/-- What an open call has read of an event is its committed version. -/
theorem Safe.reads (safe : Safe svc s) {p : Nat} (opened : s.Open p) {e : OutboxEvent} (he : e ∈ s.events) :
    ∀ r phase, s.calls p = some ⟨r, phase⟩ → phase.Reads e := by
  intro r phase hp row hrow same
  cases phase with
  | settling attemptedAt sel todo done =>
    exact List.inj_on_of_nodup_map safe.keyed
      ((safe.held p r attemptedAt sel todo done hp).stored row hrow) he same
  | committed sel results => exact absurd hp (opened r sel results)
  | selecting | aborted => cases hrow

/-! ## Results -/

/-- What holds in every committed state. -/
structure SafeState (svc : OutboxPublishService) (s : OutboxState) : Prop where
  dated : ∀ e ∈ s.events, e.status = .PUBLISHED ↔ e.publishedAt ≠ none
  selection : ∀ p r phase, s.calls p = some ⟨r, phase⟩ → Selection r phase.selected
  answers : ∀ p r sel results, s.calls p = some ⟨r, .committed sel results⟩ → List.Forall₂ Answers sel results
  messages : ∀ m ∈ s.sent, ∃ e ∈ s.events, m.Of svc e

/-- What one step of a schedule does to the table. -/
structure SafeStep (s : OutboxState) (a : Action) (t : OutboxState) : Prop where
  /-- A batch locks committed, unlocked rows that have the selected status then. -/
  selects : ∀ p attemptedAt status limit, a = .select p attemptedAt →
    s.calls p = some ⟨.batch status limit, .selecting⟩ →
    ∃ sel, t.calls p = some ⟨.batch status limit, .settling attemptedAt sel sel []⟩ ∧
      ∀ row ∈ sel, row ∈ s.events ∧ row.status = status ∧ s.locks row.id = none
  /-- A row changes only when a call that selected it commits. -/
  touches : ∀ e ∈ s.events, e ∈ t.events ∨ ∃ p r attemptedAt sel done,
    a = .commit p ∧ s.calls p = some ⟨r, .settling attemptedAt sel [] done⟩ ∧ e ∈ sel
  /-- A commit settles every row the call selected, as the result it returns says. -/
  settles : ∀ p r attemptedAt sel done, a = .commit p →
    s.calls p = some ⟨r, .settling attemptedAt sel [] done⟩ →
    ∃ results, t.calls p = some ⟨r, .committed sel results⟩ ∧
      List.Forall₂ (fun row result => ∃ e ∈ t.events, SettledAs row result e) sel results

/-- What a schedule keeps from one committed state to a later one. -/
structure SafeRun (s t : OutboxState) : Prop where
  kept : ∀ e ∈ s.events, ∃ new ∈ t.events, SameEvent e new
  absorbing : ∀ e ∈ s.events, e.status = .PUBLISHED → e ∈ t.events
  unsent : ∀ e ∈ s.events, e.status = .PUBLISHED → t.sentFor e.id = s.sentFor e.id
  noOp : ∀ e ∈ s.events, e.status = .PUBLISHED → ∀ p, s.Open p → ∀ r sel results,
    t.calls p = some ⟨r, .committed sel results⟩ → ∀ result ∈ results, result.eventId = e.id →
      result.result = .NO_OP

theorem Safe.state (safe : Safe svc s) : SafeState svc s :=
  ⟨safe.dated, safe.selection, safe.answers, safe.messages⟩

theorem StepCases.safeStep (safe : Safe svc s) (h : StepCases svc s a t) : SafeStep s a t where
  selects := by
    rintro p attemptedAt status limit rfl call
    cases h with
    | notFound _ _ id call' => cases call.symm.trans call'
    | selectEvent _ _ id row call' => cases call.symm.trans call'
    | selectBatch _ _ status' limit' call' =>
      cases call.symm.trans call'
      refine ⟨s.selectable status limit, by simp [OutboxState.beginSettling], fun row hrow => ?_⟩
      have of := OutboxState.of_mem_selectable hrow
      exact ⟨of.1, of.2.1, of.2.2.2⟩
  touches := by
    intro e he
    cases h with
    | insert => exact .inl (List.mem_append_left _ he)
    | commit p r attemptedAt sel done call =>
      have held := safe.held p r attemptedAt sel [] done call
      rcases held.overlay_cases safe.keyed he with ⟨other, -⟩ | ⟨hsel, -⟩
      · exact .inl (held.kept safe.keyed he other)
      · exact .inr ⟨p, r, attemptedAt, sel, done, rfl, call, hsel⟩
    | start | notFound | selectEvent | selectBatch | settleNext | abort => exact .inl he
  settles := by
    rintro p r attemptedAt sel done rfl call
    cases h with
    | commit _ r' attemptedAt' sel' done' call' =>
      cases call.symm.trans call'
      have held := safe.held p r attemptedAt sel [] done call
      have selection : Selection r sel := safe.selection p r _ call
      refine ⟨done.map Prod.fst, by simp, List.forall₂_map_right_iff.2 ?_⟩
      exact (held.overlay_settled selection.distinct).imp fun row d both => ⟨d.2, both⟩

/-- What the invariant keeps of the events of `s` along a run. -/
theorem Safe.run (safe : Safe svc s) (run : (outbox svc).Steps s t) : Safe svc t ∧
    (∀ e ∈ s.events, ∃ new ∈ t.events, SameEvent e new) ∧
    ∀ e ∈ s.events, e.status = .PUBLISHED → e ∈ t.events ∧ t.sentFor e.id = s.sentFor e.id ∧
      ∀ p, s.Open p → ∀ r phase, t.calls p = some ⟨r, phase⟩ → phase.Reads e := by
  induction run with
  | refl =>
    exact ⟨safe, fun e he => ⟨e, he, .refl e⟩, fun e he _ => ⟨he, rfl, fun p opened => safe.reads opened he⟩⟩
  | tail _ _ hstep ih =>
    obtain ⟨safe', kept, published⟩ := ih
    have cases_ := step_cases hstep
    refine ⟨cases_.safe safe', fun e he => ?_, fun e he status => ?_⟩
    · obtain ⟨mid, hmid, same⟩ := kept e he
      obtain ⟨new, hnew, same'⟩ := cases_.successor safe' hmid
      exact ⟨new, hnew, same.trans same'⟩
    · obtain ⟨stays, sent, reads⟩ := published e he status
      exact ⟨cases_.published safe' stays status, (cases_.sentFor safe' stays status).trans sent,
        fun p opened => cases_.reads safe' stays (reads p opened)⟩

theorem Safe.safeRun (safe : Safe svc s) (run : (outbox svc).Steps s t) : SafeRun s t := by
  obtain ⟨safe', kept, published⟩ := safe.run run
  refine ⟨kept, fun e he status => (published e he status).1,
    fun e he status => (published e he status).2.1, ?_⟩
  intro e he status p opened r sel results committed result hresult named
  have reads := (published e he status).2.2 p opened r _ committed
  obtain ⟨length, answers⟩ := List.forall₂_iff_zip.1 (safe'.answers p r sel results committed)
  obtain ⟨i, hi, rfl⟩ := List.getElem_of_mem hresult
  have pair : (sel[i], results[i]) ∈ sel.zip results := by
    rw [← List.getElem_zip (h := by simp [List.length_zip, length, hi])]
    exact List.getElem_mem _
  have answer := answers pair
  have row := reads sel[i] (List.getElem_mem _) (answer.eventId.symm.trans named)
  exact answer.noOp (by rw [row]; exact status)

/-- Publishing is safe in every schedule: in every reachable state, over every step from it and over
every run from it. -/
theorem outbox_safe (svc : OutboxPublishService) (s : OutboxState) (reach : (outbox svc).Reachable s) :
    SafeState svc s ∧ (∀ a t, (outbox svc).step s a = some t → SafeStep s a t) ∧
      ∀ t, (outbox svc).Steps s t → SafeRun s t := by
  have safe := safe_invariant reach
  exact ⟨safe.state, fun a t hstep => (step_cases hstep).safeStep safe, fun t run => safe.safeRun run⟩

end Schedule

/-- One pending event for the job `1` of run `2` of incident `3`. -/
def pendingState : OutboxState :=
  ⟨[⟨7, 3, "RCA_RUN_REQUESTED", .obj (RcaJobMessage.dump ⟨1, 2, 3⟩), "rca-run:2", .PENDING, 0, none, 0⟩],
    fun _ => none, fun _ => none, []⟩

/-- A post-commit publish rolls back after its send, a recovery batch publishes the event, and a second
`publish_event` comes last. -/
def racingCalls : List Action :=
  [.start 0 (.event 7), .start 1 (.batch .PENDING 10), .select 0 5, .settleNext 0 true, .abort 0,
    .select 1 6, .start 2 (.event 7), .settleNext 1 true, .commit 1, .select 2 8, .settleNext 2 true,
    .commit 2]

/-- What the witness reads of a state: the statuses, how often the event was sent, and what the calls
report. -/
def outcomeOf (s : OutboxState) : List OutboxStatus × Nat × List (List PublishResultCode) :=
  (s.events.map OutboxEvent.status, (s.sentFor 7).length,
    (List.range 3).map fun p => match s.calls p with
      | some ⟨_, .committed _ results⟩ => results.map OutboxPublishResult.result
      | _ => [])

/-- The race ends with one published event and a call that reports `NO_OP`. -/
theorem outbox_safe_race : ∃ s, outcomeOf s = ([.PUBLISHED], 2, [[], [.PUBLISHED], [.NO_OP]]) ∧
    SafeState ⟨"rca-jobs", 30000000, by decide⟩ s ∧
    ∀ t, (outbox ⟨"rca-jobs", 30000000, by decide⟩).Steps s t → SafeRun s t := by
  have key : (((outbox ⟨"rca-jobs", 30000000, by decide⟩).exec pendingState racingCalls).map outcomeOf) =
      some ([.PUBLISHED], 2, [[], [.PUBLISHED], [.NO_OP]]) := by decide
  obtain ⟨s, hs, outcome⟩ := Option.map_eq_some_iff.1 key
  have init : (outbox ⟨"rca-jobs", 30000000, by decide⟩).init pendingState := by
    refine ⟨List.nodup_singleton _, ?_, fun _ => rfl, fun _ => rfl, rfl⟩
    intro e he
    rw [List.mem_singleton.1 he, OutboxEvent.Dated]
    simp
  have safe := outbox_safe _ s ⟨_, init, System.run_of_exec hs⟩
  exact ⟨s, outcome, safe.1, safe.2.2⟩

end SreAgent.Outbox
