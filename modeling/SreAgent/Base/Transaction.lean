import Mathlib
import SreAgent.Base.Transition

/-!
# Transactions under read committed isolation

A `Program` is what one transaction does, statement by statement. A `Dialect` says what a statement
answers and writes, on the committed store together with the transaction's own writes, which keys
the writes hold, and which keys a statement waits for. In a `Server` any number of transactions
interleave: a statement runs when no other transaction holds a key it needs, the writes of a
transaction reach the store at its commit, and an error or a crash at any point drops them. After
its commit a call performs its effects in order.

`wp` is the weakest precondition of a program among the commits of others; `reachable_sound` is the
rule: programs verified one by one against a store invariant are sound together.
-/

namespace SreAgent.Base.Transaction

variable {S : Type → Type} {α β : Type}

/-- What a transaction does: statements of `S`, each continued by its answer. -/
inductive Program (S : Type → Type) (α : Type) : Type 1 where
  | pure (a : α)
  | raise
  | call {β : Type} (s : S β) (next : β → Program S α)

namespace Program

protected def bind : Program S α → (α → Program S β) → Program S β
  | pure a, f => f a
  | raise, _ => raise
  | call s next, f => call s fun b => (next b).bind f

instance : Monad (Program S) where
  pure := pure
  bind := Program.bind

/-- One statement. -/
def stmt (s : S α) : Program S α := call s pure

@[simp] theorem pure_bind (a : α) (f : α → Program S β) : (Pure.pure a : Program S α) >>= f = f a := rfl

@[simp] theorem raise_bind (f : α → Program S β) : (raise : Program S α) >>= f = raise := rfl

@[simp] theorem stmt_bind (s : S α) (f : α → Program S β) : stmt s >>= f = call s f := rfl

@[simp] theorem call_bind {γ : Type} (s : S γ) (next : γ → Program S α) (f : α → Program S β) :
    call s next >>= f = call s fun c => next c >>= f := rfl

@[simp] theorem bind_assoc {γ : Type} (x : Program S α) (f : α → Program S β) (g : β → Program S γ) :
    x >>= f >>= g = x >>= fun a => f a >>= g := by
  induction x with
  | pure a => rfl
  | raise => rfl
  | call s next ih => exact congrArg (call s) (funext ih)

end Program

/-- The statements `S` of a database: `χ` are the choices of the environment, `σ` the stores, `ω`
the writes of a transaction, `κ` the keys they hold. -/
structure Dialect (S : Type → Type) (χ σ ω κ : Type) where
  merge : σ → ω → σ
  blank : ω
  holds : ω → List κ
  needs : {β : Type} → S β → χ → σ → ω → List κ
  run : {β : Type} → S β → χ → σ → ω → Option (β × ω)
  merge_blank : ∀ store, merge store blank = store
  holds_blank : holds blank = []
  holds_run : ∀ {β : Type} (s : S β) (c : χ) (store : σ) (own own' : ω) (b : β),
    run s c store own = some (b, own') →
    ∀ k ∈ holds own', k ∈ holds own ∨ k ∈ needs s c store own

variable {χ σ ω κ : Type}

namespace Dialect

variable (D : Dialect S χ σ ω κ)

/-- No key is held by both. -/
def Apart (own other : ω) : Prop := ∀ k ∈ D.holds own, k ∉ D.holds other

variable {D} in
theorem Apart.symm {own other : ω} (h : D.Apart own other) : D.Apart other own := fun k hk hk' => h k hk' hk

theorem apart_blank (other : ω) : D.Apart D.blank other := by simp [Apart, D.holds_blank]

/-- Another transaction commits, and the store keeps its invariant. -/
def Commits (J : σ → Prop) (own : ω) (store store' : σ) : Prop :=
  ∃ other, D.Apart own other ∧ J store ∧ J (D.merge store other) ∧ store' = D.merge store other

/-- What other transactions do to the store meanwhile. -/
abbrev Rely (J : σ → Prop) (own : ω) : σ → σ → Prop := Relation.ReflTransGen (D.Commits J own)

/-- A fact about the store and the own writes that the commits of others keep. -/
def Stable (J : σ → Prop) (A : σ → ω → Prop) : Prop :=
  ∀ store own other, A store own → D.Apart own other → J store → J (D.merge store other) →
    A (D.merge store other) own

variable {D} in
/-- A stable assertion survives what others do meanwhile. -/
theorem Stable.rely {J : σ → Prop} {A : σ → ω → Prop} (stable : D.Stable J A) {store store' : σ} {own : ω}
    (meanwhile : D.Rely J own store store') (h : A store own) : A store' own := by
  induction meanwhile with
  | refl => exact h
  | tail _ commits ih =>
    obtain ⟨other, apart, before, after, rfl⟩ := commits
    exact stable _ own other ih apart before after

/-- What others do meanwhile keeps the invariant. -/
theorem Rely.inv {J : σ → Prop} {store store' : σ} {own : ω} (meanwhile : D.Rely J own store store')
    (h : J store) :
    J store' := by
  induction meanwhile with
  | refl => exact h
  | tail _ commits _ =>
    obtain ⟨other, -, -, after, rfl⟩ := commits
    exact after

/-! ## Weakest preconditions -/

/-- Whatever others commit meanwhile, the program ends in `Q`, if it does not raise. -/
def wp (J : σ → Prop) (Q : α → σ → ω → Prop) : Program S α → σ → ω → Prop
  | .pure a, store, own => ∀ store', D.Rely J own store store' → Q a store' own
  | .raise, _, _ => True
  | .call s next, store, own => ∀ store', D.Rely J own store store' → J store' → ∀ c b own',
      D.run s c store' own = some (b, own') → wp J Q (next b) store' own'

variable {J : σ → Prop} {Q : α → σ → ω → Prop} {D}

/-- A precondition outlives the commits of others. -/
theorem wp_rely {p : Program S α} {store store' : σ} {own : ω} (meanwhile : D.Rely J own store store')
    (h : D.wp J Q p store own) : D.wp J Q p store' own := by
  cases p with
  | pure a => exact fun later more => h later (meanwhile.trans more)
  | raise => trivial
  | call s next => exact fun later more => h later (meanwhile.trans more)

/-- A weaker postcondition has a weaker precondition. -/
theorem wp_mono {Q' : α → σ → ω → Prop} (weaker : ∀ a store own, Q a store own → Q' a store own)
    {p : Program S α} {store : σ} {own : ω} (h : D.wp J Q p store own) : D.wp J Q' p store own := by
  induction p generalizing store own with
  | pure a => exact fun later meanwhile => weaker a later own (h later meanwhile)
  | raise => trivial
  | call s next ih =>
    exact fun later meanwhile inv c b own' hrun => ih b (h later meanwhile inv c b own' hrun)

/-- Programs in sequence. -/
theorem wp_bind {Q : β → σ → ω → Prop} {p : Program S α} {f : α → Program S β} {store : σ} {own : ω}
    (h : D.wp J (fun a store own => D.wp J Q (f a) store own) p store own) :
    D.wp J Q (p >>= f) store own := by
  induction p generalizing store own with
  | pure a => exact h store .refl
  | raise => trivial
  | call s next ih =>
    exact fun later meanwhile inv c b own' hrun => ih b (h later meanwhile inv c b own' hrun)

theorem wp_pure {A : σ → ω → Prop} (stable : D.Stable J A) {a : α} {store : σ} {own : ω} (pre : A store own)
    (post : ∀ store, A store own → Q a store own) : D.wp J Q (.pure a) store own :=
  fun later meanwhile => post later (stable.rely meanwhile pre)

/-- A statement from a stable fact. -/
theorem wp_call {A : σ → ω → Prop} (stable : D.Stable J A) {γ : Type} {s : S γ} {next : γ → Program S α}
    {store : σ} {own : ω} (pre : A store own)
    (step : ∀ store c b own', A store own → J store → D.run s c store own = some (b, own') →
      D.wp J Q (next b) store own') : D.wp J Q (.call s next) store own :=
  fun later meanwhile inv c b own' hrun => step later c b own' (stable.rely meanwhile pre) inv hrun

/-! ## A transaction alone -/

section Alone

variable (D) (pick : ω → χ) (store : σ)

/-- The program without others, the choices made by `pick`. -/
def alone : Program S α → ω → Option (α × ω)
  | .pure a, own => some (a, own)
  | .raise, _ => none
  | .call s next, own => (D.run s (pick own) store own).bind fun (b, own') => alone (next b) own'

@[simp] theorem alone_raise (own : ω) : D.alone pick store (.raise : Program S α) own = none := rfl

@[simp] theorem alone_pure (a : α) (own : ω) :
    D.alone pick store (Pure.pure a : Program S α) own = some (a, own) := rfl

@[simp] theorem alone_call {γ : Type} (s : S γ) (next : γ → Program S α) (own : ω) :
    D.alone pick store (.call s next) own = (D.run s (pick own) store own).bind fun (b, own') =>
      D.alone pick store (next b) own' :=
  rfl

/-- Alone, a sequence runs its first part, then the second. -/
theorem alone_bind (p : Program S α) (f : α → Program S β) (own : ω) :
    D.alone pick store (p >>= f) own = (D.alone pick store p own).bind fun (a, own') =>
      D.alone pick store (f a) own' := by
  induction p generalizing own with
  | pure a => rfl
  | raise => rfl
  | call s next ih =>
    show (D.run s (pick own) store own).bind (fun (b, own') => D.alone pick store (next b >>= f) own') = _
    rw [alone_call, Option.bind_assoc]
    exact congrArg _ (funext fun (b, own') => ih b own')

/-- The program does not raise. -/
def Returns (p : Program S α) (own : ω) : Prop := ∃ a own', D.alone pick store p own = some (a, own')

theorem returns_pure (a : α) (own : ω) : D.Returns pick store (Pure.pure a : Program S α) own := ⟨a, own, rfl⟩

theorem not_returns_raise (own : ω) : ¬ D.Returns pick store (.raise : Program S α) own := by
  rintro ⟨_, _, h⟩
  cases h

/-- A program goes on after a statement as the statement answers. -/
theorem returns_call {γ : Type} {s : S γ} {next : γ → Program S α} {own own' : ω} {b : γ}
    (run : D.run s (pick own) store own = some (b, own')) :
    D.Returns pick store (.call s next) own ↔ D.Returns pick store (next b) own' := by
  rw [Returns, alone_call, run]
  rfl

/-- A sequence returns exactly if both parts do. -/
theorem returns_bind {p : Program S α} {f : α → Program S β} {own : ω} :
    D.Returns pick store (p >>= f) own ↔
      ∃ a own', D.alone pick store p own = some (a, own') ∧ D.Returns pick store (f a) own' := by
  simp only [Returns, alone_bind, Option.bind_eq_some_iff, Prod.exists]
  constructor
  · rintro ⟨b, own'', a, own', hp, hf⟩
    exact ⟨a, own', hp, b, own'', hf⟩
  · rintro ⟨a, own', hp, b, own'', hf⟩
    exact ⟨b, own'', a, own', hp, hf⟩

variable {D pick store}

/-- What a precondition promises holds of the program alone. -/
theorem wp_alone {p : Program S α} {own own' : ω} {a : α} (inv : J store) (h : D.wp J Q p store own)
    (run : D.alone pick store p own = some (a, own')) : Q a store own' := by
  induction p generalizing own with
  | pure a =>
    cases run
    exact h store .refl
  | raise => cases run
  | call s next ih =>
    obtain ⟨⟨b, between⟩, hrun, rest⟩ := Option.bind_eq_some_iff.1 run
    exact ih b (h store .refl inv _ b between hrun) rest

end Alone

end Dialect

/-! ## Servers -/

/-- The transaction of a call under way, or how it ended. -/
inductive Session (S : Type → Type) (ρ ω ε : Type) : Type 1 where
  | running (own : ω) (rest : Program S ρ)
  | committed (result : ρ) (own : ω) (performed todo : List ε)
  | aborted

variable {ρ ε γ : Type}

/-- The writes a session has not committed yet. -/
def Session.pending : Session S ρ ω ε → Option ω
  | running own _ => some own
  | _ => none

/-- The committed store and the calls made so far. -/
structure Server (S : Type → Type) (γ ρ σ ω ε : Type) : Type 1 where
  store : σ
  sessions : List (γ × Session S ρ ω ε)

/-- A call arrives; a session's next statement runs, fails, or its transaction commits; an effect is
performed. -/
inductive Label (γ χ : Type) where
  | start (g : γ)
  | answer (i : Nat) (c : χ)
  | abort (i : Nat)
  | commit (i : Nat)
  | perform (i : Nat)

namespace Server

/-- The session of a call is replaced. -/
def put (s : Server S γ ρ σ ω ε) (i : Nat) (g : γ) (session : Session S ρ ω ε) : Server S γ ρ σ ω ε :=
  { s with sessions := s.sessions.set i (g, session) }

/-- The writes of a session that is under way. -/
def pendingAt (s : Server S γ ρ σ ω ε) (i : Nat) : Option ω := (s.sessions[i]?).bind fun x => x.2.pending

/-- Another session holds a key in its pending writes. -/
def HeldElsewhere (D : Dialect S χ σ ω κ) (s : Server S γ ρ σ ω ε) (i : Nat) (k : κ) : Prop :=
  ∃ j < s.sessions.length, j ≠ i ∧ ∃ own ∈ s.pendingAt j, k ∈ D.holds own

instance (D : Dialect S χ σ ω κ) [DecidableEq κ] (s : Server S γ ρ σ ω ε) (i : Nat) (k : κ) :
    Decidable (s.HeldElsewhere D i k) := by
  unfold HeldElsewhere
  infer_instance

section

variable (D : Dialect S χ σ ω κ) [DecidableEq κ] (program : γ → Program S ρ) (effects : ρ → List ε)

/-- One step; a statement that fails ends its transaction. -/
def step (s : Server S γ ρ σ ω ε) : Label γ χ → Option (Server S γ ρ σ ω ε)
  | .start g => some { s with sessions := s.sessions ++ [(g, .running D.blank (program g))] }
  | .answer i c =>
    match s.sessions[i]? with
    | some (g, .running own (.call stmt next)) =>
      if ∃ k ∈ D.needs stmt c s.store own, s.HeldElsewhere D i k then none
      else
        match D.run stmt c s.store own with
        | some (b, own') => some (s.put i g (.running own' (next b)))
        | none => some (s.put i g .aborted)
    | _ => none
  | .abort i =>
    match s.sessions[i]? with
    | some (g, .running _ _) => some (s.put i g .aborted)
    | _ => none
  | .commit i =>
    match s.sessions[i]? with
    | some (g, .running own (.pure r)) =>
      some ({ s with store := D.merge s.store own }.put i g (.committed r own [] (effects r)))
    | _ => none
  | .perform i =>
    match s.sessions[i]? with
    | some (g, .committed r own performed (e :: todo)) =>
      some (s.put i g (.committed r own (performed ++ [e]) todo))
    | _ => none

end

end Server

/-- The server of a dialect, started on a store that satisfies `first`. -/
def server (D : Dialect S χ σ ω κ) [DecidableEq κ] (program : γ → Program S ρ) (effects : ρ → List ε)
    (first : σ → Prop) :
    System (Server S γ ρ σ ω ε) (Label γ χ) where
  init s := first s.store ∧ s.sessions = []
  step := Server.step D program effects

/-! ## Verified calls -/

section Verified

variable (D : Dialect S χ σ ω κ) (program : γ → Program S ρ) (effects : ρ → List ε)

/-- Every call ends in its `Q`, whatever others commit; its writes then keep `J` and establish `K`,
which the commits of others keep. -/
structure Verified (J : σ → Prop) (Q : γ → ρ → σ → ω → Prop) (K : γ → ρ → ω → σ → Prop) : Prop where
  start : ∀ g store, J store → D.wp J (Q g) (program g) store D.blank
  commit : ∀ g r store own, J store → Q g r store own → J (D.merge store own) ∧ K g r own (D.merge store own)
  keep : ∀ g r own store other, K g r own store → J store → J (D.merge store other) →
    K g r own (D.merge store other)

/-- What the rule establishes of a server. -/
structure Sound (J : σ → Prop) (Q : γ → ρ → σ → ω → Prop) (K : γ → ρ → ω → σ → Prop)
    (s : Server S γ ρ σ ω ε) :
    Prop where
  store : J s.store
  running : ∀ (i : Nat) g own rest, s.sessions[i]? = some (g, Session.running own rest) →
    D.wp J (Q g) rest s.store own
  apart : ∀ (i j : Nat) own other, i ≠ j → s.pendingAt i = some own → s.pendingAt j = some other →
    D.Apart own other
  committed : ∀ (i : Nat) g r own performed todo,
    s.sessions[i]? = some (g, Session.committed r own performed todo) →
    (∃ store, J store ∧ Q g r store own) ∧ K g r own s.store ∧ performed ++ todo = effects r

variable {D program effects} {J : σ → Prop} {Q : γ → ρ → σ → ω → Prop} {K : γ → ρ → ω → σ → Prop}
  {s t : Server S γ ρ σ ω ε} {i j : Nat} {g : γ}

theorem pendingAt_put {session : Session S ρ ω ε} {x : γ × Session S ρ ω ε} (h : s.sessions[i]? = some x) :
    (s.put i g session).pendingAt j = if j = i then session.pending else s.pendingAt j := by
  have bound : i < s.sessions.length := (List.getElem?_eq_some_iff.1 h).1
  unfold Server.pendingAt Server.put
  by_cases same : i = j
  · subst same
    simp [List.getElem?_set_self bound]
  · rw [List.getElem?_set_ne same, if_neg (Ne.symm same)]

theorem sessions_put {session : Session S ρ ω ε} {x y : γ × Session S ρ ω ε} (h : s.sessions[i]? = some x)
    (hj : (s.put i g session).sessions[j]? = some y) : j = i ∧ y = (g, session) ∨
      j ≠ i ∧ s.sessions[j]? = some y := by
  have bound : i < s.sessions.length := (List.getElem?_eq_some_iff.1 h).1
  unfold Server.put at hj
  by_cases same : i = j
  · subst same
    rw [List.getElem?_set_self bound] at hj
    exact .inl ⟨rfl, (Option.some.inj hj).symm⟩
  · rw [List.getElem?_set_ne same] at hj
    exact .inr ⟨Ne.symm same, hj⟩

/-- A session whose pending writes are dropped or kept leaves the others apart. -/
theorem Sound.apart_put (h : Sound D effects J Q K s) {session : Session S ρ ω ε} {x : γ × Session S ρ ω ε}
    (hi : s.sessions[i]? = some x)
    (apart : ∀ j own other, j ≠ i → session.pending = some own → s.pendingAt j = some other →
      D.Apart own other) :
    ∀ a b own other, a ≠ b → (s.put i g session).pendingAt a = some own →
      (s.put i g session).pendingAt b = some other →
      D.Apart own other := by
  intro a b own other ne ha hb
  rw [pendingAt_put hi] at ha hb
  split at ha
  · next ai =>
    rw [if_neg (ai ▸ Ne.symm ne)] at hb
    exact apart b own other (ai ▸ Ne.symm ne) ha hb
  · next ai =>
    split at hb
    · exact (apart a other own ai hb ha).symm
    · exact h.apart a b own other ne ha hb

/-- A session that is replaced, the store as it was. -/
theorem Sound.put (h : Sound D effects J Q K s) {session : Session S ρ ω ε} {x : γ × Session S ρ ω ε}
    (hi : s.sessions[i]? = some x)
    (running : ∀ own rest, session = .running own rest → D.wp J (Q g) rest s.store own)
    (apart : ∀ j own other, j ≠ i → session.pending = some own → s.pendingAt j = some other →
      D.Apart own other) (committed : ∀ r own performed todo, session = .committed r own performed todo →
      (∃ store, J store ∧ Q g r store own) ∧ K g r own s.store ∧ performed ++ todo = effects r) :
    Sound D effects J Q K (s.put i g session) where
  store := h.store
  running j g' own rest hj := by
    rcases sessions_put hi hj with ⟨-, same⟩ | ⟨-, hj⟩
    · cases same
      exact running own rest rfl
    · exact h.running j g' own rest hj
  apart := h.apart_put hi apart
  committed j g' r own performed todo hj := by
    rcases sessions_put hi hj with ⟨-, same⟩ | ⟨-, hj⟩
    · cases same
      exact committed r own performed todo rfl
    · exact h.committed j g' r own performed todo hj

theorem pendingAt_of_running {own : ω} {rest : Program S ρ}
    (h : s.sessions[i]? = some (g, Session.running own rest)) :
    s.pendingAt i = some own := by
  rw [Server.pendingAt, h]
  rfl

/-- The writes of a session that a statement extends stay apart from the others. -/
theorem apart_run {β : Type} {stmt : S β} {c : χ} {own own' other : ω} {b : β}
    (hj : s.pendingAt j = some other) (ne : j ≠ i)
    (free : ¬ ∃ k ∈ D.needs stmt c s.store own, s.HeldElsewhere D i k) (apart : D.Apart own other)
    (hrun : D.run stmt c s.store own = some (b, own')) : D.Apart own' other := by
  intro k hk hother
  rcases D.holds_run stmt c s.store own own' b hrun k hk with hk | hk
  · exact apart k hk hother
  · refine free ⟨k, hk, j, ?_, ne, other, hj, hother⟩
    by_contra out
    rw [Server.pendingAt, List.getElem?_eq_none (Nat.le_of_not_lt out)] at hj
    cases hj

section Steps

variable [DecidableEq κ]

/-- Every step keeps a server sound. -/
theorem Verified.step (v : Verified D program J Q K) (h : Sound D effects J Q K s) {a : Label γ χ}
    (hstep : s.step D program effects a = some t) : Sound D effects J Q K t := by
  cases a with
  | start g =>
    cases hstep
    have old : ∀ {j : Nat} {x}, (s.sessions ++ [(g, Session.running D.blank (program g))])[j]? = some x →
        s.sessions[j]? = some x ∨ x = (g, .running D.blank (program g)) := by
      intro j x hj
      rw [List.getElem?_append] at hj
      split at hj
      · exact .inl hj
      · exact .inr (List.mem_singleton.1 (List.mem_of_getElem? hj))
    have oldPending : ∀ {j own},
        Server.pendingAt { s with sessions := s.sessions ++ [(g, .running D.blank (program g))] } j =
        some own → s.pendingAt j = some own ∨ own = D.blank := by
      intro j own hj
      obtain ⟨x, hx, hp⟩ := Option.bind_eq_some_iff.1 hj
      rcases old hx with hx | rfl
      · exact .inl (by rw [Server.pendingAt, hx]; exact hp)
      · exact .inr (Option.some.inj hp).symm
    refine ⟨h.store, fun j g' own rest hj => ?_, fun a b own other ne ha hb => ?_,
      fun j g' r own performed todo hj => ?_⟩
    · rcases old hj with hj | same
      · exact h.running j g' own rest hj
      · cases same
        exact v.start g s.store h.store
    · rcases oldPending ha with ha | rfl
      · rcases oldPending hb with hb | rfl
        · exact h.apart a b own other ne ha hb
        · exact (D.apart_blank own).symm
      · exact D.apart_blank other
    · rcases old hj with hj | same
      · exact h.committed j g' r own performed todo hj
      · cases same
  | answer i c =>
    simp only [Server.step] at hstep
    split at hstep
    · next g own β stmt next hi =>
      split at hstep
      · cases hstep
      · next free =>
        split at hstep
        · next b own' hrun =>
          cases hstep
          refine h.put hi ?_ ?_ nofun
          · rintro _ _ ⟨⟩
            exact h.running i g own _ hi s.store .refl h.store c b own' hrun
          · rintro j _ other ne ⟨⟩ hj
            exact apart_run hj ne free (h.apart i j own other (Ne.symm ne) (pendingAt_of_running hi) hj) hrun
        · cases hstep
          exact h.put hi nofun nofun nofun
    · cases hstep
  | abort i =>
    simp only [Server.step] at hstep
    split at hstep
    · next g own rest hi =>
      cases hstep
      exact h.put hi nofun nofun nofun
    · cases hstep
  | commit i =>
    simp only [Server.step] at hstep
    split at hstep
    · next g own r hi =>
      cases hstep
      have post : Q g r s.store own := h.running i g own _ hi s.store .refl
      obtain ⟨after, established⟩ := v.commit g r s.store own h.store post
      refine ⟨after, fun j g' own' rest hj => ?_, h.apart_put hi nofun,
        fun j g' r' own' performed todo hj => ?_⟩
      · rcases sessions_put (s := { s with store := D.merge s.store own }) hi hj with ⟨-, same⟩ | ⟨ne, hj⟩
        · cases same
        · have apart := h.apart j i own' own ne (pendingAt_of_running hj) (pendingAt_of_running hi)
          exact Dialect.wp_rely (.single ⟨own, apart, h.store, after, rfl⟩) (h.running j g' own' rest hj)
      · rcases sessions_put (s := { s with store := D.merge s.store own }) hi hj with ⟨-, same⟩ | ⟨-, hj⟩
        · cases same
          exact ⟨⟨s.store, h.store, post⟩, established, rfl⟩
        · obtain ⟨ended, kept, order⟩ := h.committed j g' r' own' performed todo hj
          exact ⟨ended, v.keep g' r' own' s.store own kept h.store after, order⟩
    · cases hstep
  | perform i =>
    simp only [Server.step] at hstep
    split at hstep
    · next g r own performed e todo hi =>
      cases hstep
      obtain ⟨ended, kept, order⟩ := h.committed i g r own performed (e :: todo) hi
      refine h.put hi nofun nofun ?_
      rintro _ _ _ _ ⟨⟩
      exact ⟨ended, kept, by rw [← order, List.append_assoc, List.singleton_append]⟩
    · cases hstep

/-- Verified calls are sound together, however their statements interleave. -/
theorem Verified.reachable_sound (v : Verified D program J Q K) {first : σ → Prop}
    (base : ∀ store, first store → J store) (h : (server D program effects first).Reachable s) :
    Sound D effects J Q K s := by
  refine h.invariant (fun s init => ?_) fun _ _ _ sound hstep => v.step sound hstep
  obtain ⟨inv, none_⟩ := init
  refine ⟨base _ inv, ?_, ?_, ?_⟩
  · simp [none_]
  · simp [Server.pendingAt, none_]
  · simp [none_]

/-- The store changes by commits of calls that came to their `Q`. -/
theorem Sound.step_store (h : Sound D effects J Q K s) {a : Label γ χ}
    (hstep : s.step D program effects a = some t) :
    (∀ i, a ≠ .commit i) ∧ t.store = s.store ∨ ∃ i g r own, a = .commit i ∧
      s.sessions[i]? = some (g, Session.running own (.pure r)) ∧
      Q g r s.store own ∧
        t = { s with store := D.merge s.store own }.put i g (.committed r own [] (effects r)) := by
  cases a with
  | start g =>
    cases hstep
    exact .inl ⟨nofun, rfl⟩
  | answer i c =>
    simp only [Server.step] at hstep
    split at hstep
    · split at hstep
      · cases hstep
      · split at hstep <;> cases hstep <;> exact .inl ⟨nofun, rfl⟩
    · cases hstep
  | abort i =>
    simp only [Server.step] at hstep
    split at hstep <;> cases hstep
    exact .inl ⟨nofun, rfl⟩
  | commit i =>
    simp only [Server.step] at hstep
    split at hstep
    · next g own r hi =>
      cases hstep
      exact .inr ⟨i, g, r, own, rfl, hi, h.running i g own _ hi s.store .refl, rfl⟩
    · cases hstep
  | perform i =>
    simp only [Server.step] at hstep
    split at hstep <;> cases hstep
    exact .inl ⟨nofun, rfl⟩

/-- A call that was rolled back stays so. -/
theorem aborted_step {a : Label γ χ} (hi : s.sessions[i]? = some (g, Session.aborted))
    (hstep : s.step D program effects a = some t) : t.sessions[i]? = some (g, Session.aborted) := by
  have other : ∀ {j : Nat} {g' : γ} {session : Session S ρ ω ε}, j ≠ i →
      (s.put j g' session).sessions[i]? = some (g, Session.aborted) := by
    intro j g' session ne
    rw [Server.put, List.getElem?_set_ne ne]
    exact hi
  cases a with
  | start g' =>
    cases hstep
    exact List.getElem?_append_left (List.getElem?_eq_some_iff.1 hi).1 ▸ hi
  | answer j c =>
    simp only [Server.step] at hstep
    split at hstep
    · next hj =>
      have ne : j ≠ i := by
        rintro rfl
        rw [hi] at hj
        cases hj
      split at hstep
      · cases hstep
      · split at hstep <;> cases hstep <;> exact other ne
    · cases hstep
  | abort j | commit j | perform j =>
    simp only [Server.step] at hstep
    split at hstep
    · next hj =>
      have ne : j ≠ i := by
        rintro rfl
        rw [hi] at hj
        cases hj
      cases hstep
      exact other ne
    · cases hstep

end Steps

end Verified

end SreAgent.Base.Transaction
