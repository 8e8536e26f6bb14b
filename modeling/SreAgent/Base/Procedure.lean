import Mathlib

/-!
# Procedures with exceptions and crashes

A `Procedure` acts on a state and asks its environment for answers: clock readings, replies of
services, the outcome of a commit. It returns, it raises, or it stops where it stands, because its
process is lost or its task cancelled; an environment that has no answer left stops it too, so a
list of answers is also a point at which to crash. `wp` is the weakest precondition over all
environments that answer as `env` allows, with a postcondition for each of the three ways to end
that also sees the answers used.
-/

namespace SreAgent.Base

/-- How a procedure ends. -/
inductive Reply (ε α : Type) where
  | returned (a : α)
  | raised (e : ε)
  | stopped
  deriving DecidableEq

/-- A procedure on states `σ`, with answers `χ` and exceptions `ε`. -/
def Procedure (σ χ ε α : Type) : Type := σ → List χ → Reply ε α × σ × List χ

namespace Procedure

variable {σ τ χ ε α β γ : Type}

protected def bind (x : Procedure σ χ ε α) (f : α → Procedure σ χ ε β) : Procedure σ χ ε β := fun s cs =>
  match x s cs with
  | (.returned a, s', cs') => f a s' cs'
  | (.raised e, s', cs') => (.raised e, s', cs')
  | (.stopped, s', cs') => (.stopped, s', cs')

instance : Monad (Procedure σ χ ε) where
  pure a := fun s cs => (.returned a, s, cs)
  bind := Procedure.bind

def raise (e : ε) : Procedure σ χ ε α := fun s cs => (.raised e, s, cs)

def stop : Procedure σ χ ε α := fun s cs => (.stopped, s, cs)

/-- The state. -/
def get : Procedure σ χ ε σ := fun s cs => (.returned s, s, cs)

def modify (f : σ → σ) : Procedure σ χ ε Unit := fun s cs => (.returned (), f s, cs)

/-- The next answer of the environment, which acts on the state as well. -/
def ask (act : χ → σ → σ) : Procedure σ χ ε χ := fun s cs =>
  match cs with
  | [] => (.stopped, s, [])
  | c :: cs => (.returned c, act c s, cs)

/-- What the environment does while it gives its answers. -/
def acts (act : χ → σ → σ) (cs : List χ) (s : σ) : σ := cs.foldl (fun s c => act c s) s

/-- `try: x except e: handle(e)`; a procedure that stops runs no handler. -/
def tryCatch (x : Procedure σ χ ε α) (handle : ε → Procedure σ χ ε α) : Procedure σ χ ε α := fun s cs =>
  match x s cs with
  | (.returned a, s', cs') => (.returned a, s', cs')
  | (.raised e, s', cs') => handle e s' cs'
  | (.stopped, s', cs') => (.stopped, s', cs')

/-- A loop over a list that collects what its body returns. -/
def each (f : γ → Procedure σ χ ε β) : List γ → Procedure σ χ ε (List β)
  | [] => pure []
  | x :: xs => do
    let b ← f x
    let bs ← each f xs
    return b :: bs

/-- Whatever the environment answers, the procedure ends in `Q`. -/
def wp (env : χ → Prop) (x : Procedure σ χ ε α) (Q : Reply ε α → σ → List χ → Prop) (s : σ) : Prop :=
  ∀ cs, (∀ c ∈ cs, env c) → ∃ used, cs = used ++ (x s cs).2.2 ∧ Q (x s cs).1 (x s cs).2.1 used

section Rules

variable {env : χ → Prop} {act : χ → σ → σ} {x : Procedure σ χ ε α} {f : α → Procedure σ χ ε β}
  {Q Q' : Reply ε α → σ → List χ → Prop}
  {R : Reply ε β → σ → List χ → Prop} {s : σ}

/-- A weaker postcondition has a weaker precondition. -/
theorem wp_mono (h : x.wp env Q s) (weaker : ∀ r s used, Q r s used → Q' r s used) : x.wp env Q' s := by
  intro cs allowed
  obtain ⟨used, split, post⟩ := h cs allowed
  exact ⟨used, split, weaker _ _ _ post⟩

/-- The answers used are of those allowed. -/
theorem wp_allowed (h : x.wp env Q s) : x.wp env (fun r s used => (∀ c ∈ used, env c) ∧ Q r s used) s := by
  intro cs allowed
  obtain ⟨used, split, post⟩ := h cs allowed
  exact ⟨used, split, fun c mem => allowed c (split ▸ List.mem_append_left _ mem), post⟩

theorem wp_pure {a : α} (h : Q (.returned a) s []) : (pure a : Procedure σ χ ε α).wp env Q s :=
  fun _ _ => ⟨[], rfl, h⟩

theorem wp_raise {e : ε} (h : Q (.raised e) s []) : (raise e : Procedure σ χ ε α).wp env Q s :=
  fun _ _ => ⟨[], rfl, h⟩

theorem wp_stop (h : Q .stopped s []) : (stop : Procedure σ χ ε α).wp env Q s := fun _ _ => ⟨[], rfl, h⟩

theorem wp_get {Q : Reply ε σ → σ → List χ → Prop} (h : Q (.returned s) s []) :
    (get : Procedure σ χ ε σ).wp env Q s :=
  fun _ _ => ⟨[], rfl, h⟩

theorem wp_modify {g : σ → σ} {Q : Reply ε Unit → σ → List χ → Prop} (h : Q (.returned ()) (g s) []) :
    (modify g : Procedure σ χ ε Unit).wp env Q s := fun _ _ => ⟨[], rfl, h⟩

/-- A question is lost, or answered as the environment allows. -/
theorem wp_ask {Q : Reply ε χ → σ → List χ → Prop} (lost : Q .stopped s [])
    (answered : ∀ c, env c → Q (.returned c) (act c s) [c]) :
    (ask act : Procedure σ χ ε χ).wp env Q s
  | [], _ => ⟨[], rfl, lost⟩
  | c :: _, allowed => ⟨[c], rfl, answered c (allowed c List.mem_cons_self)⟩

theorem wp_get_bind {f : σ → Procedure σ χ ε β} (h : (f s).wp env R s) : (get >>= f).wp env R s := h

theorem wp_modify_bind {g : σ → σ} {f : Unit → Procedure σ χ ε β} (h : (f ()).wp env R (g s)) :
    (modify g >>= f).wp env R s := h

theorem wp_raise_bind {e : ε} (h : R (.raised e) s []) : ((raise e : Procedure σ χ ε α) >>= f).wp env R s :=
  fun _ _ => ⟨[], rfl, h⟩

/-- A sequence, from what holds after its first part. -/
theorem wp_bind {I : Reply ε α → σ → List χ → Prop} (first : x.wp env I s)
    (returned : ∀ a s' u, I (.returned a) s' u → (f a).wp env (fun r s'' v => R r s'' (u ++ v)) s')
    (raised : ∀ e s' u, I (.raised e) s' u → R (.raised e) s' u)
    (stopped : ∀ s' u, I .stopped s' u → R .stopped s' u) :
    (x >>= f).wp env R s := by
  intro cs allowed
  obtain ⟨u, split, inv⟩ := first cs allowed
  show ∃ used, cs = used ++ (Procedure.bind x f s cs).2.2 ∧
    R (Procedure.bind x f s cs).1 (Procedure.bind x f s cs).2.1 used
  unfold Procedure.bind
  generalize x s cs = out at split inv ⊢
  obtain ⟨a | e | _, s', cs'⟩ := out
  · obtain ⟨v, split', post⟩ :=
      returned a s' u inv cs' fun c mem => allowed c (split ▸ List.mem_append_right u mem)
    refine ⟨u ++ v, ?_, post⟩
    rw [List.append_assoc]
    exact split.trans (congrArg (u ++ ·) split')
  · exact ⟨u, split, raised e s' u inv⟩
  · exact ⟨u, split, stopped s' u inv⟩

/-- A handled procedure, from what holds after its body. -/
theorem wp_tryCatch {handle : ε → Procedure σ χ ε α} {I : Reply ε α → σ → List χ → Prop} (body : x.wp env I s)
    (returned : ∀ a s' u, I (.returned a) s' u → Q (.returned a) s' u)
    (raised : ∀ e s' u, I (.raised e) s' u → (handle e).wp env (fun r s'' v => Q r s'' (u ++ v)) s')
    (stopped : ∀ s' u, I .stopped s' u → Q .stopped s' u) : (tryCatch x handle).wp env Q s := by
  intro cs allowed
  obtain ⟨u, split, inv⟩ := body cs allowed
  unfold tryCatch
  generalize x s cs = out at split inv ⊢
  obtain ⟨a | e | _, s', cs'⟩ := out
  · exact ⟨u, split, returned a s' u inv⟩
  · obtain ⟨v, split', post⟩ :=
      raised e s' u inv cs' fun c mem => allowed c (split ▸ List.mem_append_right u mem)
    refine ⟨u ++ v, ?_, post⟩
    rw [List.append_assoc]
    exact split.trans (congrArg (u ++ ·) split')
  · exact ⟨u, split, stopped s' u inv⟩

theorem acts_append (cs cs' : List χ) (s : σ) : acts act (cs ++ cs') s = acts act cs' (acts act cs s) :=
  List.foldl_append

/-- Only the environment acts on the state; `P` holds of what is returned and of the answers used for that. -/
def Reads (env : χ → Prop) (act : χ → σ → σ) (x : Procedure σ χ ε α) (s : σ) (P : α → List χ → Prop) : Prop :=
  x.wp env (fun r s' used => s' = acts act used s ∧ ∀ a, r = .returned a → P a used) s

variable {P : α → List χ → Prop}

/-- After a procedure that only reads one goes on from where the environment has come. -/
theorem Reads.wp_bind (reads : x.Reads env act s P)
    (returned : ∀ a u, P a u → (f a).wp env (fun r s' v => R r s' (u ++ v)) (acts act u s))
    (raised : ∀ e u, R (.raised e) (acts act u s) u) (stopped : ∀ u, R .stopped (acts act u s) u) :
    (x >>= f).wp env R s := by
  refine Procedure.wp_bind reads ?_ ?_ ?_
  · rintro a _ u ⟨rfl, holds⟩
    exact returned a u (holds a rfl)
  · rintro e _ u ⟨rfl, -⟩
    exact raised e u
  · rintro _ u ⟨rfl, -⟩
    exact stopped u

/-- A procedure that reads one property reads a weaker one. -/
theorem Reads.mono {P' : α → List χ → Prop} (reads : x.Reads env act s P) (weaker : ∀ a u, P a u → P' a u) :
    x.Reads env act s P' :=
  wp_mono reads fun _ _ u h => ⟨h.1, fun a same => weaker a u (h.2 a same)⟩

theorem reads_pure {a : α} (h : P a []) : (pure a : Procedure σ χ ε α).Reads env act s P := by
  refine wp_pure ⟨rfl, ?_⟩
  rintro _ ⟨⟩
  exact h

theorem reads_raise (e : ε) : (raise e : Procedure σ χ ε α).Reads env act s P := wp_raise ⟨rfl, nofun⟩

theorem reads_raise_bind (e : ε) {f : α → Procedure σ χ ε β} {P : β → List χ → Prop} :
    (raise e >>= f).Reads env act s P :=
  wp_raise ⟨rfl, nofun⟩

theorem reads_stop : (stop : Procedure σ χ ε α).Reads env act s P := wp_stop ⟨rfl, nofun⟩

theorem reads_get : (get : Procedure σ χ ε σ).Reads env act s fun t used => t = s ∧ used = [] := by
  refine wp_get ⟨rfl, ?_⟩
  rintro _ ⟨⟩
  exact ⟨rfl, rfl⟩

theorem reads_ask : (ask act : Procedure σ χ ε χ).Reads env act s fun c used => env c ∧ used = [c] := by
  refine wp_ask ⟨rfl, nofun⟩ fun c allowed => ⟨rfl, ?_⟩
  rintro _ ⟨⟩
  exact ⟨allowed, rfl⟩

/-- Reads compose. -/
theorem Reads.bind {P' : β → List χ → Prop} (reads : x.Reads env act s P)
    (next : ∀ a u, P a u → (f a).Reads env act (acts act u s) fun b v => P' b (u ++ v)) :
    (x >>= f).Reads env act s P' := by
  refine reads.wp_bind (fun a u h => ?_) (fun _ _ => ⟨rfl, nofun⟩) fun _ => ⟨rfl, nofun⟩
  refine wp_mono (next a u h) fun r s' v post => ⟨?_, post.2⟩
  rw [acts_append]
  exact post.1

/-- Reading each element reads the list. -/
theorem reads_each {g : γ → Procedure σ χ ε β} {P : γ → β → Prop}
    (reads : ∀ c s, (g c).Reads env act s fun b _ => P c b) :
    ∀ cs s, (each g cs).Reads env act s fun out _ => List.Forall₂ P cs out
  | [], _ => reads_pure .nil
  | c :: cs, s =>
    (reads c s).bind fun _ _ first => (reads_each reads cs _).bind fun _ _ rest =>
      reads_pure (.cons first rest)

/-- The invariant of a loop, that speaks of the items done and of what they returned. -/
theorem wp_each {g : γ → Procedure σ χ ε β} {I : List γ → List β → σ → Prop}
    {Q : Reply ε (List β) → σ → Prop} {items : List γ} (body : ∀ done c out s, I done out s →
      (g c).wp env (fun r s' _ => match r with
        | .returned b => I (done ++ [c]) (out ++ [b]) s'
        | .raised e => Q (.raised e) s'
        | .stopped => Q .stopped s') s)
    (post : ∀ out s, I items out s → Q (.returned out) s) (base : I [] [] s) :
    (Procedure.each g items).wp env (fun r s _ => Q r s) s := by
  have loop : ∀ rest done out s, I done out s → items = done ++ rest →
      (Procedure.each g rest).wp env (fun r s' _ => match r with
        | .returned bs => I items (out ++ bs) s'
        | .raised e => Q (.raised e) s'
        | .stopped => Q .stopped s') s := by
    intro rest
    induction rest with
    | nil =>
      intro done out s inv same
      refine wp_pure ?_
      show I items (out ++ []) s
      rw [same, List.append_nil, List.append_nil]
      exact inv
    | cons c rest ih =>
      intro done out s inv same
      refine Procedure.wp_bind (body done c out s inv) (fun b s' _ h => ?_) (fun _ _ _ h => h) fun _ _ h => h
      refine Procedure.wp_bind (ih (done ++ [c]) (out ++ [b]) s' h (by rw [same, List.append_assoc]; rfl))
        (fun bs s'' _ h => wp_pure ?_) (fun _ _ _ h => h) fun _ _ h => h
      have h : I items (out ++ [b] ++ bs) s'' := h
      rw [List.append_assoc] at h
      exact h
  refine wp_mono (loop items [] [] s base rfl) ?_
  rintro (bs | e | _) s' _ h
  · exact post bs s' h
  · exact h
  · exact h

end Rules

end Procedure

end SreAgent.Base
