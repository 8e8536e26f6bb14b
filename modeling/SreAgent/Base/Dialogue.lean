import Mathlib

/-!
# Questions that are put again

An answer that is not accepted has a code, and the question is put again, corrected by that code, a
bounded number of times. What a question is and how the answers come about stay open: a run is given
by its exchanges, of which each has put its question or not, and has an answer or an exception.
-/

namespace SreAgent.Base

/-- What came of one question. -/
structure Exchange (ε ρ : Type) where
  put : Bool
  answer : Except ε ρ
  put_of_answer : ∀ r, answer = .ok r → put = true

/-- How answers are judged, and what is done about those that are not accepted. -/
structure Dialogue (q ε ρ κ α : Type) where
  judge : ρ → Except κ α
  correct : κ → ρ → Except ε q
  giveUp : κ → ε

/-- The questions that were put, and what came of them. -/
structure Transcript (q ε α : Type) where
  asked : List q
  outcome : Except ε α

namespace Dialogue

variable {q ε ρ κ α : Type} (d : Dialogue q ε ρ κ α) (exchanges : Nat → Exchange ε ρ)

/-- The questions of one exchange. -/
def asking (question : q) (index : Nat) : List q := if (exchanges index).put = true then [question] else []

/-- The dialogue from an exchange on, with as many corrections as are left. -/
def converse : Nat → Nat → q → Transcript q ε α
  | left, index, question =>
    match (exchanges index).answer with
    | .error e => ⟨asking exchanges question index, .error e⟩
    | .ok r =>
      match d.judge r with
      | .ok a => ⟨asking exchanges question index, .ok a⟩
      | .error code =>
        match left with
        | 0 => ⟨asking exchanges question index, .error (d.giveUp code)⟩
        | left + 1 =>
          match d.correct code r with
          | .error e => ⟨asking exchanges question index, .error e⟩
          | .ok next =>
            let rest := converse left (index + 1) next
            ⟨asking exchanges question index ++ rest.asked, rest.outcome⟩

/-- An exchange has the answer that leads from its question to the next. -/
def Corrects (index : Nat) (next : q) : Prop :=
  ∃ r code, (exchanges index).answer = .ok r ∧ d.judge r = .error code ∧ d.correct code r = .ok next

/-- Why a dialogue fails: an exchange raised, or an answer was not accepted, which cannot be corrected
or was the last. -/
def Fails (e : ε) : Prop :=
  (∃ index, (exchanges index).answer = .error e) ∨
    ∃ index r code, (exchanges index).answer = .ok r ∧ d.judge r = .error code ∧
      (e = d.giveUp code ∨ d.correct code r = .error e)

variable {d exchanges} {left index : Nat} {question : q}

/-- An exchange asks at most once. -/
theorem length_asking : (asking exchanges question index).length ≤ 1 := by
  unfold asking
  split
  · exact Nat.le_refl 1
  · exact Nat.zero_le 1

/-- What is asked is the question. -/
theorem mem_asking {p : q} (h : p ∈ asking exchanges question index) : p = question := by
  unfold asking at h
  split at h
  · exact List.mem_singleton.1 h
  · cases h

/-- Where there is an answer, the question was asked. -/
theorem asking_of_answer {r : ρ} (h : (exchanges index).answer = .ok r) :
    asking exchanges question index = [question] :=
  if_pos ((exchanges index).put_of_answer r h)

/-- A dialogue is one exchange that ends it, or one that leads to the next. -/
theorem converse_cases (d : Dialogue q ε ρ κ α) (exchanges : Nat → Exchange ε ρ) (left index : Nat)
    (question : q) :
    ((d.converse exchanges left index question).asked = asking exchanges question index ∧
      ((∃ r a, (exchanges index).answer = .ok r ∧ d.judge r = .ok a ∧
          (d.converse exchanges left index question).outcome = .ok a) ∨
        ∃ e, d.Fails exchanges e ∧ (d.converse exchanges left index question).outcome = .error e)) ∨
    ∃ rest next, left = rest + 1 ∧ d.Corrects exchanges index next ∧
      (d.converse exchanges left index question).asked =
        question :: (d.converse exchanges rest (index + 1) next).asked ∧
      (d.converse exchanges left index question).outcome =
        (d.converse exchanges rest (index + 1) next).outcome := by
  cases hanswer : (exchanges index).answer with
  | error e =>
    refine .inl ⟨?_, .inr ⟨e, .inl ⟨index, hanswer⟩, ?_⟩⟩ <;> unfold converse <;> rw [hanswer]
  | ok r =>
    cases hjudge : d.judge r with
    | ok a =>
      refine .inl ⟨?_, .inl ⟨r, a, rfl, hjudge, ?_⟩⟩ <;> unfold converse <;> simp only [hanswer, hjudge]
    | error code =>
      cases left with
      | zero =>
        refine .inl ⟨?_, .inr ⟨d.giveUp code, .inr ⟨index, r, code, hanswer, hjudge, .inl rfl⟩, ?_⟩⟩ <;>
          unfold converse <;>
          simp only [hanswer, hjudge]
      | succ rest =>
        cases hcorrect : d.correct code r with
        | error e =>
          refine .inl ⟨?_, .inr ⟨e, .inr ⟨index, r, code, hanswer, hjudge, .inr hcorrect⟩, ?_⟩⟩ <;>
            unfold converse <;>
            simp only [hanswer, hjudge, hcorrect]
        | ok next =>
          refine .inr ⟨rest, next, rfl, ⟨r, code, hanswer, hjudge, hcorrect⟩, ?_, ?_⟩
          · rw [converse]
            simp only [hanswer, hjudge, hcorrect, asking_of_answer hanswer]
            rfl
          · rw [converse]
            simp only [hanswer, hjudge, hcorrect]

/-- No more questions are put than the first and the corrections. -/
theorem length_asked (left index : Nat) (question : q) :
    (d.converse exchanges left index question).asked.length ≤ left + 1 := by
  induction left generalizing index question with
  | zero =>
    rcases converse_cases d exchanges 0 index question with ⟨asked, -⟩ | ⟨_, _, more, -⟩
    · rw [asked]
      exact length_asking
    · cases more
  | succ left ih =>
    rcases converse_cases d exchanges (left + 1) index question with
      ⟨asked, -⟩ | ⟨rest, next, more, -, asked, -⟩
    · rw [asked]
      have one : (asking exchanges question index).length ≤ 1 := length_asking
      omega
    · cases more
      rw [asked, List.length_cons]
      have below := ih (index + 1) next
      omega

/-- What a dialogue returns is an answer that was accepted, and what it raises has a reason. -/
def Explains (d : Dialogue q ε ρ κ α) (exchanges : Nat → Exchange ε ρ) : Except ε α → Prop
  | .ok a => ∃ index r, (exchanges index).answer = .ok r ∧ d.judge r = .ok a
  | .error e => d.Fails exchanges e

/-- Every outcome of a conversation is explained by its exchanges. -/
theorem explained (left index : Nat) (question : q) :
    d.Explains exchanges (d.converse exchanges left index question).outcome := by
  induction left generalizing index question with
  | zero =>
    rcases converse_cases d exchanges 0 index question with
      ⟨-, ⟨r, a, hanswer, hjudge, outcome⟩ | ⟨e, fails, outcome⟩⟩ | ⟨_, _, more, -⟩
    · rw [outcome]
      exact ⟨index, r, hanswer, hjudge⟩
    · rw [outcome]
      exact fails
    · cases more
  | succ left ih =>
    rcases converse_cases d exchanges (left + 1) index question with
      ⟨-, ⟨r, a, hanswer, hjudge, outcome⟩ | ⟨e, fails, outcome⟩⟩ | ⟨rest, next, more, -, -, outcome⟩
    · rw [outcome]
      exact ⟨index, r, hanswer, hjudge⟩
    · rw [outcome]
      exact fails
    · cases more
      rw [outcome]
      exact ih (index + 1) next

/-- The first question that is put is the one given. -/
theorem asked_first {p : q} (h : (d.converse exchanges left index question).asked[0]? = some p) :
    p = question := by
  rcases converse_cases d exchanges left index question with
    ⟨asked, -⟩ | ⟨rest, next, -, -, asked, -⟩
  · rw [asked] at h
    exact mem_asking (List.mem_of_getElem? h)
  · rw [asked] at h
    exact (Option.some.inj h).symm

/-- Every later question corrects the one before by the answer to it. -/
theorem asked_next {k : Nat} {p : q} (h : (d.converse exchanges left index question).asked[k + 1]? = some p) :
    d.Corrects exchanges (index + k) p := by
  induction k generalizing left index question with
  | zero =>
    rcases converse_cases d exchanges left index question with
      ⟨asked, -⟩ | ⟨rest, next, -, corrects, asked, -⟩
    · rw [asked] at h
      obtain ⟨within, -⟩ := List.getElem?_eq_some_iff.1 h
      have one : (asking exchanges question index).length ≤ 1 := length_asking
      omega
    · rw [asked, List.getElem?_cons_succ] at h
      rw [asked_first h]
      exact corrects
  | succ k ih =>
    rcases converse_cases d exchanges left index question with
      ⟨asked, -⟩ | ⟨rest, next, -, -, asked, -⟩
    · rw [asked] at h
      obtain ⟨within, -⟩ := List.getElem?_eq_some_iff.1 h
      have one : (asking exchanges question index).length ≤ 1 := length_asking
      omega
    · rw [asked, List.getElem?_cons_succ] at h
      have corrects := ih h
      rw [Nat.add_assoc, Nat.add_comm 1 k] at corrects
      exact corrects

end Dialogue

end SreAgent.Base
