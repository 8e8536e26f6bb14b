import SreAgent.Base.JsonParse

/-!
# When reading gives up

Reading a value takes a character at a time, so the fuel of `parse` always suffices
(`parse_ne_outOfFuel`), and a text no longer than a limit of the interpreter does not reach it:
each level of nesting and each digit takes a character (`parse_shallow`, `parse_short`).
-/

namespace SreAgent.Base.JsonParse
open JsonText Utf

/-- A read of `cs` takes a character at least, and gives up only for a limit that `cs` exceeds. -/
structure Bounded {α : Type} (i : Interpreter) (need fuel depth : Nat) (cs : List Char) (r : Result α) :
    Prop where
  shrinks : ∀ v rest, r = .ok (v, rest) → rest.length < cs.length
  fuel : r = .error .outOfFuel → fuel < need
  depth : r = .error .recursion → depth < cs.length
  digits : r = .error .intTooLong → i.maxDigits < cs.length

section

variable {α β : Type} {i : Interpreter} {need need' fuel fuel' depth depth' : Nat} {cs cs' : List Char}
  {r : Result α}

theorem Bounded.decode : Bounded (α := α) i need fuel depth cs (.error .decode) :=
  ⟨nofun, nofun, nofun, nofun⟩

theorem Bounded.ok {v : α} {rest : List Char} (h : rest.length < cs.length) :
    Bounded i need fuel depth cs (.ok (v, rest)) := by
  refine ⟨?_, nofun, nofun, nofun⟩
  rintro _ _ ⟨rfl, rfl⟩
  exact h

theorem Bounded.map (f : α → β) (h : Bounded i need fuel depth cs r) :
    Bounded i need fuel depth cs (r.map fun (v, rest) => (f v, rest)) := by
  cases r with
  | error e => exact ⟨nofun, fun he => h.fuel (by cases he; rfl), fun he => h.depth (by cases he; rfl),
      fun he => h.digits (by cases he; rfl)⟩
  | ok p => exact .ok (h.shrinks p.1 p.2 rfl)

/-- A part of a read bounds the whole. -/
theorem Bounded.of_part (h : Bounded i need' fuel' depth' cs' r) (shorter : cs'.length ≤ cs.length)
    (fuels : fuel' < need' → fuel < need) (depths : depth' < cs'.length → depth < cs.length) :
    Bounded i need fuel depth cs r :=
  ⟨fun v rest hr => Nat.lt_of_lt_of_le (h.shrinks v rest hr) shorter, fun hr => fuels (h.fuel hr),
    fun hr => depths (h.depth hr), fun hr => Nat.lt_of_lt_of_le (h.digits hr) shorter⟩

/-- A failed part fails the whole alike. -/
theorem Bounded.of_error {e : LoadsError} (h : Bounded (α := α) i need fuel depth cs (.error e)) :
    Bounded (α := β) i need fuel depth cs (.error e) :=
  ⟨nofun, fun hr => h.fuel (by cases hr; rfl), fun hr => h.depth (by cases hr; rfl),
    fun hr => h.digits (by cases hr; rfl)⟩

end

/-! ## Lexical parts -/

/-- Skipping blanks lengthens nothing. -/
theorem skipBlank_length (cs : List Char) : (skipBlank cs).length ≤ cs.length :=
  (List.dropWhile_sublist _).length_le

/-- A literal that is read shortens the text. -/
theorem dropLiteral_length {lit cs rest : List Char} (h : dropLiteral lit cs = some rest) (ne : lit ≠ []) :
    rest.length < cs.length := by
  unfold dropLiteral at h
  split at h
  · next eq =>
    cases h
    have pos : 0 < lit.length := List.length_pos_of_ne_nil ne
    have : lit.length ≤ cs.length := by
      rw [← eq, List.length_take]
      exact Nat.min_le_right _ _
    rw [List.length_drop]
    omega
  · cases h

theorem unit_length {cs rest : List Char} {n : Nat} (h : unit cs = some (n, rest)) :
    rest.length < cs.length := by
  unfold unit at h
  split at h
  · cases h
  · next long =>
    obtain ⟨m, -, hm⟩ := Option.map_eq_some_iff.1 h
    cases hm
    rw [List.length_drop]
    omega

theorem wholeOf_length (cs : List Char) : (wholeOf cs).length ≤ cs.length := by
  unfold wholeOf
  split
  · simp
  · exact (List.takeWhile_sublist _).length_le

/-- A number needs no fuel and no depth. -/
theorem number_bounded (i : Interpreter) (need fuel depth : Nat) (cs : List Char) :
    Bounded i need fuel depth cs (number i cs) := by
  unfold number
  dsimp only
  split
  · exact .decode
  · next digits =>
    have pos : 0 < (wholeOf (cs.drop (signOf cs).length)).length := List.length_pos_of_ne_nil digits
    have whole := wholeOf_length (cs.drop (signOf cs).length)
    rw [List.length_drop] at whole
    have shorter : ∀ k m,
      (((((cs.drop (signOf cs).length).drop (wholeOf (cs.drop (signOf cs).length)).length).drop
        k).drop m)).length < cs.length := by
      intro k m
      simp only [List.length_drop]
      omega
    split
    · split
      · exact ⟨nofun, nofun, nofun, fun _ => by omega⟩
      · exact .ok (shorter _ _)
    · exact .ok (shorter _ _)

/-- A string needs fuel for its characters. -/
theorem stringBody_bounded (i : Interpreter) (fuel depth : Nat) (cs : List Char) :
    Bounded i (cs.length + 1) fuel depth cs (stringBody fuel cs) := by
  induction fuel generalizing cs with
  | zero => exact ⟨nofun, fun _ => Nat.succ_pos _, nofun, nofun⟩
  | succ fuel ih =>
    have part : ∀ {tail : List Char} (f : List CodePoint → List CodePoint), tail.length < cs.length →
        Bounded i (cs.length + 1) (fuel + 1) depth cs
          ((stringBody fuel tail).map fun read => (f read.1, read.2)) := by
      intro tail f shorter
      exact ((ih tail).map f).of_part (Nat.le_of_lt shorter) (by omega) (by omega)
    cases cs with
    | nil => exact .decode
    | cons c cs =>
      rw [stringBody.eq_def]
      dsimp only
      split
      · exact .ok (by simp)
      · split
        · exact .decode
        · split
          · split
            · exact .decode
            · next e rest =>
              split
              · next d _ => exact part (.ofChar d :: ·) (by simp only [List.length_cons]; omega)
              · split
                · exact .decode
                · split
                  · exact .decode
                  · next high rest' hunit =>
                    have hlen := unit_length hunit
                    simp only [List.length_cons] at part
                    split
                    · split
                      · exact part (.ofNat high :: ·) (by omega)
                      · next tail hdrop =>
                        have htail := dropLiteral_length hdrop (by simp)
                        split
                        · exact .decode
                        · next low after hlow =>
                          have hafter := unit_length hlow
                          split
                          · exact part _ (by omega)
                          · exact part (.ofNat high :: ·) (by omega)
                    · exact part (.ofNat high :: ·) (by omega)
          · exact part (.ofChar c :: ·) (by simp)

/-- String literals are read whole. -/
theorem stringLit_bounded (i : Interpreter) (need fuel depth : Nat) (cs : List Char) :
    Bounded i need fuel depth cs (stringLit cs) := by
  have body := stringBody_bounded i (cs.length + 1) depth cs
  have whole := body.map PyStr.mk
  refine ⟨whole.shrinks, fun h => absurd (whole.fuel h) (Nat.lt_irrefl _), fun h => ?_, whole.digits⟩
  have := (stringBody_bounded i (cs.length + 1) cs.length cs).map PyStr.mk
  exact absurd (this.depth h) (Nat.lt_irrefl _)

/-! ## Values -/

/-- The three readers, one fuel at a time. -/
theorem readers_bounded (i : Interpreter) (fuel : Nat) :
    (∀ depth cs, Bounded i (2 * cs.length + 1) fuel depth cs (value i fuel depth cs)) ∧
    (∀ depth acc cs, Bounded i (2 * cs.length + 2) fuel depth cs (elements i fuel depth acc cs)) ∧
    (∀ depth acc cs, Bounded i (2 * cs.length + 2) fuel depth cs (members i fuel depth acc cs)) := by
  induction fuel with
  | zero => exact ⟨fun _ _ => ⟨nofun, fun _ => Nat.succ_pos _, nofun, nofun⟩,
      fun _ _ _ => ⟨nofun, fun _ => Nat.succ_pos _, nofun, nofun⟩,
      fun _ _ _ => ⟨nofun, fun _ => Nat.succ_pos _, nofun, nofun⟩⟩
  | succ fuel ih =>
    obtain ⟨values, elementss, memberss⟩ := ih
    refine ⟨fun depth cs => ?_, fun depth acc cs => ?_, fun depth acc cs => ?_⟩
    · cases cs with
      | nil => exact .decode
      | cons c cs =>
        have blank := skipBlank_length cs
        rw [value.eq_def]
        dsimp only
        split
        · exact ((stringLit_bounded i _ (fuel + 1) depth cs).map Json.str).of_part (by simp) id
            (by simp; omega)
        · split
          · split
            · exact ⟨nofun, nofun, fun _ => by simp, nofun⟩
            · next depth =>
              split
              · exact .decode
              · next c' rest hskip =>
                rw [hskip, List.length_cons] at blank
                split
                · exact .ok (by simp only [List.length_cons]; omega)
                · exact (memberss depth [] (c' :: rest)).of_part (by simp only [List.length_cons]; omega)
                    (by simp only [List.length_cons]; omega) (by simp only [List.length_cons]; omega)
          · split
            · split
              · exact ⟨nofun, nofun, fun _ => by simp, nofun⟩
              · next depth =>
                split
                · exact .decode
                · next c' rest hskip =>
                  rw [hskip, List.length_cons] at blank
                  split
                  · exact .ok (by simp only [List.length_cons]; omega)
                  · exact (elementss depth [] (c' :: rest)).of_part (by simp only [List.length_cons]; omega)
                      (by simp only [List.length_cons]; omega) (by simp only [List.length_cons]; omega)
            · split
              on_goal 7 => exact number_bounded i _ _ _ _
              all_goals exact .ok (dropLiteral_length (by assumption) (by decide))
    · rw [elements]
      have first := values depth cs
      split
      · next e he =>
        rw [he] at first
        exact first.of_error.of_part (Nat.le_refl _) (by omega) id
      · next v rest hv =>
        have shorter := first.shrinks v rest hv
        have blank := skipBlank_length rest
        split
        · next rest' hskip =>
          rw [hskip, List.length_cons] at blank
          exact .ok (by omega)
        · next rest' hskip =>
          rw [hskip, List.length_cons] at blank
          have blank' := skipBlank_length rest'
          exact (elementss depth _ (skipBlank rest')).of_part (by omega) (by omega) (by omega)
        · exact .decode
    · cases cs with
      | nil => exact .decode
      | cons c cs =>
        rw [members]
        split
        · have key := stringLit_bounded i (2 * cs.length + 2) (fuel + 1) depth cs
          simp only [List.length_cons]
          split
          · next e he =>
            rw [he] at key
            exact key.of_error.of_part (by simp) (by omega) (by simp only [List.length_cons]; omega)
          · next name rest hkey =>
            have shorter := key.shrinks name rest hkey
            have blank := skipBlank_length rest
            split
            · next rest hskip =>
              rw [hskip, List.length_cons] at blank
              have blank' := skipBlank_length rest
              have item := values depth (skipBlank rest)
              split
              · next e he =>
                rw [he] at item
                exact item.of_error.of_part (by simp only [List.length_cons]; omega) (by omega)
                  (by simp only [List.length_cons]; omega)
              · next v rest' hv =>
                have shorter' := item.shrinks v rest' hv
                have blank'' := skipBlank_length rest'
                split
                · next rest'' hskip' =>
                  rw [hskip', List.length_cons] at blank''
                  exact .ok (by simp only [List.length_cons]; omega)
                · next rest'' hskip' =>
                  rw [hskip', List.length_cons] at blank''
                  have blank''' := skipBlank_length rest''
                  exact (memberss depth _ (skipBlank rest'')).of_part (by simp only [List.length_cons]; omega)
                    (by omega) (by simp only [List.length_cons]; omega)
                · exact .decode
            · exact .decode
        · exact .decode

/-- A value needs fuel for twice the length of the text. -/
theorem value_bounded (i : Interpreter) (fuel depth : Nat) (cs : List Char) :
    Bounded i (2 * cs.length + 1) fuel depth cs (value i fuel depth cs) := (readers_bounded i fuel).1 depth cs

/-! ## Documents -/

section Parse

variable {i : Interpreter} {text : List Char}

/-- An error of `parse` is an error of its value, or trailing text. -/
theorem parse_error {e : LoadsError} (h : parse i text = .error e) :
    e = .decode ∨ value i (2 * text.length + 2) i.maxDepth (skipBlank text) = .error e := by
  unfold parse at h
  split at h
  · next e' he =>
    cases h
    exact .inr he
  · split at h
    · cases h
    · cases h
      exact .inl rfl

/-- `parse` always reaches a result. -/
theorem parse_ne_outOfFuel (i : Interpreter) (text : List Char) : parse i text ≠ .error .outOfFuel := by
  intro h
  rcases parse_error h with h | h
  · cases h
  · have := (value_bounded i _ _ _).fuel h
    have := skipBlank_length text
    omega

/-- A text within the nesting limit does not exceed it. -/
theorem parse_shallow (short : text.length ≤ i.maxDepth) : parse i text ≠ .error .recursion := by
  intro h
  rcases parse_error h with h | h
  · cases h
  · have := (value_bounded i _ _ _).depth h
    have := skipBlank_length text
    omega

/-- A text within the digit limit does not exceed it. -/
theorem parse_short (short : text.length ≤ i.maxDigits) : parse i text ≠ .error .intTooLong := by
  intro h
  rcases parse_error h with h | h
  · cases h
  · have := (value_bounded i _ _ _).digits h
    have := skipBlank_length text
    omega

end Parse

end SreAgent.Base.JsonParse
