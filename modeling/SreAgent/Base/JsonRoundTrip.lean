import Mathlib
import SreAgent.Base.JsonParse

/-!
# What is written reads back

A document is what `parse` makes of its own text, within the limits of the interpreter and where
its floats read back (`Writable`). Among these are the documents without floats whose objects list
their keys in ascending order (`Canonical`).
-/

namespace SreAgent.Base.JsonParse
open JsonText Utf

/-! ## Strings -/

/-- An escaped unit is read back. -/
theorem unit_unitEscape {n : Nat} (h : n < 65536) (tail : List Char) :
    unit ((hexDigits n 4).map hexChar ++ tail) = some (n, tail) := by
  have len : ((hexDigits n 4).map hexChar).length = 4 := by simp [hexDigits_length]
  have digits : parseHex ((hexDigits n 4).map hexChar) = some n := by
    rw [parseHex, mapM_hexValue fun d hd => hexDigits_lt hd, Option.map_some,
      ofHexDigits_hexDigits (by simpa using h)]
  rw [unit, if_neg (by simp [hexDigits_length]), List.take_left' len, List.drop_left' len, digits]
  rfl

theorem backslash_ne_quote : backslash ≠ quote := by decide

theorem backslash_printable : ¬ backslash.toNat < 32 := by decide

/-- A one-letter escape. -/
theorem stringBody_simple {e c : Char} (h : simpleEscape e = some c) (fuel : Nat) (tail : List Char) :
    stringBody (fuel + 1) (backslash :: e :: tail) = (stringBody fuel tail).map fun (s, rest) =>
      (.ofChar c :: s, rest) := by
  simp only [stringBody, backslash_ne_quote, backslash_printable, if_false, if_true, h]

theorem simpleEscape_u : simpleEscape 'u' = none := by decide

/-- A `\u` escape outside the high surrogates. -/
theorem stringBody_unitEscape {n : Nat} (small : n < 65536) (scalar : n < 55296 ∨ 57343 < n) (fuel : Nat)
    (tail : List Char) :
    stringBody (fuel + 1) (unitEscape n ++ tail) =
      (stringBody fuel tail).map fun (s, rest) => (.ofNat n :: s, rest) := by
  have plain : ¬ (55296 ≤ n ∧ n ≤ 56319) := by omega
  simp only [unitEscape, List.cons_append, stringBody, backslash_ne_quote, backslash_printable, if_false,
    if_true, simpleEscape_u, ne_eq, not_true_eq_false, unit_unitEscape small, plain]

/-- An escaped surrogate pair. -/
theorem stringBody_pair {high low : Nat} (hh : 55296 ≤ high ∧ high ≤ 56319) (hl : 56320 ≤ low ∧ low ≤ 57343)
    (fuel : Nat) (tail : List Char) :
    stringBody (fuel + 1) (unitEscape high ++ (unitEscape low ++ tail)) =
      (stringBody fuel tail).map fun (s, rest) =>
        (.ofNat (65536 + (high - 55296) * 1024 + (low - 56320)) :: s, rest) := by
  have next : dropLiteral [backslash, 'u'] (unitEscape low ++ tail) =
      some ((hexDigits low 4).map hexChar ++ tail) := by
    simp [dropLiteral, unitEscape]
  simp only [unitEscape, List.cons_append] at next
  simp only [unitEscape, List.cons_append, stringBody, backslash_ne_quote, backslash_printable, if_false,
    if_true,
    simpleEscape_u, ne_eq, not_true_eq_false, unit_unitEscape (show high < 65536 by omega), hh,
    and_self, next, unit_unitEscape (show low < 65536 by omega), hl]

theorem toNat_eq {c : Char} {n : Nat} (h : c.toNat = n) : c = Char.ofNat n := by
  rw [← h, Char.ofNat_toNat]

/-- Every escaped character reads back. -/
theorem stringBody_escapeChar (ascii : Bool) (c : Char) (fuel : Nat) (tail : List Char) :
    stringBody (fuel + 1) (escapeChar ascii c ++ tail) =
      (stringBody fuel tail).map fun (s, rest) => (.ofChar c :: s, rest) := by
  have scalar := CodePoint.toNat_scalar c
  unfold escapeChar
  dsimp only
  split_ifs with h₁ h₂ h₃ h₄ h₅ h₆ h₇ h₈ h₉
  · refine stringBody_simple ?_ fuel tail
    rcases h₁ with h | h <;> rw [toNat_eq h] <;> decide
  · exact stringBody_simple (by rw [toNat_eq h₂]; decide) fuel tail
  · exact stringBody_simple (by rw [toNat_eq h₃]; decide) fuel tail
  · exact stringBody_simple (by rw [toNat_eq h₄]; decide) fuel tail
  · exact stringBody_simple (by rw [toNat_eq h₅]; decide) fuel tail
  · exact stringBody_simple (by rw [toNat_eq h₆]; decide) fuel tail
  · rw [stringBody_unitEscape (by omega) (by omega), CodePoint.ofNat_toNat]
  · rw [stringBody_unitEscape (by omega) (by omega), CodePoint.ofNat_toNat]
  · rw [List.append_assoc, stringBody_pair (by omega) (by omega)]
    have : 65536 + (55296 + (c.toNat - 65536) / 1024 - 55296) * 1024 +
        (56320 + (c.toNat - 65536) % 1024 - 56320) = c.toNat := by omega
    rw [this, CodePoint.ofNat_toNat]
  · have hq : c ≠ quote := fun h => h₁ (.inl (by rw [h]; decide))
    have hb : c ≠ backslash := fun h => h₁ (.inr (by rw [h]; decide))
    simp only [List.cons_append, List.nil_append, stringBody, hq, hb, h₇, if_false]

/-- The body of a string literal reads back. -/
theorem stringBody_text (ascii : Bool) (cs : List Char) {fuel : Nat} (enough : cs.length < fuel)
    (rest : List Char) :
    stringBody fuel (cs.flatMap (escapeChar ascii) ++ quote :: rest) = .ok (cs.map .ofChar, rest) := by
  induction cs generalizing fuel with
  | nil =>
    obtain ⟨f, rfl⟩ := Nat.exists_eq_succ_of_ne_zero (Nat.ne_of_gt enough)
    simp [stringBody]
  | cons c cs ih =>
    obtain ⟨f, rfl⟩ := Nat.exists_eq_succ_of_ne_zero (Nat.ne_of_gt (Nat.zero_lt_of_lt enough))
    rw [List.flatMap_cons, List.append_assoc, stringBody_escapeChar, ih (by simpa using enough)]
    rfl

theorem escapeChar_ne_nil (ascii : Bool) (c : Char) : escapeChar ascii c ≠ [] := by
  unfold escapeChar
  dsimp only
  split_ifs <;> simp [unitEscape]

theorem length_le_flatMap (ascii : Bool) (cs : List Char) :
    cs.length ≤ (cs.flatMap (escapeChar ascii)).length := by
  induction cs with
  | nil => exact Nat.le_refl _
  | cons c cs ih =>
    have : 0 < (escapeChar ascii c).length := List.length_pos_of_ne_nil (escapeChar_ne_nil ascii c)
    simp only [List.length_cons, List.flatMap_cons, List.length_append]
    omega

/-- A string literal reads back, after its opening quote. -/
theorem stringLit_text (ascii : Bool) (s : String) (rest : List Char) :
    stringLit (s.toList.flatMap (escapeChar ascii) ++ quote :: rest) = .ok (.ofString s, rest) := by
  have enough : s.toList.length < (s.toList.flatMap (escapeChar ascii) ++ quote :: rest).length + 1 := by
    have := length_le_flatMap ascii s.toList
    rw [List.length_append]
    omega
  rw [stringLit, stringBody_text ascii s.toList enough]
  rfl

/-! ## Integers -/

/-- What may follow a number literal without being read as part of it. -/
def Ends (rest : List Char) : Prop := ∀ c ∈ rest.head?, isDigit c = false ∧ c ≠ '.' ∧ c ≠ 'e' ∧ c ≠ 'E'

/-- A number is written in digits. -/
theorem isDigit_toDigits {n : Nat} {c : Char} (h : c ∈ Nat.toDigits 10 n) : isDigit c = true := by
  have := Nat.isDigit_of_mem_toDigits (by decide) (by decide) h
  simp only [Char.isDigit, Bool.and_eq_true, decide_eq_true_eq, ge_iff_le, UInt32.le_iff_toNat_le] at this
  change 48 ≤ c.toNat ∧ c.toNat ≤ 57 at this
  simpa only [isDigit, decide_eq_true_eq] using this

/-- Only the text of zero starts with a zero. -/
theorem toDigits_head {n : Nat} (h : (Nat.toDigits 10 n).head? = some '0') : Nat.toDigits 10 n = ['0'] := by
  induction n using Nat.strongRecOn with
  | ind n ih =>
    by_cases small : n < 10
    · rw [Nat.toDigits_of_lt_base small] at h ⊢
      have : n.digitChar = '0' := by simpa using h
      rw [this]
    · have big : 10 ≤ n := by omega
      rw [Nat.toDigits_of_base_le (by decide) big] at h
      have nonempty : Nat.toDigits 10 (n / 10) ≠ [] := Nat.toDigits_ne_nil
      rw [List.head?_append_of_ne_nil _ nonempty] at h
      have zero := ih (n / 10) (by omega) h
      have back := congrArg (fun l => Nat.ofDigitChars 10 l 0) zero
      simp only [Nat.ofDigitChars_ten_toDigits] at back
      have : n / 10 = 0 := back
      omega

/-- The digits of a number are read up to its end. -/
theorem takeWhile_digits {ds rest : List Char} (hds : ∀ c ∈ ds, isDigit c = true) (hrest : Ends rest) :
    (ds ++ rest).takeWhile isDigit = ds := by
  rw [List.takeWhile_append_of_pos hds]
  cases rest with
  | nil => simp
  | cons c cs => simp [(hrest c (by simp)).1]

/-- The integer part of the text of a natural number is all of it. -/
theorem wholeOf_toDigits (n : Nat) {rest : List Char} (hrest : Ends rest) :
    wholeOf (Nat.toDigits 10 n ++ rest) = Nat.toDigits 10 n := by
  obtain ⟨c, cs, hcs⟩ := List.exists_cons_of_ne_nil (Nat.toDigits_ne_nil (n := n) (b := 10))
  have digits : ∀ d ∈ c :: cs, isDigit d = true := fun d hd => isDigit_toDigits (hcs ▸ hd)
  by_cases zero : c = '0'
  · subst zero
    have single := toDigits_head (n := n) (by rw [hcs]; rfl)
    rw [single]
    rfl
  · rw [hcs]
    have step : wholeOf ((c :: cs) ++ rest) = ((c :: cs) ++ rest).takeWhile isDigit := by
      rw [List.cons_append]
      unfold wholeOf
      split
      · next heq => exact absurd (List.cons.inj heq).1 zero
      · rfl
    rw [step, takeWhile_digits digits hrest]

theorem fractionOf_ends {rest : List Char} (h : Ends rest) : fractionOf rest = [] := by
  unfold fractionOf
  split
  · next tail => exact absurd rfl (h '.' (by simp)).2.1
  · rfl

theorem exponentOf_ends {rest : List Char} (h : Ends rest) : exponentOf rest = [] := by
  unfold exponentOf
  split
  · next e tail =>
    obtain ⟨-, -, he, hE⟩ := h e (by simp)
    simp [he, hE]
  · rfl

theorem signOf_toDigits (n : Nat) (rest : List Char) : signOf (Nat.toDigits 10 n ++ rest) = [] := by
  obtain ⟨c, cs, hcs⟩ := List.exists_cons_of_ne_nil (Nat.toDigits_ne_nil (n := n) (b := 10))
  have digit : isDigit c = true := isDigit_toDigits (n := n) (by rw [hcs]; exact List.mem_cons_self)
  rw [hcs, List.cons_append]
  unfold signOf
  split
  · next heq =>
    rw [(List.cons.inj heq).1] at digit
    exact absurd digit (by decide)
  · rfl

/-- The number of digits of an integer. -/
def digitCount (n : Int) : Nat := (Nat.toDigits 10 n.natAbs).length

/-- The text of an integer reads back. -/
theorem number_intText {i : Interpreter} {n : Int} (fits : digitCount n ≤ i.maxDigits) {rest : List Char}
    (h : Ends rest) : number i (intText n ++ rest) = .ok (.int n, rest) := by
  have nonempty : Nat.toDigits 10 n.natAbs ≠ [] := Nat.toDigits_ne_nil
  have room : ¬ i.maxDigits < (Nat.toDigits 10 n.natAbs).length := Nat.not_lt.2 fits
  by_cases negative : n < 0
  · have sign : signOf ('-' :: (Nat.toDigits 10 n.natAbs ++ rest)) = ['-'] := rfl
    simp only [number, intText, negative, if_true, List.cons_append, sign, List.length_singleton,
      List.drop_succ_cons,
      List.drop_zero, wholeOf_toDigits _ h, nonempty, if_false, List.drop_left, fractionOf_ends h,
      List.length_nil, exponentOf_ends h, and_self, room, Nat.ofDigitChars_ten_toDigits]
    have : -(n.natAbs : Int) = n := by omega
    rw [this]
    rfl
  · simp only [number, intText, negative, if_false, signOf_toDigits, List.length_nil, List.drop_zero,
      wholeOf_toDigits _ h, nonempty, List.drop_left, fractionOf_ends h, exponentOf_ends h, and_self,
      if_true, room, Nat.ofDigitChars_ten_toDigits]
    have : (n.natAbs : Int) = n := by omega
    rw [this]

/-! ## Documents -/

mutual

/-- A document `parse` reads back within the limits of the interpreter: no floats, ascending keys,
integers and nesting within bounds. -/
def Canonical (i : Interpreter) : Nat → Json → Prop
  | _, .null => True
  | _, .bool _ => True
  | _, .int n => digitCount n ≤ i.maxDigits
  | _, .float _ => False
  | _, .str _ => True
  | 0, .arr _ => False
  | depth + 1, .arr items => CanonicalAll i depth items
  | 0, .obj _ => False
  | depth + 1, .obj items => (JsonObject.keys items).Pairwise (· < ·) ∧ CanonicalItems i depth items

def CanonicalAll (i : Interpreter) : Nat → List Json → Prop
  | _, [] => True
  | depth, v :: vs => Canonical i depth v ∧ CanonicalAll i depth vs

def CanonicalItems (i : Interpreter) : Nat → List (String × Json) → Prop
  | _, [] => True
  | depth, (_, v) :: items => Canonical i depth v ∧ CanonicalItems i depth items

end

/-- The text of a float is a value of its own, and reads back as the float. -/
structure FloatReads (o : Options) (i : Interpreter) (x : FloatVal) : Prop where
  head : ∃ c cs, (o.floatText x).toList = c :: cs ∧ isBlank c = false ∧ c ≠ ']' ∧ c ≠ '}'
  reads : ∀ fuel depth rest, Ends rest → value i (fuel + 1) depth ((o.floatText x).toList ++ rest) =
    .ok (.float x, rest)

mutual

/-- A document that is read back from its text: floats that are, distinct keys, ascending ones where
they are sorted, integers and nesting within bounds. -/
def Writable (o : Options) (i : Interpreter) : Nat → Json → Prop
  | _, .null => True
  | _, .bool _ => True
  | _, .int n => digitCount n ≤ i.maxDigits
  | _, .float x => FloatReads o i x
  | _, .str _ => True
  | 0, .arr _ => False
  | depth + 1, .arr items => WritableAll o i depth items
  | 0, .obj _ => False
  | depth + 1, .obj items =>
    ((JsonObject.keys items).Nodup ∧ (o.sortKeys = true → (JsonObject.keys items).Pairwise (· < ·))) ∧
      WritableItems o i depth items

def WritableAll (o : Options) (i : Interpreter) : Nat → List Json → Prop
  | _, [] => True
  | depth, v :: vs => Writable o i depth v ∧ WritableAll o i depth vs

def WritableItems (o : Options) (i : Interpreter) : Nat → List (String × Json) → Prop
  | _, [] => True
  | depth, (_, v) :: items => Writable o i depth v ∧ WritableItems o i depth items

end

mutual

/-- A canonical document is written and read back, however its keys are ordered. -/
theorem Canonical.writable (o : Options) {i : Interpreter} {depth : Nat} {v : Json}
    (h : Canonical i depth v) :
    Writable o i depth v := by
  match v, depth with
  | .null, _ => simp [Writable]
  | .bool _, _ => simp [Writable]
  | .int n, _ => simpa [Writable, Canonical] using h
  | .float _, _ => simp [Canonical] at h
  | .str _, _ => simp [Writable]
  | .arr _, 0 => simp [Canonical] at h
  | .arr items, depth + 1 =>
    rw [Canonical] at h
    rw [Writable]
    exact h.writable o
  | .obj _, 0 => simp [Canonical] at h
  | .obj items, depth + 1 =>
    rw [Canonical] at h
    rw [Writable]
    exact ⟨⟨h.1.imp fun {_ _} hlt => ne_of_lt hlt, fun _ => h.1⟩, h.2.writable o⟩

theorem CanonicalAll.writable (o : Options) {i : Interpreter} {depth : Nat} {vs : List Json}
    (h : CanonicalAll i depth vs) :
    WritableAll o i depth vs := by
  match vs with
  | [] => simp [WritableAll]
  | v :: vs =>
    rw [CanonicalAll] at h
    rw [WritableAll]
    exact ⟨h.1.writable o, h.2.writable o⟩

theorem CanonicalItems.writable (o : Options) {i : Interpreter} {depth : Nat} {items : List (String × Json)}
    (h : CanonicalItems i depth items) : WritableItems o i depth items := by
  match items with
  | [] => simp [WritableItems]
  | (_, v) :: items =>
    rw [CanonicalItems] at h
    rw [WritableItems]
    exact ⟨h.1.writable o, h.2.writable o⟩

end

theorem commaJoin_cons_cons (t u : List Char) (ts : List (List Char)) :
    commaJoin (t :: u :: ts) = t ++ ',' :: commaJoin (u :: ts) := rfl

theorem commaJoin_singleton (t : List Char) : commaJoin [t] = t := by simp [commaJoin]

theorem skipBlank_cons {c : Char} (h : isBlank c = false) (cs : List Char) :
    skipBlank (c :: cs) = c :: cs := by
  simp [skipBlank, h]

theorem dropLiteral_of_ne {l c : Char} (h : c ≠ l) (lit cs : List Char) :
    dropLiteral (l :: lit) (c :: cs) = none := by
  simp [dropLiteral, h]

/-- The first character of the text of an integer. -/
theorem intText_head (n : Int) : ∃ c cs, intText n = c :: cs ∧
      (isDigit c = true ∨ c = '-' ∧ ∃ d ds, cs = d :: ds ∧
    isDigit d = true) := by
  obtain ⟨c, cs, hcs⟩ := List.exists_cons_of_ne_nil (Nat.toDigits_ne_nil (n := n.natAbs) (b := 10))
  have digit : isDigit c = true := isDigit_toDigits (n := n.natAbs) (by rw [hcs]; exact List.mem_cons_self)
  by_cases negative : n < 0
  · exact ⟨'-', c :: cs, by simp [intText, negative, hcs], .inr ⟨rfl, c, cs, rfl, digit⟩⟩
  · exact ⟨c, cs, by simp [intText, negative, hcs], .inl digit⟩

theorem ne_of_isDigit {c d : Char} (hc : isDigit c = true) (hd : isDigit d = false) : c ≠ d := by
  rintro rfl
  rw [hc] at hd
  cases hd

/-- A value starts with a character that is neither blank nor a closing bracket. -/
theorem render_head (o : Options) {i : Interpreter} {depth : Nat} {v : Json} (h : Writable o i depth v) :
    ∃ c cs, render o v = c :: cs ∧ isBlank c = false ∧ c ≠ ']' ∧ c ≠ '}' := by
  cases v with
  | null => exact ⟨'n', "ull".toList, by simp [render], by decide, by decide, by decide⟩
  | bool b =>
    cases b
    · exact ⟨'f', "alse".toList, by simp [render], by decide, by decide, by decide⟩
    · exact ⟨'t', "rue".toList, by simp [render], by decide, by decide, by decide⟩
  | int n =>
    obtain ⟨c, cs, hcs, digit | ⟨rfl, -⟩⟩ := intText_head n
    · refine ⟨c, cs,
        by rw [render, hcs], ?_, ne_of_isDigit digit (by decide), ne_of_isDigit digit (by decide)⟩
      have range : 48 ≤ c.toNat ∧ c.toNat ≤ 57 := by simpa only [isDigit, decide_eq_true_eq] using digit
      simp only [isBlank, Bool.or_eq_false_iff, decide_eq_false_iff_not]
      omega
    · exact ⟨'-', cs, by rw [render, hcs], by decide, by decide, by decide⟩
  | float x =>
    obtain ⟨c, cs, hc, rest⟩ := (show FloatReads o i x by simpa [Writable] using h).head
    exact ⟨c, cs, by rw [render, hc], rest⟩
  | str s => exact ⟨quote, _, by rw [render, stringText]; rfl, by decide, by decide, by decide⟩
  | arr items => exact ⟨'[', _, by rw [render]; rfl, by decide, by decide, by decide⟩
  | obj items => exact ⟨'{', _, by rw [render]; rfl, by decide, by decide, by decide⟩

/-- A written text is read back. -/
theorem value_string (i : Interpreter) (ascii : Bool) (s : String) (fuel depth : Nat) (rest : List Char) :
    value i (fuel + 1) depth (stringText ascii s ++ rest) = .ok (.str (.ofString s), rest) := by
  simp only [stringText, List.cons_append, List.append_assoc, List.nil_append, value, if_true, stringLit_text]
  rfl

/-- A written integer is read back, if it has few enough digits. -/
theorem value_int {i : Interpreter} {n : Int} (fits : digitCount n ≤ i.maxDigits) (fuel depth : Nat)
    {rest : List Char} (h : Ends rest) :
    value i (fuel + 1) depth (intText n ++ rest) = .ok (.int n, rest) := by
  have read := number_intText fits h
  obtain ⟨c, cs, hcs, head⟩ := intText_head n
  rw [hcs, List.cons_append] at read ⊢
  have literals : c ≠ quote ∧ c ≠ '{' ∧ c ≠ '[' ∧ c ≠ 'n' ∧ c ≠ 't' ∧ c ≠ 'f' ∧ c ≠ 'N' ∧ c ≠ 'I' := by
    rcases head with digit | ⟨rfl, -⟩
    · refine ⟨?_, ?_, ?_, ?_, ?_, ?_, ?_, ?_⟩ <;> exact ne_of_isDigit digit (by decide)
    · decide
  obtain ⟨h₁, h₂, h₃, h₄, h₅, h₆, h₇, h₈⟩ := literals
  have minus : dropLiteral "-Infinity".toList (c :: (cs ++ rest)) = none := by
    rcases head with digit | ⟨rfl, d, ds, rfl, digit⟩
    · exact dropLiteral_of_ne (ne_of_isDigit digit (by decide)) "Infinity".toList _
    · have : d ≠ 'I' := ne_of_isDigit digit (by decide)
      simp [dropLiteral, this]
  simp only [value, h₁, h₂, h₃, if_false, minus,
    show dropLiteral "null".toList (c :: (cs ++ rest)) = none from dropLiteral_of_ne h₄ "ull".toList _,
    show dropLiteral "true".toList (c :: (cs ++ rest)) = none from dropLiteral_of_ne h₅ "rue".toList _,
    show dropLiteral "false".toList (c :: (cs ++ rest)) = none from dropLiteral_of_ne h₆ "alse".toList _,
    show dropLiteral "NaN".toList (c :: (cs ++ rest)) = none from dropLiteral_of_ne h₇ "aN".toList _,
    show dropLiteral "Infinity".toList (c :: (cs ++ rest)) = none
      from dropLiteral_of_ne h₈ "nfinity".toList _]
  exact read

/-- Ascending keys are sorted. -/
theorem sortItems_renderItems (o : Options) {items : List (String × Json)}
    (h : (JsonObject.keys items).Pairwise (· < ·)) :
    sortItems (renderItems o items) = renderItems o items := by
  have keys : ∀ items : List (String × Json), (renderItems o items).map Prod.fst = JsonObject.keys items := by
    intro items
    induction items with
    | nil => rfl
    | cons item items ih => simpa [renderItems, JsonObject.keys] using ih
  refine List.Pairwise.insertionSort_eq ?_
  have := (keys items) ▸ h
  exact (List.pairwise_map.1 this).imp fun {_ _} hlt => le_of_lt hlt

/-- The items of an object are written in their own order, if the keys are not sorted or ascend. -/
theorem order_renderItems (o : Options) {items : List (String × Json)}
    (h : o.sortKeys = true → (JsonObject.keys items).Pairwise (· < ·)) :
    o.order (renderItems o items) = renderItems o items := by
  unfold Options.order
  split
  · next sorted => exact sortItems_renderItems o (h sorted)
  · rfl

theorem setItem_fresh {κ α : Type} [DecidableEq κ] {d : List (κ × α)} {key : κ} {v : α}
    (h : key ∉ JsonObject.keys d) :
    setItem d key v = d ++ [(key, v)] := if_neg h

theorem ends_comma (cs : List Char) : Ends (',' :: cs) := by
  rintro c ⟨⟩
  decide

theorem ends_bracket (cs : List Char) : Ends (']' :: cs) := by
  rintro c ⟨⟩
  decide

theorem ends_brace (cs : List Char) : Ends ('}' :: cs) := by
  rintro c ⟨⟩
  decide

theorem skipBlank_quote (ascii : Bool) (s : String) (cs : List Char) :
    skipBlank (stringText ascii s ++ cs) = stringText ascii s ++ cs :=
  skipBlank_cons (by decide) _

/-- A written value does not start with a blank. -/
theorem skipBlank_render (o : Options) {i : Interpreter} {depth : Nat} {v : Json} (h : Writable o i depth v)
    (cs : List Char) : skipBlank (render o v ++ cs) = render o v ++ cs := by
  obtain ⟨c, tail, hc, blank, -, -⟩ := render_head o h
  rw [hc, List.cons_append, skipBlank_cons blank]

/-- Distinct texts are distinct strings. -/
theorem nodup_coded {items : JsonObject} (h : (JsonObject.keys items).Nodup) :
    (JsonObject.keys (Json.mapFields PyStr.ofString items)).Nodup := by
  rw [Json.keys_mapFields]
  exact h.map PyStr.ofString_injective

mutual

/-- The text of a value reads back. -/
theorem value_render (o : Options) (i : Interpreter) (v : Json) {depth fuel : Nat} {rest : List Char}
    (h : Writable o i depth v) (ends : Ends rest) (enough : 2 * (render o v).length ≤ fuel) :
    value i fuel depth (render o v ++ rest) = .ok (v.coded, rest) := by
  obtain ⟨f, rfl⟩ : ∃ f, fuel = f + 1 := by
    obtain ⟨c, cs, hc, -, -, -⟩ := render_head o h
    exact ⟨fuel - 1, by rw [hc, List.length_cons] at enough; omega⟩
  match v, depth with
  | .null, _ => rfl
  | .bool true, _ => rfl
  | .bool false, _ => rfl
  | .int n, _ => exact value_int (by simpa [Writable] using h) f _ ends
  | .float x, _ => exact (show FloatReads o i x by simpa [Writable] using h).reads f _ rest ends
  | .str s, _ => exact value_string i o.ensureAscii s f _ rest
  | .arr [], d + 1 => rfl
  | .arr (v :: vs), d + 1 =>
    have first : Writable o i d v := by
      have : WritableAll o i d (v :: vs) := h
      rw [WritableAll] at this
      exact this.1
    have body : value i (f + 1) (d + 1) (render o (.arr (v :: vs)) ++ rest) =
        elements i f d [] (commaJoin (renderAll o (v :: vs)) ++ ']' :: rest) := by
      obtain ⟨c, cs, hc, blank, bracket, -⟩ := render_head o first
      have head : ∃ tail, commaJoin (renderAll o (v :: vs)) = c :: tail := by
        cases vs with
        | nil => exact ⟨cs, by rw [renderAll, renderAll, commaJoin_singleton, hc]⟩
        | cons u us => exact ⟨_, by rw [renderAll, renderAll, commaJoin_cons_cons, hc]; rfl⟩
      obtain ⟨tail, htail⟩ := head
      simp only [render, List.cons_append, List.append_assoc, List.nil_append, htail]
      rw [value]
      simp only [show ('[' : Char) ≠ quote by decide, show ('[' : Char) ≠ '{' by decide, if_false, if_true,
        skipBlank_cons blank, bracket]
    rw [body, elements_render o i (v :: vs) [] (by simp) h (by
      simp only [render, List.length_cons, List.length_append, List.length_nil] at enough
      omega)]
    rfl
  | .obj [], d + 1 =>
    have empty : render o (.obj []) = ['{', '}'] := by
      have ascending : (JsonObject.keys ([] : JsonObject)).Pairwise (· < ·) := .nil
      rw [render, order_renderItems o fun _ => ascending]
      rfl
    rw [empty]
    rfl
  | .obj (item :: items), d + 1 =>
    have both : ((JsonObject.keys (item :: items)).Nodup ∧
      (o.sortKeys = true → (JsonObject.keys (item :: items)).Pairwise (· < ·))) ∧
        WritableItems o i d (item :: items) := h
    have body : value i (f + 1) (d + 1) (render o (.obj (item :: items)) ++ rest) =
        members i f d [] (commaJoin ((renderItems o (item :: items)).map (itemText o)) ++ '}' :: rest) := by
      have head : ∃ tail, commaJoin ((renderItems o (item :: items)).map (itemText o)) = quote :: tail := by
        obtain ⟨k, v⟩ := item
        cases items with
        | nil =>
          exact ⟨_, by rw [renderItems, renderItems, List.map_cons, List.map_nil, commaJoin_singleton]; rfl⟩
        | cons u us =>
          exact ⟨_, by rw [renderItems, renderItems, List.map_cons, List.map_cons, commaJoin_cons_cons]; rfl⟩
      obtain ⟨tail, htail⟩ := head
      simp only [render, List.cons_append, List.append_assoc, List.nil_append,
        order_renderItems o both.1.2, htail]
      rw [value]
      simp only [show ('{' : Char) ≠
        quote by decide, if_false, if_true, skipBlank_cons (show isBlank quote = false by decide),
        show quote ≠ '}' by decide]
    rw [body, members_render o i (item :: items) [] (by simp) both.2 (nodup_coded both.1.1) (by
      simp only [render, List.length_cons, List.length_append, List.length_nil,
        order_renderItems o both.1.2] at enough
      omega)]
    rfl

/-- The rest of an array reads back. -/
theorem elements_render (o : Options) (i : Interpreter) (vs : List Json) (acc : List PyJson)
    {depth fuel : Nat} {rest : List Char} (nonempty : vs ≠ []) (h : WritableAll o i depth vs)
    (enough : 2 * (commaJoin (renderAll o vs)).length + 1 ≤ fuel) :
    elements i fuel depth acc (commaJoin (renderAll o vs) ++ ']' :: rest) =
      .ok (.arr (acc ++ Json.mapItems PyStr.ofString vs), rest) := by
  obtain ⟨f, rfl⟩ : ∃ f, fuel = f + 1 := ⟨fuel - 1, by omega⟩
  match vs with
  | [v] =>
    have hv : Writable o i depth v := by
      rw [WritableAll] at h
      exact h.1
    simp only [renderAll, commaJoin_singleton] at enough ⊢
    rw [elements, value_render o i v hv (ends_bracket rest) (by omega)]
    simp [skipBlank, isBlank, Json.coded, Json.mapItems]
  | v :: u :: us =>
    have hv : Writable o i depth v ∧ WritableAll o i depth (u :: us) := by
      rw [WritableAll] at h
      exact h
    have joined : commaJoin (renderAll o (v :: u :: us)) =
        render o v ++ ',' :: commaJoin (renderAll o (u :: us)) := by
      rw [renderAll, renderAll, commaJoin_cons_cons]
    rw [joined] at enough ⊢
    simp only [List.length_append, List.length_cons] at enough
    rw [List.append_assoc, List.cons_append, elements, value_render o i v hv.1 (ends_comma _) (by omega)]
    have next : skipBlank (commaJoin (renderAll o (u :: us)) ++ ']' :: rest) =
        commaJoin (renderAll o (u :: us)) ++ ']' :: rest := by
      have hu : Writable o i depth u := by
        have := hv.2
        rw [WritableAll] at this
        exact this.1
      cases us with
      | nil => rw [renderAll, renderAll, commaJoin_singleton, skipBlank_render o hu]
      | cons w ws => rw [renderAll, renderAll, commaJoin_cons_cons, List.append_assoc, skipBlank_render o hu]
    simp only [skipBlank_cons (show isBlank ',' = false by decide), next]
    rw [elements_render o i (u :: us) (acc ++ [v.coded]) (by simp) hv.2 (by omega)]
    simp [Json.mapItems_ofString_cons]

/-- The rest of an object reads back. -/
theorem members_render (o : Options) (i : Interpreter) (items : JsonObject) (acc : JsonObject PyStr)
    {depth fuel : Nat} {rest : List Char} (nonempty : items ≠ []) (h : WritableItems o i depth items)
    (distinct : (JsonObject.keys acc ++ JsonObject.keys (Json.mapFields PyStr.ofString items)).Nodup)
    (enough : 2 * (commaJoin ((renderItems o items).map (itemText o))).length + 1 ≤ fuel) :
    members i fuel depth acc (commaJoin ((renderItems o items).map (itemText o)) ++ '}' :: rest) =
      .ok (.obj (acc ++ Json.mapFields PyStr.ofString items), rest) := by
  obtain ⟨f, rfl⟩ : ∃ f, fuel = f + 1 := ⟨fuel - 1, by omega⟩
  match items with
  | [(k, v)] =>
    have hv : Writable o i depth v := by
      rw [WritableItems] at h
      exact h.1
    have fresh : PyStr.ofString k ∉ JsonObject.keys acc := by
      intro hk
      exact List.disjoint_of_nodup_append distinct hk (by simp [Json.mapFields, JsonObject.keys])
    simp only [renderItems, List.map_cons, List.map_nil, commaJoin_singleton, itemText, stringText,
      List.cons_append,
      List.append_assoc, List.nil_append, List.length_cons, List.length_append] at enough ⊢
    rw [members]
    simp only [if_true, stringLit_text, skipBlank_cons (show isBlank ':' = false by decide),
      skipBlank_render o hv]
    rw [value_render o i v hv (ends_brace rest) (by omega)]
    simp [skipBlank, isBlank, setItem_fresh fresh, Json.coded, Json.mapFields]
  | (k, v) :: u :: us =>
    have hv : Writable o i depth v ∧ WritableItems o i depth (u :: us) := by
      rw [WritableItems] at h
      exact h
    have fresh : PyStr.ofString k ∉ JsonObject.keys acc := by
      intro hk
      exact List.disjoint_of_nodup_append distinct hk (by simp [Json.mapFields, JsonObject.keys])
    have joined : commaJoin ((renderItems o ((k, v) :: u :: us)).map (itemText o)) =
        itemText o (k, render o v) ++ ',' :: commaJoin ((renderItems o (u :: us)).map (itemText o)) := by
      obtain ⟨k', v'⟩ := u
      rw [renderItems, renderItems, List.map_cons, List.map_cons, commaJoin_cons_cons]
    rw [joined] at enough ⊢
    simp only [itemText, stringText, List.cons_append, List.append_assoc, List.nil_append, List.length_cons,
      List.length_append] at enough ⊢
    rw [members]
    simp only [if_true, stringLit_text, skipBlank_cons (show isBlank ':' = false by decide),
      skipBlank_render o hv.1]
    rw [value_render o i v hv.1 (ends_comma _) (by omega)]
    have next : skipBlank (commaJoin ((renderItems o (u :: us)).map (itemText o)) ++ '}' :: rest) =
        commaJoin ((renderItems o (u :: us)).map (itemText o)) ++ '}' :: rest := by
      obtain ⟨k', v'⟩ := u
      cases us with
      | nil =>
        rw [renderItems, renderItems, List.map_cons, List.map_nil, commaJoin_singleton, itemText,
          List.append_assoc, skipBlank_quote]
      | cons w ws =>
        obtain ⟨k'', v''⟩ := w
        rw [renderItems, renderItems, List.map_cons, List.map_cons, commaJoin_cons_cons, itemText,
          List.append_assoc, List.append_assoc, skipBlank_quote]
    simp only [skipBlank_cons (show isBlank ',' = false by decide), next]
    rw [members_render o i (u :: us) (setItem acc (PyStr.ofString k) v.coded) (by simp) hv.2 (by
      rw [setItem_fresh fresh]
      simpa [Json.mapFields_ofString_cons, JsonObject.keys] using distinct) (by omega)]
    rw [setItem_fresh fresh]
    simp [Json.mapFields_ofString_cons]

end

/-- A document of texts is what its text reads as. -/
theorem parse_written (o : Options) (i : Interpreter) {v : Json} (h : Writable o i i.maxDepth v) :
    parse i (render o v) = .ok v.coded := by
  have read : value i (2 * (render o v).length + 2) i.maxDepth (render o v ++ []) = .ok (v.coded, []) :=
    value_render o i v h (by simp [Ends]) (by omega)
  have start := skipBlank_render o h []
  rw [List.append_nil] at read start
  rw [parse, start, read]
  rfl

/-- What is written is read back, within the limits of the reader. -/
theorem parse_render (o : Options) (i : Interpreter) {v : Json} (h : Canonical i i.maxDepth v) :
    parse i (render o v) = .ok v.coded := parse_written o i (h.writable o)

end SreAgent.Base.JsonParse
