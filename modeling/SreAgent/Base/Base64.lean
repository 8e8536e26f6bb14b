import Mathlib

/-!
# Base64 with the URL-safe alphabet

`urlsafe_b64decode` of text that holds characters of the alphabet only and is padded to whole
groups: what the last group leaves over of a byte is dropped. `a2b` is the decoder for any text,
with its errors; it reads back what `urlsafeB64encode` writes (`a2b_encoded`).
-/

namespace SreAgent.Base.Base64

/-- The value of a character of the alphabet. -/
def digit (c : Char) : Option Nat :=
  let n := c.toNat
  if 65 ≤ n ∧ n ≤ 90 then some (n - 65)
  else if 97 ≤ n ∧ n ≤ 122 then some (n - 71)
  else if 48 ≤ n ∧ n ≤ 57 then some (n + 4)
  else if n = 45 then some 62
  else if n = 95 then some 63
  else none

/-- `^[A-Za-z0-9_-]+$`. -/
def isPart (cs : List Char) : Bool := cs ≠ [] && cs.all fun c => (digit c).isSome

/-- A part of a token is a nonempty run of digits. -/
theorem isPart_iff {cs : List Char} : isPart cs = true ↔ cs ≠ [] ∧ ∀ c ∈ cs, (digit c).isSome = true := by
  simp [isPart]

/-- The bytes of groups of four digits. -/
def bytes : List Nat → List UInt8
  | a :: b :: c :: d :: rest =>
    UInt8.ofNat (a * 4 + b / 16) :: UInt8.ofNat (b % 16 * 16 + c / 4) :: UInt8.ofNat (c % 4 * 64 + d) ::
      bytes rest
  | [a, b, c] => [UInt8.ofNat (a * 4 + b / 16), UInt8.ofNat (b % 16 * 16 + c / 4)]
  | [a, b] => [UInt8.ofNat (a * 4 + b / 16)]
  | _ => []

/-- `urlsafe_b64decode` of padded text; other characters are discarded. -/
def decode (cs : List Char) : List UInt8 := bytes (cs.filterMap digit)

/-- Decoding yields no more bytes than there are digits. -/
theorem bytes_length (ds : List Nat) : (bytes ds).length ≤ ds.length := by
  induction ds using bytes.induct with
  | case1 a b c d rest ih =>
    simp only [bytes, List.length_cons]
    omega
  | case2 | case3 => simp [bytes]
  | case4 ds h₁ h₂ h₃ =>
    rw [bytes]
    · exact Nat.zero_le _
    · exact h₁
    · exact h₂
    · exact h₃

/-- Decoding never lengthens. -/
theorem decode_length (cs : List Char) : (decode cs).length ≤ cs.length :=
  Nat.le_trans (bytes_length _) (List.length_filterMap_le _ _)

/-! ## Encoding -/

/-- A character of the alphabet. -/
def char (d : Nat) : Char :=
  if d < 26 then Char.ofNat (65 + d)
  else if d < 52 then Char.ofNat (71 + d)
  else if d < 62 then Char.ofNat (d - 4)
  else if d = 62 then '-'
  else '_'

/-- The digits of groups of three bytes. -/
def digits : List UInt8 → List Nat
  | a :: b :: c :: rest =>
    a.toNat / 4 :: (a.toNat % 4 * 16 + b.toNat / 16) :: (b.toNat % 16 * 4 + c.toNat / 64) ::
      (c.toNat % 64) :: digits rest
  | [a, b] => [a.toNat / 4, a.toNat % 4 * 16 + b.toNat / 16, b.toNat % 16 * 4]
  | [a] => [a.toNat / 4, a.toNat % 4 * 16]
  | [] => []

/-- `-n % 4`. -/
def padding (n : Nat) : Nat := (4 - n % 4) % 4

/-- `urlsafe_b64encode`. -/
def urlsafeB64encode (bs : List UInt8) : List Char :=
  let cs := (digits bs).map char
  cs ++ List.replicate (padding cs.length) '='

/-- The value of a character after the translation of the URL-safe alphabet. -/
def value (c : Char) : Option Nat := if c = '+' then some 62 else if c = '/' then some 63 else digit c

/-- `binascii.a2b_base64`, not strict: characters of no value are discarded, and input ends where the
padding of a group is complete. `place` is the position in the group and `left` what is left over of
the last digit; `none` is `binascii.Error`. -/
def a2b (place left pads : Nat) : List Char → Option (List UInt8)
  | [] => if place = 0 then some [] else none
  | c :: cs =>
    if c = '=' then
      if 2 ≤ place then if 4 ≤ place + (pads + 1) then some [] else a2b place left (pads + 1) cs
        else a2b place left pads cs
    else
      match value c with
      | none => a2b place left pads cs
      | some v =>
        match place with
        | 0 => a2b 1 v 0 cs
        | 1 => (a2b 2 (v % 16) 0 cs).map (UInt8.ofNat (left * 4 + v / 16) :: ·)
        | 2 => (a2b 3 (v % 4) 0 cs).map (UInt8.ofNat (left * 16 + v / 4) :: ·)
        | _ => (a2b 0 0 0 cs).map (UInt8.ofNat (left * 64 + v) :: ·)

/-! ## Decoding reads back -/

/-- A digit is read back from its character, which is no padding. -/
theorem value_char {d : Nat} (h : d < 64) : value (char d) = some d ∧ char d ≠ '=' := by
  have all : ∀ d < 64, value (char d) = some d ∧ char d ≠ '=' := by decide
  exact all d h

section Step

variable (left pads : Nat) {d : Nat} (h : d < 64) (cs : List Char)

include h

theorem a2b_first : a2b 0 left pads (char d :: cs) = a2b 1 d 0 cs := by
  rw [a2b, if_neg (value_char h).2, (value_char h).1]
  rfl

/-- The second digit of a group completes a byte. -/
theorem a2b_second :
    a2b 1 left pads (char d :: cs) = (a2b 2 (d % 16) 0 cs).map (UInt8.ofNat (left * 4 + d / 16) :: ·) := by
  rw [a2b, if_neg (value_char h).2, (value_char h).1]
  rfl

theorem a2b_third :
    a2b 2 left pads (char d :: cs) = (a2b 3 (d % 4) 0 cs).map (UInt8.ofNat (left * 16 + d / 4) :: ·) := by
  rw [a2b, if_neg (value_char h).2, (value_char h).1]
  rfl

/-- The fourth digit of a group completes a byte, and the group. -/
theorem a2b_fourth :
    a2b 3 left pads (char d :: cs) = (a2b 0 0 0 cs).map (UInt8.ofNat (left * 64 + d) :: ·) := by
  rw [a2b, if_neg (value_char h).2, (value_char h).1]
  rfl

end Step

theorem byte_of (b : UInt8) {n : Nat} (h : n = b.toNat) : UInt8.ofNat n = b := by
  rw [h]
  exact UInt8.ofNat_toNat

/-- What is encoded decodes, with its padding. -/
theorem a2b_encoded (bs : List UInt8) :
    a2b 0 0 0 ((digits bs).map char ++ List.replicate (padding ((digits bs).map char).length) '=') =
      some bs := by
  induction bs using digits.induct with
  | case1 a b c rest ih =>
    have ha := a.toNat_lt
    have hb := b.toNat_lt
    have hc := c.toNat_lt
    have pad : padding ((digits (a :: b :: c :: rest)).map char).length =
        padding ((digits rest).map char).length := by
      simp only [digits, List.map_cons, List.length_cons, padding]
      omega
    rw [pad]
    simp only [digits, List.map_cons, List.cons_append]
    rw [a2b_first _ _ (by omega), a2b_second _ _ (by omega), a2b_third _ _ (by omega),
      a2b_fourth _ _ (by omega), ih]
    simp only [Option.map_some]
    rw [byte_of a (by omega), byte_of b (by omega), byte_of c (by omega)]
  | case2 a b =>
    have ha := a.toNat_lt
    have hb := b.toNat_lt
    simp only [digits, List.map_cons, List.map_nil, List.cons_append, List.nil_append, List.length_cons,
      List.length_nil]
    rw [a2b_first _ _ (by omega), a2b_second _ _ (by omega), a2b_third _ _ (by omega),
      byte_of a (by omega), byte_of b (by omega)]
    rfl
  | case3 a =>
    have ha := a.toNat_lt
    simp only [digits, List.map_cons, List.map_nil, List.cons_append, List.nil_append, List.length_cons,
      List.length_nil]
    rw [a2b_first _ _ (by omega), a2b_second _ _ (by omega), byte_of a (by omega)]
    rfl
  | case4 => rfl

theorem digits_lt {bs : List UInt8} {d : Nat} (h : d ∈ digits bs) : d < 64 := by
  induction bs using digits.induct with
  | case1 a b c rest ih =>
    have ha := a.toNat_lt
    have hb := b.toNat_lt
    have hc := c.toNat_lt
    simp only [digits, List.mem_cons] at h
    rcases h with rfl | rfl | rfl | rfl | h
    · omega
    · omega
    · omega
    · omega
    · exact ih h
  | case2 a b =>
    have ha := a.toNat_lt
    have hb := b.toNat_lt
    simp only [digits, List.mem_cons, List.not_mem_nil, or_false] at h
    omega
  | case3 a =>
    have ha := a.toNat_lt
    simp only [digits, List.mem_cons, List.not_mem_nil, or_false] at h
    omega
  | case4 => cases h

/-- Stripping the padding leaves the digits. -/
theorem rstrip_encoded (bs : List UInt8) :
    (urlsafeB64encode bs).rdropWhile (· = '=') = (digits bs).map char := by
  have clean : ∀ c ∈ (digits bs).map char, c ≠ '=' := by
    intro c hc
    obtain ⟨d, hd, rfl⟩ := List.mem_map.1 hc
    exact (value_char (digits_lt hd)).2
  rw [urlsafeB64encode, List.rdropWhile, List.reverse_append, List.reverse_replicate,
    List.dropWhile_append_of_pos fun c hc => decide_eq_true (List.eq_of_mem_replicate hc)]
  rw [List.dropWhile_eq_self_iff.2, List.reverse_reverse]
  intro pos
  have mem := List.mem_reverse.1 (List.getElem_mem pos)
  simpa using clean _ mem

end SreAgent.Base.Base64
