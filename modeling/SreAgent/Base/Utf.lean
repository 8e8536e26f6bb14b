import SreAgent.Base.Text

/-!
# Decoding of Unicode text

UTF-8 as CPython decodes it. Strictly, an encoded surrogate is refused, so that what is decoded is a
text. With `surrogatepass` it is let through; as a Lean character is never a surrogate, the replacement
character stands for it.
-/

namespace SreAgent.Base.Utf

/-- The character of a code point. For a surrogate, which only `surrogatepass` lets through, the
replacement character stands. -/
def charOf (n : Nat) : Char := if n < 55296 ∨ 57343 < n then Char.ofNat n else Char.ofNat 65533

/-- The payload of a continuation byte. -/
def continuation (b : UInt8) : Option Nat :=
  if 128 ≤ b.toNat ∧ b.toNat < 192 then some (b.toNat - 128) else none

/-- A code point of three bytes. -/
def threeBytes (surrogatepass : Bool) (lead c₁ c₂ : Nat) : Option Char :=
  let n := (lead - 224) * 4096 + c₁ * 64 + c₂
  if n < 2048 ∨ surrogatepass = false ∧ 55296 ≤ n ∧ n ≤ 57343 then none else some (charOf n)

/-- A code point of four bytes. -/
def fourBytes (lead c₁ c₂ c₃ : Nat) : Option Char :=
  let n := (lead - 240) * 262144 + c₁ * 4096 + c₂ * 64 + c₃
  if n < 65536 ∨ 1114111 < n then none else some (Char.ofNat n)

/-- `b.decode("utf-8")`, with `errors="surrogatepass"` or strict. -/
def decodeUtf8 (surrogatepass : Bool) : List UInt8 → Option (List Char)
  | [] => some []
  | b₀ :: tail =>
    let lead := b₀.toNat
    if lead < 128 then (decodeUtf8 surrogatepass tail).map (Char.ofNat lead :: ·)
    else
      match tail with
      | [] => none
      | b₁ :: tail =>
        if 194 ≤ lead ∧ lead < 224 then do
          let c₁ ← continuation b₁
          let rest ← decodeUtf8 surrogatepass tail
          some (Char.ofNat ((lead - 192) * 64 + c₁) :: rest)
        else
          match tail with
          | [] => none
          | b₂ :: tail =>
            if 224 ≤ lead ∧ lead < 240 then do
              let c ← threeBytes surrogatepass lead (← continuation b₁) (← continuation b₂)
              let rest ← decodeUtf8 surrogatepass tail
              some (c :: rest)
            else
              match tail with
              | [] => none
              | b₃ :: tail =>
                if 240 ≤ lead ∧ lead < 245 then do
                  let c ← fourBytes lead (← continuation b₁) (← continuation b₂) (← continuation b₃)
                  let rest ← decodeUtf8 surrogatepass tail
                  some (c :: rest)
                else none

/-! ## Encoded text decodes -/

/-- The bytes of a text are those of its characters. -/
theorem utf8_eq (s : String) : Text.utf8 s = s.toList.flatMap String.utf8EncodeChar := by
  rw [Text.utf8, String.toUTF8, ← String.utf8Encode_toList, List.utf8Encode, List.data_toByteArray]

theorem continuation_ofNat (n : Nat) : continuation (UInt8.ofNat (n % 64 + 128)) = some (n % 64) := by
  have value : (UInt8.ofNat (n % 64 + 128)).toNat = n % 64 + 128 := by
    rw [UInt8.toNat_ofNat']
    omega
  rw [continuation, value, if_pos (by omega), Nat.add_sub_cancel]

theorem charOf_toNat (c : Char) : charOf c.toNat = c := by
  have valid : c.toNat < 55296 ∨ 57343 < c.toNat ∧ c.toNat < 1114112 := c.valid
  rw [charOf, if_pos (by omega), Char.ofNat_toNat]

/-- An encoded character decodes. -/
theorem decodeUtf8_encodeChar (surrogatepass : Bool) (c : Char) (tail : List UInt8) :
    decodeUtf8 surrogatepass (String.utf8EncodeChar c ++ tail) =
      (decodeUtf8 surrogatepass tail).map (c :: ·) := by
  have valid : c.toNat < 55296 ∨ 57343 < c.toNat ∧ c.toNat < 1114112 := c.valid
  have byte : ∀ n < 256, (UInt8.ofNat n).toNat = n := by
    intro n hn
    rw [UInt8.toNat_ofNat']
    omega
  have self : c.val.toNat = c.toNat := rfl
  unfold String.utf8EncodeChar
  dsimp only
  rw [self]
  split_ifs with one two three
  · rw [List.singleton_append, decodeUtf8.eq_def]
    dsimp only
    rw [byte _ (by omega), if_pos (by omega), Char.ofNat_toNat]
  · rw [List.cons_append, List.singleton_append, decodeUtf8.eq_def]
    dsimp only
    rw [byte (c.toNat / 64 % 32 + 192) (by omega)]
    simp only [show ¬ c.toNat / 64 % 32 + 192 < 128 by omega, if_false,
      show 194 ≤ c.toNat / 64 % 32 + 192 ∧ c.toNat / 64 % 32 + 192 < 224 by omega, if_true, and_self,
      continuation_ofNat]
    have value : (c.toNat / 64 % 32 + 192 - 192) * 64 + c.toNat % 64 = c.toNat := by omega
    rw [Option.bind_eq_bind, Option.bind_some, value, Char.ofNat_toNat, Option.map_eq_bind]
    rfl
  · rw [List.cons_append, List.cons_append, List.singleton_append, decodeUtf8.eq_def]
    dsimp only
    rw [byte (c.toNat / 4096 % 16 + 224) (by omega)]
    have code : threeBytes surrogatepass (c.toNat / 4096 % 16 + 224) (c.toNat / 64 % 64) (c.toNat % 64) =
        some c := by
      have value : (c.toNat / 4096 % 16 + 224 - 224) * 4096 + c.toNat / 64 % 64 * 64 + c.toNat % 64 =
          c.toNat := by
        omega
      simp only [threeBytes, value]
      rw [if_neg (by omega), charOf_toNat]
    simp only [show ¬ c.toNat / 4096 % 16 + 224 < 128 by omega, if_false,
      show ¬ (194 ≤ c.toNat / 4096 % 16 + 224 ∧ c.toNat / 4096 % 16 + 224 < 224) by omega,
      show 224 ≤ c.toNat / 4096 % 16 + 224 ∧ c.toNat / 4096 % 16 + 224 < 240 by omega, if_true, and_self,
      continuation_ofNat]
    simp only [Option.bind_eq_bind, Option.bind_some, code, Option.map_eq_bind]
    rfl
  · rw [List.cons_append, List.cons_append, List.cons_append, List.singleton_append,
      decodeUtf8.eq_def]
    dsimp only
    rw [byte (c.toNat / 262144 % 8 + 240) (by omega)]
    have code : fourBytes (c.toNat / 262144 % 8 + 240) (c.toNat / 4096 % 64) (c.toNat / 64 % 64)
        (c.toNat % 64) = some c := by
      have value : (c.toNat / 262144 % 8 + 240 - 240) * 262144 + c.toNat / 4096 % 64 * 4096 +
          c.toNat / 64 % 64 * 64 + c.toNat % 64 = c.toNat := by omega
      simp only [fourBytes, value]
      rw [if_neg (by omega), Char.ofNat_toNat]
    simp only [show ¬ c.toNat / 262144 % 8 + 240 < 128 by omega, if_false,
      show ¬ (194 ≤ c.toNat / 262144 % 8 + 240 ∧ c.toNat / 262144 % 8 + 240 < 224) by omega,
      show ¬ (224 ≤ c.toNat / 262144 % 8 + 240 ∧ c.toNat / 262144 % 8 + 240 < 240) by omega,
      show 240 ≤ c.toNat / 262144 % 8 + 240 ∧ c.toNat / 262144 % 8 + 240 < 245 by omega, if_true, and_self,
      continuation_ofNat]
    simp only [Option.bind_eq_bind, Option.bind_some, code, Option.map_eq_bind]
    rfl

/-- Encoded text decodes to its characters. -/
theorem decodeUtf8_utf8 (surrogatepass : Bool) (s : String) :
    decodeUtf8 surrogatepass (Text.utf8 s) = some s.toList := by
  rw [utf8_eq]
  induction s.toList with
  | nil => rfl
  | cons c cs ih => rw [List.flatMap_cons, decodeUtf8_encodeChar, ih, Option.map_some]

end SreAgent.Base.Utf
