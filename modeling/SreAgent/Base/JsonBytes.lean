import SreAgent.Base.JsonLimits

/-!
# JSON from bytes

`json.loads` on bytes: the encoding is detected from a byte order mark or from the zero bytes of
the first characters, the bytes are decoded with `surrogatepass`, and the text is parsed. A surrogate
that is encoded by itself is read as the replacement character: what stands inside of strings plays no
part in whether a document is read, nor in which of its keys are names of fields. Where strings are kept,
the bytes are decoded strictly before (`Utf.decodeUtf8 false`) and their text is parsed, or another
reader has refused encoded surrogates already; an escaped surrogate is kept by `parse` in any case.
-/

namespace SreAgent.Base.JsonBytes
open Utf JsonParse

/-- The encodings `detect_encoding` tells apart. -/
inductive Encoding where
  | utf8 | utf8sig | utf16 | utf16be | utf16le | utf32 | utf32be | utf32le
  deriving DecidableEq

/-- A number of big- or little-endian bytes. -/
def ofBytes (big : Bool) (bs : List UInt8) : Nat :=
  (if big then bs else bs.reverse).foldl (fun acc b => acc * 256 + b.toNat) 0

/-- UTF-16; a surrogate that stands alone passes. -/
def decodeUtf16 (big : Bool) : List UInt8 → Option (List Char)
  | [] => some []
  | [_] => none
  | a :: b :: rest =>
    let high := ofBytes big [a, b]
    match rest with
    | c :: d :: tail =>
      let low := ofBytes big [c, d]
      if (55296 ≤ high ∧ high ≤ 56319) ∧ 56320 ≤ low ∧ low ≤ 57343 then
        (decodeUtf16 big tail).map (Char.ofNat (65536 + (high - 55296) * 1024 + (low - 56320)) :: ·)
      else (decodeUtf16 big (c :: d :: tail)).map (charOf high :: ·)
    | [c] => (decodeUtf16 big [c]).map (charOf high :: ·)
    | [] => some [charOf high]

/-- UTF-32; a surrogate passes. -/
def decodeUtf32 (big : Bool) : List UInt8 → Option (List Char)
  | [] => some []
  | a :: b :: c :: d :: rest =>
    let n := ofBytes big [a, b, c, d]
    if 1114111 < n then none else (decodeUtf32 big rest).map (charOf n :: ·)
  | _ => none

/-- `json.detect_encoding`. -/
def detectEncoding (bs : List UInt8) : Encoding :=
  if bs.take 4 = [0, 0, 254, 255] ∨ bs.take 4 = [255, 254, 0, 0] then .utf32
  else if bs.take 2 = [254, 255] ∨ bs.take 2 = [255, 254] then .utf16
  else if bs.take 3 = [239, 187, 191] then .utf8sig
  else match bs with
    | b₀ :: b₁ :: b₂ :: b₃ :: _ =>
      if b₀ = 0 then if b₁ ≠ 0 then .utf16be else .utf32be
      else if b₁ = 0 then if b₂ ≠ 0 ∨ b₃ ≠ 0 then .utf16le else .utf32le
      else .utf8
    | [b₀, b₁] => if b₀ = 0 then .utf16be else if b₁ = 0 then .utf16le else .utf8
    | _ => .utf8

/-- `bs.decode(encoding, "surrogatepass")`; `none` is a `UnicodeDecodeError`. -/
def decodeAs : Encoding → List UInt8 → Option (List Char)
  | .utf8, bs => decodeUtf8 true bs
  | .utf8sig, bs => decodeUtf8 true (bs.drop 3)
  | .utf16, bs => decodeUtf16 (bs.take 2 = [254, 255]) (bs.drop 2)
  | .utf16be, bs => decodeUtf16 true bs
  | .utf16le, bs => decodeUtf16 false bs
  | .utf32, bs => decodeUtf32 (bs.take 4 = [0, 0, 254, 255]) (bs.drop 4)
  | .utf32be, bs => decodeUtf32 true bs
  | .utf32le, bs => decodeUtf32 false bs

/-- `json.loads(bs)`; a `UnicodeDecodeError` counts as a decoding error. -/
def loads (i : Interpreter) (bs : List UInt8) : Except LoadsError PyJson :=
  match decodeAs (detectEncoding bs) bs with
  | none => .error .decode
  | some text => parse i text

/-! ## Short documents -/

/-- Decoding yields no more characters than bytes. -/
theorem decodeUtf8_length {pass : Bool} {bs : List UInt8} {text : List Char}
    (h : decodeUtf8 pass bs = some text) :
    text.length ≤ bs.length := by
  fun_induction decodeUtf8 pass bs generalizing text with
  | case1 => cases h; exact Nat.le_refl _
  | case2 =>
    rename_i ih
    obtain ⟨rest, hrest, rfl⟩ := Option.map_eq_some_iff.1 h
    exact Nat.succ_le_succ (ih hrest)
  | case4 =>
    rename_i ih
    simp only [Option.bind_eq_bind, Option.bind_eq_some_iff] at h
    obtain ⟨_, -, rest, hrest, hcons⟩ := h
    cases hcons
    exact Nat.succ_le_succ (Nat.le_succ_of_le (ih hrest))
  | case6 =>
    rename_i ih
    simp only [Option.bind_eq_bind, Option.bind_eq_some_iff] at h
    obtain ⟨_, -, _, -, _, -, rest, hrest, hcons⟩ := h
    cases hcons
    have := ih hrest
    simp only [List.length_cons]
    omega
  | case8 =>
    rename_i ih
    simp only [Option.bind_eq_bind, Option.bind_eq_some_iff] at h
    obtain ⟨_, -, _, -, _, -, _, -, rest, hrest, hcons⟩ := h
    cases hcons
    have := ih hrest
    simp only [List.length_cons]
    omega
  | _ => cases h

theorem decodeUtf16_length {big : Bool} {bs : List UInt8} {text : List Char}
    (h : decodeUtf16 big bs = some text) :
    text.length ≤ bs.length := by
  fun_induction decodeUtf16 big bs generalizing text with
  | case1 => cases h; exact Nat.le_refl _
  | case2 => cases h
  | case3 | case4 | case5 =>
    rename_i ih
    obtain ⟨rest, hrest, rfl⟩ := Option.map_eq_some_iff.1 h
    have := ih hrest
    simp only [List.length_cons] at this ⊢
    omega
  | case6 a b => cases h; simp

theorem decodeUtf32_length {big : Bool} {bs : List UInt8} {text : List Char}
    (h : decodeUtf32 big bs = some text) :
    text.length ≤ bs.length := by
  fun_induction decodeUtf32 big bs generalizing text with
  | case1 => cases h; exact Nat.le_refl _
  | case2 | case4 => cases h
  | case3 =>
    rename_i ih
    obtain ⟨cs, hcs, rfl⟩ := Option.map_eq_some_iff.1 h
    have := ih hcs
    simp only [List.length_cons]
    omega

theorem decodeAs_length {e : Encoding} {bs : List UInt8} {text : List Char} (h : decodeAs e bs = some text) :
    text.length ≤ bs.length := by
  have dropped : ∀ n, (bs.drop n).length ≤ bs.length := fun n => (List.drop_sublist n bs).length_le
  cases e with
  | utf8 => exact decodeUtf8_length h
  | utf8sig => exact (decodeUtf8_length h).trans (dropped 3)
  | utf16 => exact (decodeUtf16_length h).trans (dropped 2)
  | utf16be | utf16le => exact decodeUtf16_length h
  | utf32 => exact (decodeUtf32_length h).trans (dropped 4)
  | utf32be | utf32le => exact decodeUtf32_length h

section Loads

variable {i : Interpreter} {bs : List UInt8}

/-- An error of `loads` is a decoding error or one of the parser. -/
theorem loads_error {e : LoadsError} (h : loads i bs = .error e) :
    e = .decode ∨ ∃ text, text.length ≤ bs.length ∧ parse i text = .error e := by
  unfold loads at h
  split at h
  · cases h
    exact .inl rfl
  · next text ht => exact .inr ⟨text, decodeAs_length ht, h⟩

/-- Reading never runs out of fuel. -/
theorem loads_ne_outOfFuel (i : Interpreter) (bs : List UInt8) : loads i bs ≠ .error .outOfFuel := by
  intro h
  rcases loads_error h with h | ⟨text, -, h⟩
  · cases h
  · exact parse_ne_outOfFuel i text h

/-- A text no longer than the recursion limit does not exceed it. -/
theorem loads_shallow (short : bs.length ≤ i.maxDepth) : loads i bs ≠ .error .recursion := by
  intro h
  rcases loads_error h with h | ⟨text, hlen, h⟩
  · cases h
  · exact parse_shallow (hlen.trans short) h

/-- A text no longer than the digit limit does not exceed it. -/
theorem loads_short (short : bs.length ≤ i.maxDigits) : loads i bs ≠ .error .intTooLong := by
  intro h
  rcases loads_error h with h | ⟨text, hlen, h⟩
  · cases h
  · exact parse_short (hlen.trans short) h

end Loads

end SreAgent.Base.JsonBytes
