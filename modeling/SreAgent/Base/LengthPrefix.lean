import Mathlib

/-!
# Length-prefixed byte strings

A part is written as its length in a fixed number of big-endian bytes, then its bytes; a tuple
is the parts one after the other. A part whose length does not fit has no encoding. Reading is
unambiguous, so the encoding of a tuple determines the tuple (`encode_injective`), whatever
bytes its parts hold.
-/

namespace SreAgent.Base.LengthPrefix

/-- `n.to_bytes(width, "big")`, for `n` below `256 ^ width`. -/
def bigEndian : Nat → Nat → List UInt8
  | 0, _ => []
  | width + 1, n => bigEndian width (n / 256) ++ [UInt8.ofNat n]

/-- The value of big-endian bytes. -/
def ofBigEndian (bs : List UInt8) : Nat := bs.foldl (fun acc b => acc * 256 + b.toNat) 0

/-- A number is written in its width. -/
theorem bigEndian_length (width n : Nat) : (bigEndian width n).length = width := by
  induction width generalizing n with
  | zero => rfl
  | succ w ih => simp [bigEndian, ih]

/-- A number that fits is read back. -/
theorem ofBigEndian_bigEndian {width n : Nat} (h : n < 256 ^ width) :
    ofBigEndian (bigEndian width n) = n := by
  induction width generalizing n with
  | zero =>
    have : n = 0 := by simpa using h
    subst this
    rfl
  | succ w ih =>
    have high : n / 256 < 256 ^ w := by
      rw [Nat.div_lt_iff_lt_mul (by decide)]
      rwa [Nat.pow_succ] at h
    have step := ih high
    simp only [ofBigEndian] at step ⊢
    rw [bigEndian, List.foldl_append, step]
    simp only [List.foldl_cons, List.foldl_nil, UInt8.toNat_ofNat']
    omega

/-- One part; `none` (`OverflowError`) when its length needs more than `width` bytes. -/
def encodePart (width : Nat) (part : List UInt8) : Option (List UInt8) :=
  if part.length < 256 ^ width then some (bigEndian width part.length ++ part) else none

/-- A tuple of parts. -/
def encode (width : Nat) : List (List UInt8) → Option (List UInt8)
  | [] => some []
  | part :: rest => do
    let head ← encodePart width part
    let tail ← encode width rest
    some (head ++ tail)

variable {width : Nat}

/-- The first part of an encoding is where its length prefix says. -/
theorem encode_cons {part : List UInt8} {rest : List (List UInt8)} {out : List UInt8}
    (h : encode width (part :: rest) = some out) :
    ∃ tail, encode width rest = some tail ∧ part.length < 256 ^ width ∧
      out = bigEndian width part.length ++ (part ++ tail) := by
  obtain ⟨head, hhead, h⟩ := Option.bind_eq_some_iff.1 h
  obtain ⟨tail, htail, h⟩ := Option.bind_eq_some_iff.1 h
  simp only [encodePart] at hhead
  split at hhead
  · next fits =>
    cases hhead
    cases h
    exact ⟨tail, htail, fits, List.append_assoc ..⟩
  · cases hhead

/-- The encoding of a non-empty tuple is not empty, once lengths take a byte at least. -/
theorem encode_cons_ne_nil (positive : 0 < width) {part : List UInt8} {rest : List (List UInt8)} :
    encode width (part :: rest) ≠ some [] := by
  intro h
  obtain ⟨tail, -, -, empty⟩ := encode_cons h
  have := congrArg List.length empty
  simp only [List.length_nil, List.length_append, bigEndian_length] at this
  omega

/-- Tuples with the same encoding are the same. -/
theorem encode_injective (positive : 0 < width) {ps qs : List (List UInt8)} {out : List UInt8}
    (hp : encode width ps = some out) (hq : encode width qs = some out) : ps = qs := by
  induction ps generalizing qs out with
  | nil =>
    cases hp
    cases qs with
    | nil => rfl
    | cons q qs => exact absurd hq (encode_cons_ne_nil positive)
  | cons p ps ih =>
    cases qs with
    | nil =>
      cases hq
      exact absurd hp (encode_cons_ne_nil positive)
    | cons q qs =>
      obtain ⟨tail, htail, fits, rfl⟩ := encode_cons hp
      obtain ⟨tail', htail', fits', same⟩ := encode_cons hq
      have lengths := List.append_inj same (by rw [bigEndian_length, bigEndian_length])
      have len : p.length = q.length := by
        rw [← ofBigEndian_bigEndian fits, lengths.1, ofBigEndian_bigEndian fits']
      obtain ⟨rfl, rfl⟩ := List.append_inj lengths.2 len
      rw [ih htail htail']

end SreAgent.Base.LengthPrefix
