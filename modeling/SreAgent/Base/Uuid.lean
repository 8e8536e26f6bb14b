import Mathlib

/-!
# Row identifiers and their text

A UUID is a 128-bit word; `Uuid.text` is its canonical lower-case text, five groups of
hexadecimal digits joined by hyphens. `Uuid.parse` reads it back, and with it the other spellings
a validator of `UUID` accepts.
-/

namespace SreAgent

/-- A row identifier (`UUID`). -/
abbrev Uuid := BitVec 128

namespace Base

/-- The low `width` hexadecimal digits of `n`, most significant first. -/
def hexDigits (n : Nat) : Nat → List Nat
  | 0 => []
  | width + 1 => hexDigits (n / 16) width ++ [n % 16]

/-- A digit below 16 as a lower-case character. -/
def hexChar (d : Nat) : Char :=
  if d < 10 then Char.ofNat (48 + d) else Char.ofNat (87 + d)

theorem hexDigits_length (n width : Nat) : (hexDigits n width).length = width := by
  induction width generalizing n with
  | zero => rfl
  | succ w ih => simp [hexDigits, ih]

/-- Hexadecimal digits are below 16. -/
theorem hexDigits_lt {n width d : Nat} (h : d ∈ hexDigits n width) : d < 16 := by
  induction width generalizing n with
  | zero => simp [hexDigits] at h
  | succ w ih =>
    rcases List.mem_append.1 h with h | h
    · exact ih h
    · have : d = n % 16 := by simpa using h
      omega

/-- The number written by hexadecimal digits. -/
def ofHexDigits (ds : List Nat) : Nat := ds.foldl (fun acc d => acc * 16 + d) 0

/-- A number that fits is read back. -/
theorem ofHexDigits_hexDigits {n width : Nat} (h : n < 16 ^ width) : ofHexDigits (hexDigits n width) = n := by
  induction width generalizing n with
  | zero =>
    have : n = 0 := by simpa using h
    subst this
    rfl
  | succ w ih =>
    have high : n / 16 < 16 ^ w := by
      rw [Nat.div_lt_iff_lt_mul (by decide)]
      rwa [Nat.pow_succ] at h
    have step := ih high
    simp only [ofHexDigits] at step ⊢
    rw [hexDigits, List.foldl_append, step]
    simp only [List.foldl_cons, List.foldl_nil]
    omega

/-- The value of a hexadecimal character of either case. -/
def hexValue (c : Char) : Option Nat :=
  let n := c.toNat
  if 48 ≤ n ∧ n ≤ 57 then some (n - 48)
  else if 97 ≤ n ∧ n ≤ 102 then some (n - 87)
  else if 65 ≤ n ∧ n ≤ 70 then some (n - 55)
  else none

/-- A digit is read back from its character. -/
theorem hexValue_hexChar {d : Nat} (h : d < 16) : hexValue (hexChar d) = some d := by
  have all : ∀ d < 16, hexValue (hexChar d) = some d := by decide
  exact all d h

/-- The number written by hexadecimal characters. -/
def parseHex (cs : List Char) : Option Nat := (cs.mapM hexValue).map ofHexDigits

theorem mapM_hexValue {ds : List Nat} (h : ∀ d ∈ ds, d < 16) : (ds.map hexChar).mapM hexValue = some ds := by
  induction ds with
  | nil => rfl
  | cons d ds ih =>
    rw [List.map_cons, List.mapM_cons, hexValue_hexChar (h d List.mem_cons_self),
      ih fun e he => h e (List.mem_cons_of_mem _ he)]
    rfl

end Base

namespace Uuid
open Base

/-- The 32 hexadecimal characters of an identifier. -/
def hex (u : Uuid) : List Char := (hexDigits u.toNat 32).map hexChar

/-- Five groups joined by hyphens. -/
def group (cs : List Char) : List Char :=
  cs.take 8 ++ '-' :: ((cs.drop 8).take 4 ++ '-' :: ((cs.drop 12).take 4 ++ '-' :: ((cs.drop 16).take 4 ++
    '-' :: cs.drop 20)))

/-- `str(uuid)`. -/
def text (u : Uuid) : String := String.ofList (group u.hex)

/-- The characters of hyphenated text without its hyphens. -/
def ungroup (cs : List Char) : List Char :=
  cs.take 8 ++ (cs.drop 9).take 4 ++ (cs.drop 14).take 4 ++ (cs.drop 19).take 4 ++ cs.drop 24

/-- `UUID(text)`: 32 digits, bare or in five groups, the latter also in braces or as a URN. -/
def parse (s : String) : Option Uuid :=
  let cs := s.toList
  let digits : Option (List Char) :=
    if cs.length = 32 then some cs
    else
      let inner :=
        if cs.length = 38 ∧ cs.head? = some (Char.ofNat 123) ∧ cs.getLast? = some (Char.ofNat 125) then
          (cs.drop 1).dropLast
        else if cs.length = 45 ∧ cs.take 9 = "urn:uuid:".toList then cs.drop 9
        else cs
      if inner.length = 36 ∧ inner = group (ungroup inner) then some (ungroup inner) else none
  digits.bind fun ds => (parseHex ds).map (BitVec.ofNat 128)

theorem hex_length (u : Uuid) : u.hex.length = 32 := by simp [hex, hexDigits_length]

/-- Grouping adds the four dashes. -/
theorem group_length {cs : List Char} (h : cs.length = 32) : (group cs).length = 36 := by
  simp [group, h]

/-- A list with hyphens put in after its first `n` characters reads back on either side. -/
theorem ungroup_group {cs : List Char} (h : cs.length = 32) : ungroup (group cs) = cs := by
  obtain ⟨a, rest, rfl, ha⟩ : ∃ a rest, cs = a ++ rest ∧ a.length = 8 :=
    ⟨cs.take 8, cs.drop 8, (List.take_append_drop ..).symm, by simp [h]⟩
  obtain ⟨b, rest, rfl, hb⟩ : ∃ b rest', rest = b ++ rest' ∧ b.length = 4 :=
    ⟨rest.take 4, rest.drop 4, (List.take_append_drop ..).symm, by simp at h; simp; omega⟩
  obtain ⟨c, rest, rfl, hc⟩ : ∃ c rest', rest = c ++ rest' ∧ c.length = 4 :=
    ⟨rest.take 4, rest.drop 4, (List.take_append_drop ..).symm, by simp at h; simp; omega⟩
  obtain ⟨d, e, rfl, hd⟩ : ∃ d e, rest = d ++ e ∧ d.length = 4 :=
    ⟨rest.take 4, rest.drop 4, (List.take_append_drop ..).symm, by simp at h; simp; omega⟩
  simp [group, ungroup, List.drop_append, List.drop_eq_nil_of_le, ha, hb, hc, hd]

/-- The text of an identifier reads back. -/
theorem parse_text (u : Uuid) : parse u.text = some u := by
  have len := hex_length u
  have grouped := group_length len
  have digits : parseHex u.hex = some u.toNat := by
    rw [parseHex, hex, mapM_hexValue fun d hd => hexDigits_lt hd]
    simp only [Option.map_some, Option.some.injEq]
    exact ofHexDigits_hexDigits (by simpa using u.isLt)
  simp only [parse, text, String.toList_ofList, grouped]
  simp [ungroup_group len, grouped, digits]

/-- A UUID is determined by its text. -/
theorem text_injective {u v : Uuid} (h : u.text = v.text) : u = v := by
  have := congrArg parse h
  rw [parse_text, parse_text] at this
  exact Option.some.inj this

end Uuid

end SreAgent
