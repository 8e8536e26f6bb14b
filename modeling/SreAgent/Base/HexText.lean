import Mathlib
import SreAgent.Base.Text
import SreAgent.Base.Uuid

/-!
# Python's `UUID` of a text

`int(text, 16)` takes surrounding whitespace, a sign, a prefix, single underscores between digits
and the decimal digits of every script, and `UUID(text)` calls it after removing its own marks. The
canonical text of an identifier reads back (`ofText_text`).
-/

namespace SreAgent.Base.HexText

/-- Zero in every script with decimal digits (Unicode 15). -/
def zeros : List Nat :=
  [48, 1632, 1776, 1984, 2406, 2534, 2662, 2790, 2918, 3046, 3174, 3302, 3430, 3558, 3664, 3792, 3872, 4160,
    4240, 6112, 6160, 6470,
    6608, 6784, 6800, 6992, 7088, 7232, 7248, 42528, 43216, 43264, 43472, 43504, 43600, 44016, 65296, 66720,
    68912, 69734, 69872, 69942,
    70096, 70384, 70736, 70864, 71248, 71360, 71472, 71904, 72016, 72784, 73040, 73120, 73552, 92768, 92864,
    93008, 120782, 120792, 120802, 120812, 120822, 123200, 123632, 124144, 125264, 130032]

/-- `_PyUnicode_TransformDecimalAndSpaceToASCII` of a character. -/
def toAscii (c : Char) : Char :=
  if c.toNat < 127 then c
  else if Text.isSpace c = true then ' '
  else
    match zeros.find? fun first => first ≤ c.toNat ∧ c.toNat < first + 10 with
    | some first => Char.ofNat (48 + (c.toNat - first))
    | none => '?'

/-- `Py_ISSPACE`. -/
def isAsciiSpace (c : Char) : Bool := c.toNat = 32 ∨ 9 ≤ c.toNat ∧ c.toNat ≤ 13

/-- A digit of base 16, or an underscore. -/
def isBody (c : Char) : Bool := (hexValue c).isSome || c = '_'

/-- No underscore at either end, and no two side by side. -/
def wellSpaced : List Char → Bool
  | [] => false
  | ['_'] => false
  | '_' :: _ => false
  | [_] => true
  | _ :: '_' :: cs => wellSpaced cs
  | _ :: c :: cs => wellSpaced (c :: cs)

/-- The number behind a sign, with or without the prefix. -/
def magnitude (cs : List Char) : Option Nat :=
  let cs := match cs with
    | '0' :: 'x' :: '_' :: rest | '0' :: 'X' :: '_' :: rest | '0' :: 'x' :: rest | '0' :: 'X' :: rest => rest
    | cs => cs
  let body := cs.takeWhile isBody
  if wellSpaced body = true ∧ (cs.dropWhile isBody).all isAsciiSpace = true
    then some (ofHexDigits (body.filterMap hexValue)) else none

/-- `int(text, 16)`; `none` is its `ValueError`. -/
def int16 (cs : List Char) : Option Int :=
  match (cs.map toAscii).dropWhile isAsciiSpace with
  | '-' :: rest => (magnitude rest).map fun n => -(n : Int)
  | '+' :: rest => (magnitude rest).map fun n => (n : Int)
  | cs => (magnitude cs).map fun n => (n : Int)

/-- `text.replace(pattern, "")`; `skip` characters of an occurrence are still to be dropped. -/
def removeAll (pattern : List Char) (skip : Nat) : List Char → List Char
  | [] => []
  | c :: cs =>
    match skip with
    | skip + 1 => removeAll pattern skip cs
    | 0 =>
      if pattern.isPrefixOf (c :: cs) = true then removeAll pattern (pattern.length - 1) cs
        else c :: removeAll pattern 0 cs

/-- `{` and `}`. -/
def isBrace (c : Char) : Bool := c.toNat = 123 || c.toNat = 125

/-- `UUID(text)`; `none` is its `ValueError`. -/
def ofText (cs : List Char) : Option Uuid :=
  let cs := removeAll "uuid:".toList 0 (removeAll "urn:".toList 0 cs)
  let cs := ((cs.dropWhile isBrace).rdropWhile isBrace).filter (· ≠ '-')
  if cs.length = 32 then (int16 cs).bind fun n => if 0 ≤ n ∧ n < 2 ^ 128
    then some (BitVec.ofNat 128 n.toNat) else none else none

/-! ## Canonical text reads back -/

/-- What is used of a lower-case hexadecimal digit. -/
structure Plain (c : Char) : Prop where
  ascii : toAscii c = c
  noSpace : isAsciiSpace c = false
  value : (hexValue c).isSome = true
  noSign : c ≠ '-' ∧ c ≠ '+' ∧ c ≠ '_'
  noPrefix : c ≠ 'x' ∧ c ≠ 'X' ∧ c ≠ 'u'
  noBrace : isBrace c = false

/-- A hexadecimal digit is plain. -/
theorem plain_hexChar {d : Nat} (h : d < 16) : Plain (hexChar d) := by
  have all : ∀ d < 16, toAscii (hexChar d) = hexChar d ∧ isAsciiSpace (hexChar d) = false ∧
    (hexValue (hexChar d)).isSome = true ∧
      (hexChar d ≠ '-' ∧ hexChar d ≠ '+' ∧ hexChar d ≠ '_') ∧
        (hexChar d ≠ 'x' ∧ hexChar d ≠ 'X' ∧ hexChar d ≠ 'u') ∧
      isBrace (hexChar d) = false := by
    decide
  obtain ⟨ascii, noSpace, value, noSign, noPrefix, noBrace⟩ := all d h
  exact ⟨ascii, noSpace, value, noSign, noPrefix, noBrace⟩

theorem plain_hex (u : Uuid) : ∀ c ∈ u.hex, Plain c := by
  intro c hc
  obtain ⟨d, hd, rfl⟩ := List.mem_map.1 hc
  exact plain_hexChar (hexDigits_lt hd)

/-- Without underscores the digits are well spaced. -/
theorem wellSpaced_plain {cs : List Char} (ne : cs ≠ []) (clean : ∀ c ∈ cs, c ≠ '_') :
    wellSpaced cs = true := by
  induction cs using wellSpaced.induct with
  | case1 => exact absurd rfl ne
  | case2 => exact absurd rfl (clean '_' List.mem_cons_self)
  | case3 => exact absurd rfl (clean '_' List.mem_cons_self)
  | case4 => simp [wellSpaced]
  | case5 c cs =>
    exact absurd rfl (clean '_' (List.mem_cons_of_mem _ List.mem_cons_self))
  | case6 c d cs h₁ h₂ ih =>
    rw [wellSpaced]
    · exact ih (List.cons_ne_nil d cs) fun c hc => clean c (List.mem_cons_of_mem _ hc)
    · exact h₁
    · exact h₂

/-- The digits are read back from their characters. -/
theorem filterMap_hexValue {ds : List Nat} (h : ∀ d ∈ ds, d < 16) :
    (ds.map hexChar).filterMap hexValue = ds := by
  induction ds with
  | nil => rfl
  | cons d ds ih =>
    rw [List.map_cons, List.filterMap_cons_some (hexValue_hexChar (h d List.mem_cons_self)),
      ih fun e he => h e (List.mem_cons_of_mem _ he)]

/-- Nothing is taken off a text without an `x`. -/
theorem unmarked (cs : List Char) : (match cs with
    | '0' :: 'x' :: '_' :: rest | '0' :: 'X' :: '_' :: rest | '0' :: 'x' :: rest | '0' :: 'X' :: rest => rest
    | cs => cs) = cs ∨ 'x' ∈ cs ∨ 'X' ∈ cs := by
  split
  · exact .inr (.inl (List.mem_cons_of_mem _ List.mem_cons_self))
  · exact .inr (.inr (List.mem_cons_of_mem _ List.mem_cons_self))
  · exact .inr (.inl (List.mem_cons_of_mem _ List.mem_cons_self))
  · exact .inr (.inr (List.mem_cons_of_mem _ List.mem_cons_self))
  · exact .inl rfl

/-- Without an `x` the magnitude is that of the digits, with blanks behind them. -/
theorem magnitude_plain {cs : List Char} (h : ∀ c ∈ cs, c ≠ 'x' ∧ c ≠ 'X') :
    magnitude cs =
      if wellSpaced (cs.takeWhile isBody) = true ∧ (cs.dropWhile isBody).all isAsciiSpace = true then
        some (ofHexDigits ((cs.takeWhile isBody).filterMap hexValue)) else none := by
  rcases unmarked cs with same | hx | hX
  · unfold magnitude
    rw [same]
  · exact absurd rfl (h 'x' hx).1
  · exact absurd rfl (h 'X' hX).2

/-- The digits of an identifier are read. -/
theorem int16_hex (u : Uuid) : int16 u.hex = some (u.toNat : Int) := by
  have plain := plain_hex u
  have length := u.hex_length
  have ascii : u.hex.map toAscii = u.hex :=
    (List.map_congr_left fun c hc => (plain c hc).ascii).trans (List.map_id _)
  have digits : ofHexDigits (u.hex.filterMap hexValue) = u.toNat := by
    rw [Uuid.hex, filterMap_hexValue fun d hd => hexDigits_lt hd]
    exact ofHexDigits_hexDigits (by simpa using u.isLt)
  have body : u.hex.takeWhile isBody = u.hex := by
    refine List.takeWhile_eq_self_iff.2 fun c hc => ?_
    rw [isBody, (plain c hc).value, Bool.true_or]
  have rest : u.hex.dropWhile isBody = [] := by
    refine List.dropWhile_eq_nil_iff.2 fun c hc => ?_
    rw [isBody, (plain c hc).value, Bool.true_or]
  have spaced : wellSpaced u.hex = true := by
    refine wellSpaced_plain (fun nil => ?_) fun c hc => (plain c hc).noSign.2.2
    rw [nil] at length
    cases length
  have number : magnitude u.hex = some u.toNat := by
    rw [magnitude_plain fun c hc => ⟨(plain c hc).noPrefix.1, (plain c hc).noPrefix.2.1⟩, body, rest,
      if_pos ⟨spaced, rfl⟩, digits]
  have start : u.hex.dropWhile isAsciiSpace = u.hex := by
    rw [List.dropWhile_eq_self_iff]
    intro pos space
    rw [(plain _ (List.getElem_mem pos)).noSpace] at space
    cases space
  rw [int16, ascii, start]
  split
  · next rest text => exact absurd rfl (plain '-' (text ▸ List.mem_cons_self)).noSign.1
  · next rest text => exact absurd rfl (plain '+' (text ▸ List.mem_cons_self)).noSign.2.1
  · rw [number]
    rfl

/-- A pattern whose first character does not occur. -/
theorem removeAll_of_not_mem {p : Char} {pattern cs : List Char} (h : p ∉ cs) :
    removeAll (p :: pattern) 0 cs = cs := by
  induction cs with
  | nil => rfl
  | cons c cs ih =>
    have other : ¬ (p :: pattern).isPrefixOf (c :: cs) = true := by
      rw [List.isPrefixOf_cons_cons, Bool.and_eq_true, beq_iff_eq]
      rintro ⟨rfl, -⟩
      exact h List.mem_cons_self
    rw [removeAll, if_neg other, ih fun hc => h (List.mem_cons_of_mem _ hc)]

/-- The canonical text of an identifier reads back. -/
theorem ofText_text (u : Uuid) : ofText u.text.toList = some u := by
  have plain := plain_hex u
  have text : u.text.toList = Uuid.group u.hex := by rw [Uuid.text, String.toList_ofList]
  have chars : ∀ c ∈ Uuid.group u.hex, c ∈ u.hex ∨ c = '-' := by
    intro c hc
    simp only [Uuid.group, List.mem_append, List.mem_cons] at hc
    rcases hc with h | h | h | h | h | h | h | h | h
    · exact .inl (List.mem_of_mem_take h)
    · exact .inr h
    · exact .inl (List.mem_of_mem_drop (List.mem_of_mem_take h))
    · exact .inr h
    · exact .inl (List.mem_of_mem_drop (List.mem_of_mem_take h))
    · exact .inr h
    · exact .inl (List.mem_of_mem_drop (List.mem_of_mem_take h))
    · exact .inr h
    · exact .inl (List.mem_of_mem_drop h)
  have noMark : 'u' ∉ Uuid.group u.hex := by
    intro h
    rcases chars 'u' h with h | h
    · exact (plain 'u' h).noPrefix.2.2 rfl
    · cases h
  have noBrace : ∀ c ∈ Uuid.group u.hex, isBrace c = false := by
    intro c hc
    rcases chars c hc with h | rfl
    · exact (plain c h).noBrace
    · rfl
  have bare : (Uuid.group u.hex).filter (· ≠ '-') = u.hex := by
    have keep (cs : List Char) (h : ∀ c ∈ cs, c ∈ u.hex) : cs.filter (· ≠ '-') = cs :=
      List.filter_eq_self.2 fun c hc => decide_eq_true (plain c (h c hc)).noSign.1
    have taken (n m : Nat) : ∀ c ∈ (u.hex.drop n).take m, c ∈ u.hex :=
      fun c hc => List.mem_of_mem_drop (List.mem_of_mem_take hc)
    have step (n m : Nat) : (u.hex.drop n).take m ++ u.hex.drop (n + m) = u.hex.drop n := by
      rw [← List.drop_drop, List.take_append_drop]
    simp only [Uuid.group, List.filter_append, List.filter_cons, ne_eq, not_true_eq_false, decide_false,
      Bool.false_eq_true, if_false]
    rw [keep (u.hex.take 8) fun c hc => List.mem_of_mem_take hc, keep _ (taken 8 4), keep _ (taken 12 4),
      keep _ (taken 16 4),
      keep (u.hex.drop 20) fun c hc => List.mem_of_mem_drop hc, step 16 4, step 12 4, step 8 4,
      List.take_append_drop]
  have strip : ((Uuid.group u.hex).dropWhile isBrace).rdropWhile isBrace = Uuid.group u.hex := by
    have front : (Uuid.group u.hex).dropWhile isBrace = Uuid.group u.hex := by
      rw [List.dropWhile_eq_self_iff]
      intro pos brace
      rw [noBrace _ (List.getElem_mem pos)] at brace
      cases brace
    rw [front, List.rdropWhile_eq_self_iff]
    intro ne brace
    rw [noBrace _ (List.getLast_mem ne)] at brace
    cases brace
  have range : (0 : Int) ≤ u.toNat ∧ (u.toNat : Int) < 2 ^ 128 := by
    have := u.isLt
    omega
  rw [ofText, text, show "urn:".toList = 'u' :: "rn:".toList from rfl,
    show "uuid:".toList = 'u' :: "uid:".toList from rfl,
    removeAll_of_not_mem noMark, removeAll_of_not_mem noMark, strip, bare, if_pos u.hex_length, int16_hex,
    Option.bind_some, if_pos range, Int.toNat_natCast, BitVec.ofNat_toNat, BitVec.setWidth_eq]

end SreAgent.Base.HexText
