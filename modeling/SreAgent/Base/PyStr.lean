import SreAgent.Base.Options

/-!
# Strings of Python

A string of Python is any sequence of code points, surrogates that stand alone among them. One that
has a surrogate is no text: it has no encoding, so that it can neither be sent to the database nor
pass as a validated text.
-/

namespace SreAgent.Base

/-- A code point. -/
abbrev CodePoint := Fin 1114112

namespace CodePoint

/-- No character is a surrogate. -/
theorem toNat_scalar (c : Char) : c.toNat < 55296 ∨ 57343 < c.toNat ∧ c.toNat < 1114112 := c.valid

theorem toNat_lt (c : Char) : c.toNat < 1114112 := by
  have := toNat_scalar c
  omega

/-- `chr(n)`, where there is such a code point. -/
def ofNat (n : Nat) : CodePoint := Fin.ofNat 1114112 n

theorem val_ofNat {n : Nat} (lt : n < 1114112) : (ofNat n).val = n := Nat.mod_eq_of_lt lt

/-- The code point of a character. -/
def ofChar (c : Char) : CodePoint := ⟨c.toNat, toNat_lt c⟩

/-- The character of a code point, which a surrogate has not. -/
def char? (p : CodePoint) : Option Char :=
  if p.val < 55296 ∨ 57343 < p.val then some (Char.ofNat p.val) else none

/-- The code point of a character is that character. -/
theorem char?_ofChar (c : Char) : char? (ofChar c) = some c := by
  have scalar : c.toNat < 55296 ∨ 57343 < c.toNat := (toNat_scalar c).imp_right And.left
  rw [char?, ofChar, if_pos scalar, Char.ofNat_toNat]

theorem toNat_ofNat {n : Nat} (scalar : n < 55296 ∨ 57343 < n) (lt : n < 1114112) :
    (Char.ofNat n).toNat = n := by
  have valid : n.isValidChar := scalar.imp_right fun h => ⟨h, lt⟩
  rw [Char.ofNat, dif_pos valid]
  exact Char.toNat_ofNatAux valid

/-- A code point is a character exactly if it is the one of that character. -/
theorem char?_eq_some {p : CodePoint} {c : Char} : char? p = some c ↔ p = ofChar c := by
  constructor
  · intro h
    unfold char? at h
    split at h
    · next scalar =>
      cases h
      exact Fin.ext (toNat_ofNat scalar p.isLt).symm
    · cases h
  · rintro rfl
    exact char?_ofChar c

theorem ofChar_injective : Function.Injective ofChar := by
  intro c d same
  have := char?_ofChar c
  rw [same, char?_ofChar] at this
  exact (Option.some.inj this).symm

/-- The code point of a character, by its number. -/
theorem ofNat_toNat (c : Char) : ofNat c.toNat = ofChar c := Fin.ext (val_ofNat (toNat_lt c))

theorem ofChar_lt {c d : Char} : ofChar c < ofChar d ↔ c < d := Iff.rfl

end CodePoint

/-- A string of Python. -/
structure PyStr where
  codes : List CodePoint
  deriving DecidableEq

namespace PyStr

/-- A text as a string. -/
def ofString (s : String) : PyStr := ⟨s.toList.map .ofChar⟩

/-- The text of a string, if it has one. -/
def text? (s : PyStr) : Option String := (s.codes.mapM CodePoint.char?).map String.ofList

/-- The text of a string, with the replacement character for every surrogate. -/
def shown (s : PyStr) : String :=
  String.ofList (s.codes.map fun p => p.char?.getD (Char.ofNat 65533))

theorem mapM_char? (cs : List Char) : (cs.map CodePoint.ofChar).mapM CodePoint.char? = some cs := by
  induction cs with
  | nil => rfl
  | cons c cs ih => simp [List.mapM_cons, CodePoint.char?_ofChar, ih]

theorem mapM_char?_eq_some {codes : List CodePoint} {cs : List Char} :
    codes.mapM CodePoint.char? = some cs ↔ codes = cs.map CodePoint.ofChar := by
  constructor
  · intro h
    induction codes generalizing cs with
    | nil =>
      cases h
      rfl
    | cons p codes ih =>
      rw [List.mapM_cons, Option.bind_eq_bind, Option.bind_eq_some_iff] at h
      obtain ⟨c, hc, rest⟩ := h
      rw [Option.bind_eq_bind, Option.bind_eq_some_iff] at rest
      obtain ⟨tail, htail, same⟩ := rest
      cases same
      rw [List.map_cons, CodePoint.char?_eq_some.1 hc, ih htail]
  · rintro rfl
    exact mapM_char? cs

theorem text?_ofString (s : String) : (ofString s).text? = some s := by
  rw [text?, ofString, mapM_char?, Option.map_some, String.ofList_toList]

/-- Code points are a text exactly if they are those of that text. -/
theorem text?_eq_some {s : PyStr} {t : String} : s.text? = some t ↔ s = ofString t := by
  constructor
  · intro h
    obtain ⟨cs, hcs, rfl⟩ := Option.map_eq_some_iff.1 h
    have codes := mapM_char?_eq_some.1 hcs
    cases s
    rw [ofString, String.toList_ofList, ← codes]
  · rintro rfl
    exact text?_ofString t

theorem codes_of_text? {s : PyStr} {t : String} (h : s.text? = some t) : s.codes = t.toList.map .ofChar :=
  congrArg codes (text?_eq_some.1 h)

/-- A string is a text if no code point of it is a surrogate. -/
theorem exists_text? {s : PyStr} (scalar : ∀ p ∈ s.codes, p.char?.isSome = true) : ∃ t, s.text? = some t := by
  obtain ⟨cs, found⟩ := mapM_isSome scalar
  exact ⟨String.ofList cs, by rw [text?, found, Option.map_some]⟩

/-- A text is determined by its code points. -/
theorem ofString_injective : Function.Injective ofString := by
  intro s t same
  have := text?_ofString s
  rw [same, text?_ofString] at this
  exact (Option.some.inj this).symm

/-- Texts are ordered as their code points are. -/
theorem map_ofChar_lt {cs ds : List Char} : cs.map CodePoint.ofChar < ds.map CodePoint.ofChar ↔ cs < ds := by
  induction cs generalizing ds with
  | nil => cases ds <;> simp
  | cons c cs ih =>
    cases ds with
    | nil => simp
    | cons d ds =>
      simp only [List.map_cons, List.cons_lt_cons_iff, CodePoint.ofChar_lt,
        CodePoint.ofChar_injective.eq_iff, ih]

/-- Texts are ordered as strings. -/
theorem ofString_le {s t : String} : (ofString s).codes ≤ (ofString t).codes ↔ s ≤ t := by
  rw [← not_lt, ← not_lt]
  exact not_congr (@map_ofChar_lt t.toList s.toList)

end PyStr

end SreAgent.Base
