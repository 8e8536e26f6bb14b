import SreAgent.Base.Base64
import SreAgent.Base.Datetime
import SreAgent.Base.HexText
import SreAgent.Base.Utf
import SreAgent.Operator.Identity

/-!
# Pagination cursors

A cursor is the text of a datetime and of an identifier, joined by a bar, in URL-safe base64 without
padding. What `encodeCursor` writes is read back, if the offset of the datetime is zero or a second at
least (`decodeCursor_encodeCursor_iff`); every other text is read as well or raises
`OperatorCursorInvalid`.
-/

namespace SreAgent.Operator
open Base Iso

/-- The exceptions a cursor is read under. -/
inductive PythonError where
  | base64Error
  | valueError
  | unicodeDecodeError
  deriving DecidableEq

/-- `_encode_cursor`. -/
def encodeCursor (timestamp : AwareDatetime) (resourceId : Uuid) : String :=
  let value := Text.utf8 (timestamp.isoformat ++ "|" ++ resourceId.text)
  String.ofList ((Base64.urlsafeB64encode value).rdropWhile (· = '='))

/-- `urlsafe_b64decode` of text. -/
def urlsafeB64decode (cs : List Char) : Except PythonError (List UInt8) :=
  if cs.any fun c => 128 ≤ c.toNat then .error .valueError
  else match Base64.a2b 0 0 0 cs with
    | none => .error .base64Error
    | some bytes => .ok bytes

/-- `text.rsplit("|", 1)` into two parts; with one part the assignment raises. -/
def splitLast (cs : List Char) : Except PythonError (List Char × List Char) :=
  match cs.reverse.dropWhile (· ≠ '|') with
  | [] => .error .valueError
  | _ :: front => .ok (front.reverse, (cs.reverse.takeWhile (· ≠ '|')).reverse)

/-- The body of `_decode_cursor` under its `try`. -/
def readCursor (cursor : String) : Except PythonError (AwareDatetime × Uuid) := do
  let padding := List.replicate (Base64.padding cursor.toList.length) '='
  let bytes ← urlsafeB64decode (cursor.toList ++ padding)
  let decoded ← match Utf.decodeUtf8 false bytes with
    | none => .error .unicodeDecodeError
    | some decoded => .ok decoded
  let (timestamp, resourceId) ← splitLast decoded
  match fromisoformat timestamp with
  | none | some (.naive _) => .error .valueError
  | some (.aware timestamp) =>
    match HexText.ofText resourceId with
    | none => .error .valueError
    | some resourceId => .ok (timestamp, resourceId)

/-- `_decode_cursor`. -/
def decodeCursor : Option String → Except OperatorError (Option (AwareDatetime × Uuid))
  | none => .ok none
  | some cursor =>
    match readCursor cursor with
    | .ok position => .ok (some position)
    | .error .base64Error | .error .valueError | .error .unicodeDecodeError => .error .cursorInvalid

/-! ## Cursors read back -/

/-- The last separator is found. -/
theorem splitLast_append {front back : List Char} (h : '|' ∉ back) :
    splitLast (front ++ '|' :: back) = .ok (front, back) := by
  have other : ∀ c ∈ back.reverse, (decide (c ≠ '|')) = true := by
    intro c hc
    refine decide_eq_true ?_
    rintro rfl
    exact h (List.mem_reverse.1 hc)
  have reversed : (front ++ '|' :: back).reverse = back.reverse ++ '|' :: front.reverse := by simp
  rw [splitLast, reversed, List.dropWhile_append_of_pos other, List.takeWhile_append_of_pos other]
  simp

/-- The canonical text of an identifier holds no bar. -/
theorem bar_not_mem_text (u : Uuid) : '|' ∉ u.text.toList := by
  rw [Uuid.text, String.toList_ofList]
  intro h
  have digit : '|' ∉ u.hex := by
    intro h
    obtain ⟨d, hd, same⟩ := List.mem_map.1 h
    have all : ∀ d < 16, hexChar d ≠ '|' := by decide
    exact all d (hexDigits_lt hd) same
  simp only [Uuid.group, List.mem_append, List.mem_cons, Char.reduceEq, false_or] at h
  rcases h with h | h | h | h | h
  · exact digit (List.mem_of_mem_take h)
  · exact digit (List.mem_of_mem_drop (List.mem_of_mem_take h))
  · exact digit (List.mem_of_mem_drop (List.mem_of_mem_take h))
  · exact digit (List.mem_of_mem_drop (List.mem_of_mem_take h))
  · exact digit (List.mem_of_mem_drop h)

/-- What is encoded decodes once its padding is put back. -/
theorem urlsafeB64decode_encoded (bytes : List UInt8) :
    urlsafeB64decode ((Base64.digits bytes).map Base64.char ++
    List.replicate (Base64.padding ((Base64.digits bytes).map Base64.char).length) '=') = .ok bytes := by
  have ascii : ∀ d < 64, ¬ 128 ≤ (Base64.char d).toNat := by decide
  have none_ : ¬ ((Base64.digits bytes).map Base64.char ++
      List.replicate (Base64.padding ((Base64.digits bytes).map Base64.char).length) '=').any
        (fun c => 128 ≤ c.toNat) = true := by
    rw [List.any_eq_true]
    rintro ⟨c, hc, high⟩
    rw [decide_eq_true_eq] at high
    rcases List.mem_append.1 hc with hc | hc
    · obtain ⟨d, hd, rfl⟩ := List.mem_map.1 hc
      exact ascii d (Base64.digits_lt hd) high
    · rw [List.eq_of_mem_replicate hc] at high
      exact absurd high (by decide)
  rw [urlsafeB64decode, if_neg none_, Base64.a2b_encoded]

/-- The five readings, one after the other. -/
theorem readCursor_of {cursor : String} {bytes : List UInt8} {decoded front back : List Char}
    {timestamp : AwareDatetime} {resourceId : Uuid}
    (base64 : urlsafeB64decode (cursor.toList ++ List.replicate (Base64.padding cursor.toList.length) '=') =
      .ok bytes) (utf8 : Utf.decodeUtf8 false bytes = some decoded)
    (parts : splitLast decoded = .ok (front, back)) (time : fromisoformat front = some (.aware timestamp))
    (id : HexText.ofText back = some resourceId) :
    readCursor cursor = .ok (timestamp, resourceId) := by
  simp only [readCursor, base64, utf8, parts, time, id, bind, Except.bind]

/-- A cursor reads back as the datetime that its text reads as. -/
theorem decodeCursor_encodeCursor (timestamp : AwareDatetime) (resourceId : Uuid) :
    decodeCursor (some (encodeCursor timestamp resourceId)) = .ok (some (timestamp.reread, resourceId)) := by
  have text : (encodeCursor timestamp resourceId).toList =
      (Base64.digits (Text.utf8 (timestamp.isoformat ++ "|" ++ resourceId.text))).map Base64.char := by
    rw [encodeCursor, String.toList_ofList, Base64.rstrip_encoded]
  have parts : (timestamp.isoformat ++ "|" ++ resourceId.text).toList = timestamp.isoformat.toList ++
      '|' :: resourceId.text.toList := by
    simp
  have position : readCursor (encodeCursor timestamp resourceId) = .ok (timestamp.reread, resourceId) := by
    refine readCursor_of ?_ (Utf.decodeUtf8_utf8 false (timestamp.isoformat ++ "|" ++ resourceId.text)) ?_
      (fromisoformat_isoformat timestamp) (HexText.ofText_text resourceId)
    · rw [text]
      exact urlsafeB64decode_encoded _
    · rw [parts]
      exact splitLast_append (bar_not_mem_text resourceId)
  rw [decodeCursor, position]

/-- A cursor gives back its datetime and its identifier exactly if the offset is zero, or a second at
least. -/
theorem decodeCursor_encodeCursor_iff (timestamp : AwareDatetime) (resourceId : Uuid) :
    decodeCursor (some (encodeCursor timestamp resourceId)) = .ok (some (timestamp, resourceId)) ↔
      timestamp.offset = 0 ∨ 1000000 ≤ timestamp.offset.natAbs := by
  rw [decodeCursor_encodeCursor, ← AwareDatetime.reread_eq_self]
  simp only [Except.ok.injEq, Option.some.injEq, Prod.mk.injEq, and_true]

/-- The cursor of an instant in UTC reads back. -/
theorem decodeCursor_utc (instant : Instant) (resourceId : Uuid) :
    decodeCursor (some (encodeCursor (.utc instant) resourceId)) = .ok (some (.utc instant, resourceId)) :=
  (decodeCursor_encodeCursor_iff _ resourceId).2 (.inl rfl)

/-- Any text is read, or raises `OperatorCursorInvalid`. -/
theorem decodeCursor_total (cursor : String) :
    (∃ position, decodeCursor (some cursor) = .ok (some position)) ∨
      decodeCursor (some cursor) = .error .cursorInvalid := by
  rw [decodeCursor]
  match readCursor cursor with
  | .ok position => exact .inl ⟨position, rfl⟩
  | .error .base64Error => exact .inr rfl
  | .error .valueError => exact .inr rfl
  | .error .unicodeDecodeError => exact .inr rfl

end SreAgent.Operator
