import SreAgent.Base.JsonText
import SreAgent.Base.PyJson

/-!
# Canonical text

`canonical` is `json.dumps(value, ensure_ascii=False, sort_keys=True, separators=(",", ":"))` of a
document with strings of Python, within the limits of the interpreter. A surrogate is written as it
is, so that the text is a string of Python as well; of a document of texts it is the text of `dumps`
(`canonical_coded`).
-/

namespace SreAgent.Base.JsonText

/-- The code points of a text. -/
def codesOf (text : List Char) : List CodePoint := text.map .ofChar

@[simp] theorem codesOf_nil : codesOf [] = [] := rfl

@[simp] theorem codesOf_cons (c : Char) (text : List Char) :
    codesOf (c :: text) = .ofChar c :: codesOf text := rfl

@[simp] theorem codesOf_append (text more : List Char) :
    codesOf (text ++ more) = codesOf text ++ codesOf more :=
  List.map_append

/-- A code point of a string literal. -/
def escapeCode (p : CodePoint) : List CodePoint :=
  match p.char? with
  | some c => codesOf (escapeChar false c)
  | none => [p]

/-- A string literal. -/
def stringCodes (s : PyStr) : List CodePoint :=
  .ofChar quote :: s.codes.flatMap escapeCode ++ [.ofChar quote]

/-- Strings separated by commas. -/
def commaCodes (strings : List (List CodePoint)) : List CodePoint :=
  [CodePoint.ofChar ','].intercalate strings

/-- One item of an object. -/
def itemCodes (item : PyStr × List CodePoint) : List CodePoint := stringCodes item.1 ++ .ofChar ':' :: item.2

/-- The items of an object in the order of their keys. -/
def sortCodes {α : Type} (items : List (PyStr × α)) : List (PyStr × α) :=
  items.insertionSort fun a b => a.1.codes ≤ b.1.codes

section

variable (floatText : FloatVal → String)

mutual

/-- The canonical text of a document. -/
def canonical : PyJson → List CodePoint
  | .null => codesOf "null".toList
  | .bool b => codesOf (if b then "true".toList else "false".toList)
  | .int n => codesOf (intText n)
  | .float x => codesOf (floatText x).toList
  | .str s => stringCodes s
  | .arr items => .ofChar '[' :: commaCodes (canonicalAll items) ++ [.ofChar ']']
  | .obj items =>
    .ofChar '{' :: commaCodes ((sortCodes (canonicalItems items)).map itemCodes) ++ [.ofChar '}']

def canonicalAll : List PyJson → List (List CodePoint)
  | [] => []
  | v :: vs => canonical v :: canonicalAll vs

def canonicalItems : List (PyStr × PyJson) → List (PyStr × List CodePoint)
  | [] => []
  | (k, v) :: items => (k, canonical v) :: canonicalItems items

end

end

/-! ## The text of texts -/

/-- A character is escaped as the writer without `ensure_ascii` escapes it. -/
theorem escapeCode_ofChar (c : Char) : escapeCode (.ofChar c) = codesOf (escapeChar false c) := by
  rw [escapeCode, CodePoint.char?_ofChar]

theorem flatMap_escapeCode (cs : List Char) :
    (codesOf cs).flatMap escapeCode = codesOf (cs.flatMap (escapeChar false)) := by
  induction cs with
  | nil => rfl
  | cons c cs ih =>
    rw [codesOf_cons, List.flatMap_cons, List.flatMap_cons, codesOf_append, escapeCode_ofChar, ih]

/-- A text is written as that writer writes it. -/
theorem stringCodes_ofString (s : String) : stringCodes (.ofString s) = codesOf (stringText false s) := by
  have body : (PyStr.ofString s).codes.flatMap escapeCode = codesOf (s.toList.flatMap (escapeChar false)) :=
    flatMap_escapeCode s.toList
  rw [stringCodes, body, stringText]
  simp

theorem commaCodes_map (texts : List (List Char)) :
    commaCodes (texts.map codesOf) = codesOf (commaJoin texts) := by
  induction texts with
  | nil => rfl
  | cons t ts ih =>
    cases ts with
    | nil => simp [commaCodes, commaJoin]
    | cons u us =>
      have left : commaCodes ((t :: u :: us).map codesOf) = codesOf t ++
          .ofChar ',' :: commaCodes ((u :: us).map codesOf) := rfl
      have right : commaJoin (t :: u :: us) = t ++ ',' :: commaJoin (u :: us) := rfl
      rw [left, right, ih, codesOf_append, codesOf_cons]

/-- The items of a document of texts, as strings. -/
def codedItem (item : String × List Char) : PyStr × List CodePoint := (.ofString item.1, codesOf item.2)

theorem itemCodes_codedItem (floatText : FloatVal → String) (item : String × List Char) :
    itemCodes (codedItem item) = codesOf (itemText ⟨false, true, floatText⟩ item) := by
  rw [itemCodes, codedItem, stringCodes_ofString, itemText, codesOf_append, codesOf_cons]

/-- Texts are sorted as their strings are. -/
theorem sortCodes_codedItem (items : List (String × List Char)) :
    sortCodes (items.map codedItem) = (sortItems items).map codedItem := by
  symm
  exact List.map_insertionSort _ _ codedItem items fun a _ b _ => PyStr.ofString_le.symm

section

variable {floatText : FloatVal → String}

mutual

/-- The canonical text of a document of texts is the text `dumps` writes. -/
theorem canonical_coded (v : Json) :
    canonical floatText v.coded = codesOf (render ⟨false, true, floatText⟩ v) := by
  match v with
  | .null => rfl
  | .bool true => rfl
  | .bool false => rfl
  | .int n => simp only [Json.coded, Json.map, canonical, render]
  | .float x => simp only [Json.coded, Json.map, canonical, render]
  | .str s => simp only [Json.coded, Json.map, canonical, render, stringCodes_ofString]
  | .arr items =>
    simp only [Json.coded, Json.map, canonical, render, canonicalAll_coded items, commaCodes_map]
    simp
  | .obj items =>
    have texts : ((sortItems (renderItems ⟨false, true, floatText⟩ items)).map codedItem).map itemCodes =
        ((sortItems (renderItems ⟨false, true, floatText⟩ items)).map
          (itemText ⟨false, true, floatText⟩)).map codesOf := by
      rw [List.map_map, List.map_map]
      exact List.map_congr_left fun item _ => itemCodes_codedItem floatText item
    simp only [Json.coded, Json.map, canonical, render, canonicalItems_coded items,
      sortCodes_codedItem, texts, commaCodes_map, Options.order, if_true]
    simp

theorem canonicalAll_coded (items : List Json) :
    canonicalAll floatText (Json.mapItems PyStr.ofString items) =
      (renderAll ⟨false, true, floatText⟩ items).map codesOf := by
  match items with
  | [] => rfl
  | v :: vs =>
    rw [Json.mapItems_ofString_cons, canonicalAll, canonical_coded v, canonicalAll_coded vs, renderAll,
      List.map_cons]

theorem canonicalItems_coded (items : JsonObject) :
    canonicalItems floatText (Json.mapFields PyStr.ofString items) =
      (renderItems ⟨false, true, floatText⟩ items).map codedItem := by
  match items with
  | [] => rfl
  | (k, v) :: rest =>
    rw [Json.mapFields_ofString_cons, canonicalItems, canonical_coded v, canonicalItems_coded rest,
      renderItems, List.map_cons]
    rfl

end

end

end SreAgent.Base.JsonText
