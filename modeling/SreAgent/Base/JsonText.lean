import Mathlib
import SreAgent.Base.Json
import SreAgent.Base.Uuid

/-!
# JSON text

`dumps` is `json.dumps(value, separators=(",", ":"))`, with and without `ensure_ascii` and
`sort_keys`. The text of a float is a parameter: it is the interpreter's shortest representation,
and nothing here depends on its digits. The interpreter also limits how deep a document may nest and
how many digits an integer may have; `dumps` is the text within these limits, and
`JsonParse.writes` says of a document that may not be within them whether it is.
-/

namespace SreAgent.Base.JsonText

/-- The quotation mark. -/
def quote : Char := Char.ofNat 34

/-- The escape character. -/
def backslash : Char := Char.ofNat 92

/-- How a document is written. -/
structure Options where
  ensureAscii : Bool
  sortKeys : Bool
  floatText : FloatVal → String

/-- The four digits of a UTF-16 code unit. -/
def unitEscape (n : Nat) : List Char := backslash :: 'u' :: (hexDigits n 4).map hexChar

/-- A character of a string literal. -/
def escapeChar (ensureAscii : Bool) (c : Char) : List Char :=
  let n := c.toNat
  if n = 34 ∨ n = 92 then [backslash, c]
  else if n = 10 then [backslash, 'n']
  else if n = 13 then [backslash, 'r']
  else if n = 9 then [backslash, 't']
  else if n = 12 then [backslash, 'f']
  else if n = 8 then [backslash, 'b']
  else if n < 32 then unitEscape n
  else if ensureAscii = true ∧ 127 ≤ n then
    if n < 65536 then unitEscape n
    else unitEscape (55296 + (n - 65536) / 1024) ++ unitEscape (56320 + (n - 65536) % 1024)
  else [c]

/-- A string literal. -/
def stringText (ensureAscii : Bool) (s : String) : List Char :=
  quote :: s.toList.flatMap (escapeChar ensureAscii) ++ [quote]

/-- `str(n)`. -/
def intText (n : Int) : List Char :=
  if n < 0 then '-' :: Nat.toDigits 10 n.natAbs else Nat.toDigits 10 n.natAbs

/-- Texts separated by commas. -/
def commaJoin (texts : List (List Char)) : List Char := [','].intercalate texts

/-- The items of an object in the order of their keys. -/
def sortItems {α : Type*} (items : List (String × α)) : List (String × α) :=
  items.insertionSort fun a b => a.1 ≤ b.1

/-- The items of an object as they are written. -/
def Options.order {α : Type*} (o : Options) (items : List (String × α)) : List (String × α) :=
  if o.sortKeys then sortItems items else items

/-- The text of one item of an object. -/
def itemText (o : Options) (item : String × List Char) : List Char :=
  stringText o.ensureAscii item.1 ++ ':' :: item.2

mutual

/-- The characters of a document. -/
def render (o : Options) : Json → List Char
  | .null => "null".toList
  | .bool b => if b then "true".toList else "false".toList
  | .int n => intText n
  | .float x => (o.floatText x).toList
  | .str s => stringText o.ensureAscii s
  | .arr items => '[' :: commaJoin (renderAll o items) ++ [']']
  | .obj items =>
    '{' :: commaJoin ((o.order (renderItems o items)).map (itemText o)) ++ ['}']

def renderAll (o : Options) : List Json → List (List Char)
  | [] => []
  | v :: vs => render o v :: renderAll o vs

def renderItems (o : Options) : List (String × Json) → List (String × List Char)
  | [] => []
  | (k, v) :: items => (k, render o v) :: renderItems o items

end

/-- `json.dumps(value, ensure_ascii=..., sort_keys=..., separators=(",", ":"))`. -/
def dumps (o : Options) (v : Json) : String := String.ofList (render o v)

end SreAgent.Base.JsonText
