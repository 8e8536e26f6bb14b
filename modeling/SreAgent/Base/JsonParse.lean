import SreAgent.Base.JsonText
import SreAgent.Base.PyJson
import SreAgent.Base.Utf

/-!
# Reading JSON text

`parse` is `json.loads` on decoded text: the scanner of CPython with its three ways to give up, a
syntax error, an integer literal over the digit limit of the interpreter, and nesting over its
recursion limit. The value of a float literal is a parameter. Objects keep the last of equal keys
in the place of the first. A string may hold surrogates that stand alone, where they are escaped.

`fuel` bounds the number of values read; `parse` starts with one more than the length of the text,
which no document exhausts (`parse_ne_outOfFuel`).
-/

namespace SreAgent.Base.JsonParse
open JsonText Utf

/-- Why `json.loads` raises. -/
inductive LoadsError where
  | decode
  | intTooLong
  | recursion
  | outOfFuel
  deriving DecidableEq

/-- What the interpreter contributes: its limits and its reading of a float literal. -/
structure Interpreter where
  maxDigits : Nat
  maxDepth : Nat
  readFloat : List Char → FloatVal

abbrev Result (α : Type) := Except LoadsError (α × List Char)

def isDigit (c : Char) : Bool := 48 ≤ c.toNat ∧ c.toNat ≤ 57

/-- JSON whitespace. -/
def isBlank (c : Char) : Bool := c.toNat = 32 || c.toNat = 9 || c.toNat = 10 || c.toNat = 13

def skipBlank (cs : List Char) : List Char := cs.dropWhile isBlank

/-- The rest of `cs` after the literal `lit`. -/
def dropLiteral (lit : List Char) (cs : List Char) : Option (List Char) :=
  if cs.take lit.length = lit then some (cs.drop lit.length) else none

/-- The sign of a number literal. -/
def signOf : List Char → List Char
  | '-' :: _ => ['-']
  | _ => []

/-- The integer part: `0`, or digits. -/
def wholeOf : List Char → List Char
  | '0' :: _ => ['0']
  | cs => cs.takeWhile isDigit

/-- A complete fraction, or nothing. -/
def fractionOf : List Char → List Char
  | '.' :: tail => if tail.takeWhile isDigit = [] then [] else '.' :: tail.takeWhile isDigit
  | _ => []

/-- A complete exponent, or nothing. -/
def exponentOf : List Char → List Char
  | e :: tail =>
    let sign := match tail with
      | '-' :: _ => ['-']
      | '+' :: _ => ['+']
      | _ => []
    let ds := (tail.drop sign.length).takeWhile isDigit
    if (e = 'e' ∨ e = 'E') ∧ ds ≠ [] then e :: sign ++ ds else []
  | [] => []

/-- A number literal: sign, integer part without leading zeros, then fraction and exponent, each
only when it is complete. -/
def number (i : Interpreter) (cs : List Char) : Result PyJson :=
  let sign := signOf cs
  let rest := cs.drop sign.length
  let whole := wholeOf rest
  if whole = [] then .error .decode
  else
    let rest := rest.drop whole.length
    let fraction := fractionOf rest
    let rest := rest.drop fraction.length
    let exponent := exponentOf rest
    let rest := rest.drop exponent.length
    if fraction = [] ∧ exponent = [] then
      if i.maxDigits < whole.length then .error .intTooLong
      else
        let n := Nat.ofDigitChars 10 whole 0
        .ok (.int (if sign = [] then (n : Int) else -(n : Int)), rest)
    else .ok (.float (i.readFloat (sign ++ whole ++ fraction ++ exponent)), rest)

/-- A code unit of a `\u` escape. -/
def unit (cs : List Char) : Option (Nat × List Char) :=
  if cs.length < 4 then none else (parseHex (cs.take 4)).map fun n => (n, cs.drop 4)

/-- The character of a one-letter escape. -/
def simpleEscape (e : Char) : Option Char :=
  if e = quote ∨ e = backslash ∨ e = '/' then some e
  else if e = 'b' then some (Char.ofNat 8)
  else if e = 'f' then some (Char.ofNat 12)
  else if e = 'n' then some (Char.ofNat 10)
  else if e = 'r' then some (Char.ofNat 13)
  else if e = 't' then some (Char.ofNat 9)
  else none

/-- The code points of a string literal after its opening quote. -/
def stringBody : Nat → List Char → Result (List CodePoint)
  | 0, _ => .error .outOfFuel
  | _ + 1, [] => .error .decode
  | fuel + 1, c :: cs =>
    if c = quote then .ok ([], cs)
    else if c.toNat < 32 then .error .decode
    else if c = backslash then
      match cs with
      | [] => .error .decode
      | e :: rest =>
        match simpleEscape e with
        | some d => (stringBody fuel rest).map fun (s, rest) => (.ofChar d :: s, rest)
        | none =>
          if e ≠ 'u' then .error .decode
          else
            match unit rest with
            | none => .error .decode
            | some (high, rest) =>
              let alone : Result (List CodePoint) :=
                (stringBody fuel rest).map fun (s, rest) => (.ofNat high :: s, rest)
              if 55296 ≤ high ∧ high ≤ 56319 then
                match dropLiteral [backslash, 'u'] rest with
                | none => alone
                | some tail =>
                  match unit tail with
                  | none => .error .decode
                  | some (low, after) =>
                    if 56320 ≤ low ∧ low ≤ 57343 then
                      (stringBody fuel after).map fun (s, rest) =>
                        (.ofNat (65536 + (high - 55296) * 1024 + (low - 56320)) :: s, rest)
                    else alone
              else alone
    else (stringBody fuel cs).map fun (s, rest) => (.ofChar c :: s, rest)

/-- A string literal after its opening quote. -/
def stringLit (cs : List Char) : Result PyStr :=
  (stringBody (cs.length + 1) cs).map fun (s, rest) => (⟨s⟩, rest)

/-- `d[key] = value`. -/
def setItem {κ α : Type} [DecidableEq κ] (d : List (κ × α)) (key : κ) (v : α) : List (κ × α) :=
  if key ∈ JsonObject.keys d then d.map fun item => if item.1 = key then (key, v) else item
  else d ++ [(key, v)]

mutual

/-- `scan_once` at the first character of a value; `depth` is how deep it may still nest. -/
def value (i : Interpreter) : Nat → Nat → List Char → Result PyJson
  | 0, _, _ => .error .outOfFuel
  | _ + 1, _, [] => .error .decode
  | fuel + 1, depth, c :: cs =>
    if c = quote then (stringLit cs).map fun (s, rest) => (.str s, rest)
    else if c = '{' then
      match depth with
      | 0 => .error .recursion
      | depth + 1 =>
        match skipBlank cs with
        | [] => .error .decode
        | c' :: rest => if c' = '}' then .ok (.obj [], rest) else members i fuel depth [] (c' :: rest)
    else if c = '[' then
      match depth with
      | 0 => .error .recursion
      | depth + 1 =>
        match skipBlank cs with
        | [] => .error .decode
        | c' :: rest => if c' = ']' then .ok (.arr [], rest) else elements i fuel depth [] (c' :: rest)
    else
      match dropLiteral "null".toList (c :: cs), dropLiteral "true".toList (c :: cs),
        dropLiteral "false".toList (c :: cs), dropLiteral "NaN".toList (c :: cs),
        dropLiteral "Infinity".toList (c :: cs), dropLiteral "-Infinity".toList (c :: cs) with
      | some rest, _, _, _, _, _ => .ok (.null, rest)
      | _, some rest, _, _, _, _ => .ok (.bool true, rest)
      | _, _, some rest, _, _, _ => .ok (.bool false, rest)
      | _, _, _, some rest, _, _ => .ok (.float .nan, rest)
      | _, _, _, _, some rest, _ => .ok (.float (.infinite false), rest)
      | _, _, _, _, _, some rest => .ok (.float (.infinite true), rest)
      | none, none, none, none, none, none => number i (c :: cs)

/-- The rest of an array, from an element on. -/
def elements (i : Interpreter) : Nat → Nat → List PyJson → List Char → Result PyJson
  | 0, _, _, _ => .error .outOfFuel
  | fuel + 1, depth, acc, cs =>
    match value i fuel depth cs with
    | .error e => .error e
    | .ok (v, rest) =>
      match skipBlank rest with
      | ']' :: rest => .ok (.arr (acc ++ [v]), rest)
      | ',' :: rest => elements i fuel depth (acc ++ [v]) (skipBlank rest)
      | _ => .error .decode

/-- The rest of an object, from a key on. -/
def members (i : Interpreter) : Nat → Nat → JsonObject PyStr → List Char → Result PyJson
  | 0, _, _, _ => .error .outOfFuel
  | _ + 1, _, _, [] => .error .decode
  | fuel + 1, depth, acc, c :: cs =>
    if c = quote then
      match stringLit cs with
      | .error e => .error e
      | .ok (key, rest) =>
        match skipBlank rest with
        | ':' :: rest =>
          match value i fuel depth (skipBlank rest) with
          | .error e => .error e
          | .ok (v, rest) =>
            match skipBlank rest with
            | '}' :: rest => .ok (.obj (setItem acc key v), rest)
            | ',' :: rest => members i fuel depth (setItem acc key v) (skipBlank rest)
            | _ => .error .decode
        | _ => .error .decode
    else .error .decode

end

/-- `json.loads(text)`. -/
def parse (i : Interpreter) (text : List Char) : Except LoadsError PyJson :=
  match value i (2 * text.length + 2) i.maxDepth (skipBlank text) with
  | .error e => .error e
  | .ok (v, rest) => if skipBlank rest = [] then .ok v else .error .decode

end SreAgent.Base.JsonParse
