import Mathlib
import SreAgent.Base.JsonParse

/-!
# IP addresses in canonical text

`ip_address` of the `ipaddress` module, and the text it prints: dotted decimals, or hexadecimal
groups with the first longest run of zero groups compressed. `isCanonical` holds of a text that
parses and prints back as itself.
-/

namespace SreAgent.Base.IpAddress
open JsonParse

/-- `_parse_octet`. -/
def octet (cs : List Char) : Option Nat :=
  if cs = [] ∨ cs.all isDigit = false ∨ 3 < cs.length ∨ cs ≠ ['0'] ∧ cs.head? = some '0' then none
  else
    let n := Nat.ofDigitChars 10 cs 0
    if 255 < n then none else some n

/-- `IPv4Address(text)`: its four octets. -/
def ipv4 (cs : List Char) : Option (List Nat) :=
  let octets := cs.splitOn '.'
  if octets.length ≠ 4 then none else octets.mapM octet

/-- `str` of an IPv4 address. -/
def ipv4Text (octets : List Nat) : List Char := ['.'].intercalate (octets.map (Nat.toDigits 10))

/-- `_parse_hextet`. -/
def hextet (cs : List Char) : Option Nat := if cs = [] ∨ 4 < cs.length then none else parseHex cs

/-- The parts between colons, a dotted suffix as two groups. -/
def ipv6Parts (cs : List Char) : Option (List (List Char)) :=
  let parts := cs.splitOn ':'
  if parts.length < 3 then none
  else
    match parts.getLast? with
    | some last =>
      if '.' ∈ last then
        match ipv4 last with
        | some [a, b, c, d] =>
          some (parts.dropLast ++ [Nat.toDigits 16 (a * 256 + b), Nat.toDigits 16 (c * 256 + d)])
        | _ => none
      else some parts
    | none => none

/-- `IPv6Address(text)`: its eight groups. -/
def ipv6 (cs : List Char) : Option (List Nat) := do
  let parts ← ipv6Parts cs
  if 9 < parts.length then none
  else
    let inner := (List.range (parts.length - 2)).filter fun k => parts[k + 1]? = some []
    match inner with
    | [] =>
      if parts.length ≠ 8 then none else parts.mapM hextet
    | [k] =>
      let skip := k + 1
      let startsEmpty := parts.head? = some []
      let endsEmpty := parts.getLast? = some []
      let high := if startsEmpty then skip - 1 else skip
      let low := if endsEmpty then parts.length - skip - 2 else parts.length - skip - 1
      if startsEmpty ∧ high ≠ 0 ∨ endsEmpty ∧ low ≠ 0 ∨ 8 ≤ high + low then none
      else do
        let before ← (parts.take high).mapM hextet
        let after ← (parts.drop (parts.length - low)).mapM hextet
        some (before ++ List.replicate (8 - (high + low)) 0 ++ after)
    | _ => none

/-- Where the first longest run of zeros starts, and its length; `run` is the run that ends here. -/
def longestRun : List Nat → (index run : Nat) → (best : Nat × Nat) → Nat × Nat
  | [], _, _, best => best
  | 0 :: rest, index, run, best =>
    longestRun rest (index + 1) (run + 1) (if best.2 < run + 1 then (index - run, run + 1) else best)
  | _ :: rest, index, _, best => longestRun rest (index + 1) 0 best

/-- `_compress_hextets`. -/
def compress (groups : List Nat) : List (List Char) :=
  let (start, run) := longestRun groups 0 0 (0, 0)
  let texts := groups.map (Nat.toDigits 16)
  if run ≤ 1 then texts
  else
    let tail := if start + run = groups.length then [[]] else texts.drop (start + run)
    let body := texts.take start ++ [[]] ++ tail
    if start = 0 then [] :: body else body

/-- `str` of an IPv6 address. -/
def ipv6Text (groups : List Nat) : List Char := [':'].intercalate (compress groups)

/-- `str(ip_address(text))`, where it parses. -/
def printed (cs : List Char) : Option (List Char) :=
  match ipv4 cs with
  | some octets => some (ipv4Text octets)
  | none => (ipv6 cs).map ipv6Text

/-- The text parses and prints back as itself. -/
def isCanonical (s : String) : Bool := printed s.toList = some s.toList

example : (["10.0.0.1", "::1", "2001:db8::8a2e:0:0:1", "::", "1::"].map isCanonical).all id =
      true := by decide

example :
    (["010.0.0.1", "::0", "2001:DB8::1", "1::2:0:0:0:3", "::1.2.3.4", "1:2", ""].map isCanonical).any id =
      false := by
  decide

end SreAgent.Base.IpAddress
