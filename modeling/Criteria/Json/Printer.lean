import Criteria.Json.Basic
import Criteria.Number.Numeral

/-!
# JSON text

Compact JSON text. Doubles are written with their shortest digits: positionally when the scientific
exponent lies in `-5 … 15`, then with `.0` if whole, otherwise with a signed exponent.
-/

namespace Criteria.Json
set_option autoImplicit false

/-- How doubles are written in JSON text: of two equally near decimals the even one. -/
def numeralStyle : NumeralStyle where
  tie := .toEven
  exactBelow := 0
  positional e := -5 ≤ e && e < 16
  pointed := true

/-- The hexadecimal digits of `n`, four at least. -/
def hex4 (n : Nat) : List Char :=
  let digits := Nat.toDigits 16 n
  List.replicate (4 - digits.length) '0' ++ digits

/-- A character inside a quoted string: quotes, backslashes and controls are escaped. -/
def escape (c : Char) : List Char :=
  if c = '"' then ['\\', '"']
  else if c = '\\' then ['\\', '\\']
  else if c = '\x08' then ['\\', 'b']
  else if c = '\x0c' then ['\\', 'f']
  else if c = '\n' then ['\\', 'n']
  else if c = '\r' then ['\\', 'r']
  else if c = '\t' then ['\\', 't']
  else if c.toNat < 32 then '\\' :: 'u' :: hex4 c.toNat
  else [c]

/-- A string in quotes. -/
def quote (s : String) : String := String.ofList ('"' :: s.toList.flatMap escape ++ ['"'])

mutual

/-- The compact JSON text of a value. -/
def print : Json → String
  | null => "null"
  | bool b => if b then "true" else "false"
  | int n => n.text
  | float d => d.text numeralStyle
  | str s => quote s
  | arr items => "[" ++ ",".intercalate (printItems items) ++ "]"
  | obj members => "\x7b" ++ ",".intercalate (printMembers members) ++ "\x7d"

/-- The texts of the items of an array. -/
def printItems : List Json → List String
  | [] => []
  | item :: rest => print item :: printItems rest

/-- The texts of the members of an object. -/
def printMembers : List (String × Json) → List String
  | [] => []
  | (key, value) :: rest => (quote key ++ ":" ++ print value) :: printMembers rest

end

end Criteria.Json
