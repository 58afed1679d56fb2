import Criteria.Json.Basic

/-!
# Reading JSON text

The grammar of JSON with a bound on the nesting of arrays and objects. A literal without point and
exponent denotes an integer if it fits a word, except `-0`, which is the floating zero; every other
literal denotes the nearest double. Each step of the reader consumes a character, so the length of
the text bounds their number.
-/

namespace Criteria.Json.Reader
set_option autoImplicit false

/-- The text without the blanks it starts with. -/
def skipBlanks (text : List Char) : List Char :=
  text.dropWhile fun c => c = ' ' || c = '\n' || c = '\r' || c = '\t'

/-- The number that a run of decimal digits denotes. -/
def ofDigits (digits : List Char) : Nat :=
  digits.foldl (fun n c => 10 * n + (c.toNat - '0'.toNat)) 0

/-- The digits before the point: a zero that stands alone, or a run that starts with no zero. -/
def wholePart : List Char → Option (List Char × List Char)
  | '0' :: rest =>
    match rest with
    | c :: _ => if c.isDigit then none else some (['0'], rest)
    | [] => some (['0'], [])
  | text =>
    let digits := text.takeWhile Char.isDigit
    if digits.isEmpty then none else some (digits, text.dropWhile Char.isDigit)

/-- The digits after the point; absent without a point. -/
def fractionPart : List Char → Option (Option (List Char) × List Char)
  | '.' :: rest =>
    let digits := rest.takeWhile Char.isDigit
    if digits.isEmpty then none else some (some digits, rest.dropWhile Char.isDigit)
  | text => some (none, text)

/-- The exponent of ten; absent without its mark. -/
def exponentPart (text : List Char) : Option (Option Int × List Char) :=
  let signed (negative : Bool) (text : List Char) : Option (Option Int × List Char) :=
    let digits := text.takeWhile Char.isDigit
    if digits.isEmpty then none
    else
      let size : Int := ofDigits digits
      some (some (if negative then -size else size), text.dropWhile Char.isDigit)
  match text with
  | c :: rest =>
    if c = 'e' || c = 'E' then
      match rest with
      | '+' :: rest => signed false rest
      | '-' :: rest => signed true rest
      | rest => signed false rest
    else some (none, text)
  | [] => some (none, [])

/-- A number literal. -/
def number (text : List Char) : Option (Json × List Char) := do
  let (negative, unsigned) := match text with
    | '-' :: rest => (true, rest)
    | rest => (false, rest)
  let (whole, rest) ← wholePart unsigned
  let (fraction, rest) ← fractionPart rest
  let (exponent, rest) ← exponentPart rest
  let size := ofDigits whole
  let exact : Option Integer :=
    if fraction.isNone && exponent.isNone && !(negative && size == 0) then
      Integer.ofInt? (if negative then -(size : Int) else size)
    else none
  match exact with
  | some n => some (.int n, rest)
  | none =>
    let places := fraction.getD []
    let d ← Double.ofDecimal? negative (ofDigits (whole ++ places))
      (exponent.getD 0 - (places.length : Int))
    some (.float d, rest)

/-- The value of a hexadecimal digit. -/
def hexDigit? (c : Char) : Option Nat :=
  if '0' ≤ c && c ≤ '9' then some (c.toNat - '0'.toNat)
  else if 'a' ≤ c && c ≤ 'f' then some (c.toNat - 'a'.toNat + 10)
  else if 'A' ≤ c && c ≤ 'F' then some (c.toNat - 'A'.toNat + 10)
  else none

/-- Four hexadecimal digits. -/
def hex4 : List Char → Option (Nat × List Char)
  | a :: b :: c :: d :: rest => do
    let a ← hexDigit? a
    let b ← hexDigit? b
    let c ← hexDigit? c
    let d ← hexDigit? d
    some (((a * 16 + b) * 16 + c) * 16 + d, rest)
  | _ => none

/-- The character of a `\u` escape. A character beyond four digits is written as two surrogates, and
a surrogate that stands alone is refused. -/
def escapedScalar (text : List Char) : Option (Char × List Char) := do
  let (unit, rest) ← hex4 text
  if 0xD800 ≤ unit ∧ unit < 0xDC00 then
    match rest with
    | '\\' :: 'u' :: rest =>
      let (low, rest) ← hex4 rest
      if 0xDC00 ≤ low ∧ low < 0xE000 then
        some (Char.ofNat (0x10000 + (unit - 0xD800) * 0x400 + (low - 0xDC00)), rest)
      else none
    | _ => none
  else if 0xDC00 ≤ unit ∧ unit < 0xE000 then none
  else some (Char.ofNat unit, rest)

/-- The character of an escape, after its backslash. -/
def escaped : List Char → Option (Char × List Char)
  | '"' :: rest => some ('"', rest)
  | '\\' :: rest => some ('\\', rest)
  | '/' :: rest => some ('/', rest)
  | 'b' :: rest => some ('\x08', rest)
  | 'f' :: rest => some ('\x0c', rest)
  | 'n' :: rest => some ('\n', rest)
  | 'r' :: rest => some ('\r', rest)
  | 't' :: rest => some ('\t', rest)
  | 'u' :: rest => escapedScalar rest
  | _ => none

/-- The characters up to the closing quote. -/
def quoted : Nat → List Char → Option (List Char × List Char)
  | 0, _ => none
  | fuel + 1, text =>
    match text with
    | [] => none
    | '"' :: rest => some ([], rest)
    | '\\' :: rest => do
      let (c, rest) ← escaped rest
      let (s, rest) ← quoted fuel rest
      some (c :: s, rest)
    | c :: rest =>
      if c.toNat < 32 then none
      else do
        let (s, rest) ← quoted fuel rest
        some (c :: s, rest)

/-- The rest of the text after the given word. -/
def word : List Char → List Char → Option (List Char)
  | [], text => some text
  | c :: cs, d :: text => if c = d then word cs text else none
  | _ :: _, [] => none

mutual

/-- A value, blanks before it allowed; arrays and objects may nest `depth` deep. -/
def value : Nat → Nat → List Char → Option (Json × List Char)
  | 0, _, _ => none
  | fuel + 1, depth, text =>
    match skipBlanks text with
    | 'n' :: rest => (word "ull".toList rest).map (null, ·)
    | 't' :: rest => (word "rue".toList rest).map (bool true, ·)
    | 'f' :: rest => (word "alse".toList rest).map (bool false, ·)
    | '"' :: rest =>
      (quoted (rest.length + 1) rest).map fun (s, rest) => (str (String.ofList s), rest)
    | '[' :: rest =>
      match depth with
      | 0 => none
      | depth + 1 =>
        match skipBlanks rest with
        | ']' :: rest => some (arr [], rest)
        | rest => (items fuel depth rest).map fun (items, rest) => (arr items, rest)
    | '\x7b' :: rest =>
      match depth with
      | 0 => none
      | depth + 1 =>
        match skipBlanks rest with
        | '\x7d' :: rest => some (obj [], rest)
        | rest => (members fuel depth rest).map fun (members, rest) => (ofMembers members, rest)
    | rest => number rest

/-- The items of an array and its closing bracket. -/
def items : Nat → Nat → List Char → Option (List Json × List Char)
  | 0, _, _ => none
  | fuel + 1, depth, text => do
    let (item, rest) ← value fuel depth text
    match skipBlanks rest with
    | ',' :: rest =>
      let (more, rest) ← items fuel depth rest
      some (item :: more, rest)
    | ']' :: rest => some ([item], rest)
    | _ => none

/-- The members of an object and its closing bracket. -/
def members : Nat → Nat → List Char → Option (List (String × Json) × List Char)
  | 0, _, _ => none
  | fuel + 1, depth, text =>
    match skipBlanks text with
    | '"' :: rest => do
      let (key, rest) ← quoted (rest.length + 1) rest
      match skipBlanks rest with
      | ':' :: rest =>
        let (item, rest) ← value fuel depth rest
        match skipBlanks rest with
        | ',' :: rest =>
          let (more, rest) ← members fuel depth rest
          some ((String.ofList key, item) :: more, rest)
        | '\x7d' :: rest => some ([(String.ofList key, item)], rest)
        | _ => none
      | _ => none
    | _ => none

end

end Reader

/-- The deepest nesting of arrays and objects that is read. -/
def maxDepth : Nat := 127

/-- Reads the value that a text starts with; gives the text after it. -/
def readFirst? (text : String) : Option (Json × List Char) :=
  Reader.value (2 * text.length + 2) maxDepth text.toList

/-- Whether nothing but blanks is left of a text. -/
def isBlank (rest : List Char) : Bool := (Reader.skipBlanks rest).isEmpty

/-- Reads a text that holds one value and nothing else. -/
def read? (text : String) : Option Json :=
  match readFirst? text with
  | some (value, rest) => if isBlank rest then some value else none
  | none => none

end Criteria.Json
