import Criteria.Text.Combining
import Criteria.Text.Glyphless

/-!
# Quoted strings

A string in double quotes, for people to read: quotes, backslashes and the usual controls are
escaped by a letter, other characters that do not show by themselves by their code point.
-/

namespace Criteria.Text
set_option autoImplicit false

/-- Whether a character is hidden in print: it shows nothing, or it is drawn onto another. -/
def isHidden (c : Char) : Bool := isGlyphless c || isCombining c

/-- A character inside double quotes. -/
def quoteChar (c : Char) : List Char :=
  if c = '"' then ['\\', '"']
  else if c = '\\' then ['\\', '\\']
  else if c = '\n' then ['\\', 'n']
  else if c = '\r' then ['\\', 'r']
  else if c = '\t' then ['\\', 't']
  else if c = '\x00' then ['\\', '0']
  else if isHidden c then '\\' :: 'u' :: '\x7b' :: Nat.toDigits 16 c.toNat ++ ['\x7d']
  else [c]

/-- The string in double quotes. -/
def quoted (s : String) : String := String.ofList ('"' :: s.toList.flatMap quoteChar ++ ['"'])

end Criteria.Text
