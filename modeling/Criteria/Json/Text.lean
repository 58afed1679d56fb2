import Criteria.Json.Basic
import Criteria.Number.Numeral

/-!
# Values as message text

The plain text of a value as a message quotes it: strings bare, whole numbers without a fraction,
arrays as the texts of their items, objects by a fixed label. `joined` spells the items of an array
one level deep, with a blank after each comma.
-/

namespace Criteria.Json
set_option autoImplicit false

/-- How doubles are written in messages: always positionally, whole numbers below `10 ^ 21` digit
for digit, and of two equally near decimals the larger. -/
def messageStyle : NumeralStyle where
  tie := .upward
  exactBelow := 1000000000000000000000
  positional _ := true
  pointed := false

mutual

/-- The text of a value in a message. -/
def text : Json → String
  | null => "null"
  | bool b => if b then "true" else "false"
  | int n => n.text
  | float d => d.text messageStyle
  | str s => s
  | arr items => ",".intercalate (itemTexts items)
  | obj _ => "[object Object]"

/-- The texts of the items of an array; a null item has none. -/
def itemTexts : List Json → List String
  | [] => []
  | item :: rest =>
    (if item.isDefined then text item else "") :: itemTexts rest

end

/-- The items of an array with `", "` between them; the text of any other value. -/
def joined : Json → String
  | arr items => ", ".intercalate (items.map text)
  | value => text value

end Criteria.Json
