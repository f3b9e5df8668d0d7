import DyadicNet.Json.Basic

/-!
# Text layers

A value says nothing of the text that it is stored as: which blanks there are, which of the escapes
of a string are used, and where a text stops being one.  Nor does a number say which double is to
stand for it.  This is what a **text layer** decides.  Whatever reads or writes a text takes the
text layer as a parameter, so that it is the same for all of them.

## Main definitions

* `Json.TextLayer` — how values become texts, and texts values;
* `Json.toReal?` — reading a double.
-/

namespace DyadicNet.Json

/-- How values become texts, and texts values. -/
class TextLayer where
  /-- The value of a text as far as it could be read, and whether the text ends with it. -/
  parse : String → Option Json × Bool
  /-- The indented text of a value. -/
  pretty : Json → String
  /-- The text of a value without blanks. -/
  compact : Json → String
  /-- The double that is read for an integer. -/
  realOfInt? : Int → Option Binary64
  /-- The double that is read for any other number. -/
  realOfNumeral? : Numeral → Option Binary64

/-- The double that a value stores. -/
def toReal? [TextLayer] : Json → Option Binary64
  | .integer n => TextLayer.realOfInt? n
  | .decimal numeral => TextLayer.realOfNumeral? numeral
  | _ => none

end DyadicNet.Json
