import DyadicNet.Json.Parser
import DyadicNet.Json.Printer
import DyadicNet.Json.TextLayer

/-!
# The standard text layer

Texts are read strictly and written with as few escapes as there can be.  For a number **the nearest
double** is read, and a number beyond all doubles is refused.
-/

namespace DyadicNet.Json

/-- The text layer of the program. -/
instance standard : TextLayer where
  parse := parse
  pretty := pretty
  compact := compact
  realOfInt? n := some (Binary64.ofInt n) |>.filter Binary64.isFinite
  realOfNumeral? numeral := some numeral.toBinary64 |>.filter Binary64.isFinite

end DyadicNet.Json
