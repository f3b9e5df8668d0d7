/-!
# Lists in messages

A list is shown between square brackets, its elements separated by a comma and a blank.

* `bracketed` — a list of texts;
* `listing` — a list of numbers.
-/

namespace DyadicNet

/-- Texts between square brackets. -/
def bracketed (items : List String) : String :=
  "[" ++ String.intercalate ", " items ++ "]"

/-- Numbers between square brackets. -/
def listing {α : Type} [ToString α] (items : List α) : String :=
  bracketed (items.map toString)

end DyadicNet
