/-!
# Blank space

The characters with the Unicode property *white space*, and texts without them at either end.

* `isBlank` — the property;
* `trimBlank` — a text without the blanks around it.
-/

namespace DyadicNet

/-- Whether a character is white space: the ASCII blanks and controls, the next-line control, and
the spaces and separators further up. -/
def isBlank (c : Char) : Bool :=
  let n := c.toNat
  (0x09 ≤ n && n ≤ 0x0d) || n == 0x20 || n == 0x85 || n == 0xa0 || n == 0x1680
    || (0x2000 ≤ n && n ≤ 0x200a) || n == 0x2028 || n == 0x2029 || n == 0x202f || n == 0x205f
    || n == 0x3000

/-- A text without the blanks at its two ends. -/
def trimBlank (text : String) : String :=
  let rest := text.toList.dropWhile isBlank
  String.ofList (rest.reverse.dropWhile isBlank).reverse

end DyadicNet
