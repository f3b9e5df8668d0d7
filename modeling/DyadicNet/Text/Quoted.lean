import DyadicNet.Text.Hidden

/-!
# Quoted text

Messages show a text between double quotes, in one line and without anything invisible: the quote
and the backslash are escaped, the common controls have a letter, and every other hidden character
is written as its code point.

* `Quoted.escape` — the characters that stand for one character;
* `Quoted.text` — a text between quotes;
* `hexDigits` — lower case hexadecimal.
-/

namespace DyadicNet

/-- The lower case hexadecimal digits of a number. -/
def hexDigits (n : Nat) : List Char :=
  Nat.toDigits 16 n

namespace Quoted

/-- The characters that stand for `c` between quotes. -/
def escape (c : Char) : List Char :=
  if c = '"' then ['\\', '"']
  else if c = '\\' then ['\\', '\\']
  else if c = '\n' then ['\\', 'n']
  else if c = '\r' then ['\\', 'r']
  else if c = '\t' then ['\\', 't']
  else if c.toNat = 0 then ['\\', '0']
  else if isHidden c then ['\\', 'u', '\x7b'] ++ hexDigits c.toNat ++ ['\x7d']
  else [c]

/-- A text between double quotes. -/
def text (s : String) : String :=
  String.ofList ('"' :: (s.toList.flatMap escape ++ ['"']))

end Quoted

end DyadicNet
