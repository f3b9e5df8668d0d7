import DyadicNet.Json.Basic

/-!
# Writing JSON

A value has two written forms.  The compact one has no blanks at all; the indented one puts every
element on a line of its own, two columns further in than its container, and writes an empty
container as a pair of brackets.

* `Json.compact` and `Json.pretty` — the two forms;
* `Json.quoted` — a string between quotes, with the escapes that the grammar requires and no others.
-/

namespace DyadicNet.Json

/-! ### Strings -/

/-- A number below `2 ^ 16` as four hexadecimal digits. -/
def fourHex (n : Nat) : List Char :=
  [n / 4096 % 16, n / 256 % 16, n / 16 % 16, n % 16].map Nat.digitChar

/-- The characters that stand for `c` in a string. -/
def escape (c : Char) : List Char :=
  if c = '"' then ['\\', '"']
  else if c = '\\' then ['\\', '\\']
  else if c = '\x08' then ['\\', 'b']
  else if c = '\x0c' then ['\\', 'f']
  else if c = '\n' then ['\\', 'n']
  else if c = '\r' then ['\\', 'r']
  else if c = '\t' then ['\\', 't']
  else if c.toNat < 0x20 then '\\' :: 'u' :: fourHex c.toNat
  else [c]

/-- A string between quotes. -/
def quoted (s : String) : List Char :=
  '"' :: (s.toList.flatMap escape ++ ['"'])

/-! ### Scalars -/

/-- The characters of a value that is neither a list nor an object. -/
def scalarChars : Json → List Char
  | .bool true => "true".toList
  | .bool false => "false".toList
  | .integer n =>
    (if n < 0 then ['-'] else []) ++ digitChars (decimalDigits n.natAbs)
  | .decimal numeral => numeral.chars realLayout.showsPlus
  | .string s => quoted s
  | _ => "null".toList

/-! ### The compact form -/

mutual

/-- The characters of a value, without blanks. -/
def compactChars : Json → List Char
  | .array items _ => '[' :: (compactItems items ++ [']'])
  | .object members _ => '\x7b' :: (compactMembers members ++ ['\x7d'])
  | scalar => scalarChars scalar

/-- The elements of a list, with commas between them. -/
def compactItems : List Json → List Char
  | [] => []
  | [item] => compactChars item
  | item :: rest => compactChars item ++ ',' :: compactItems rest

/-- The members of an object, with commas between them. -/
def compactMembers : List (String × Json) → List Char
  | [] => []
  | [(name, value)] => quoted name ++ ':' :: compactChars value
  | (name, value) :: rest =>
    quoted name ++ ':' :: (compactChars value ++ ',' :: compactMembers rest)

end

/-- The text of a value, without blanks. -/
def compact (j : Json) : String :=
  String.ofList j.compactChars

/-! ### The indented form -/

/-- A line break and the blanks of the given depth. -/
def newLine (depth : Nat) : List Char :=
  '\n' :: List.replicate (2 * depth) ' '

mutual

/-- The characters of a value that stands at the given depth. -/
def prettyChars (depth : Nat) : Json → List Char
  | .array [] _ => ['[', ']']
  | .array items _ =>
    '[' :: (prettyItems (depth + 1) items ++ newLine depth ++ [']'])
  | .object [] _ => ['\x7b', '\x7d']
  | .object members _ =>
    '\x7b' :: (prettyMembers (depth + 1) members ++ newLine depth ++ ['\x7d'])
  | scalar => scalarChars scalar

/-- The elements of a list, each on a line of its own. -/
def prettyItems (depth : Nat) : List Json → List Char
  | [] => []
  | [item] => newLine depth ++ prettyChars depth item
  | item :: rest => newLine depth ++ prettyChars depth item ++ ',' :: prettyItems depth rest

/-- The members of an object, each on a line of its own. -/
def prettyMembers (depth : Nat) : List (String × Json) → List Char
  | [] => []
  | [(name, value)] => newLine depth ++ quoted name ++ ':' :: ' ' :: prettyChars depth value
  | (name, value) :: rest =>
    newLine depth ++ quoted name ++ ':' :: ' ' :: prettyChars depth value
      ++ ',' :: prettyMembers depth rest

end

/-- The indented text of a value. -/
def pretty (j : Json) : String :=
  String.ofList (j.prettyChars 0)

end DyadicNet.Json
