import DyadicNet.Json.Basic

/-!
# Reading JSON

The reader accepts strict JSON: no comments, no trailing commas, no leading zeros or plus signs, no
control characters inside strings.

A reading yields the value as far as it could be read, and the text after it; no text after it means
that the text broke off inside the value.  An array or an object that was open at that point is kept
as not intact.

## Main definitions

* `Json.Reader.value` — one value from the front of a text;
* `Json.parse` — the value of a whole text, and whether nothing but blanks follows it.

## Design notes

The readers recurse on a number of steps that is larger than the text is long; every step uses up a
character or is followed by one that does, so the steps never run out.
-/

namespace DyadicNet.Json

namespace Reader

/-- The text without the blanks at its front. -/
def skipBlanks (chars : List Char) : List Char :=
  chars.dropWhile fun c => c == ' ' || c == '\n' || c == '\t' || c == '\r'

/-! ### Strings -/

/-- The value of a hexadecimal digit. -/
def hexValue? (c : Char) : Option Nat :=
  if '0' ≤ c ∧ c ≤ '9' then some (c.toNat - '0'.toNat)
  else if 'a' ≤ c ∧ c ≤ 'f' then some (c.toNat - 'a'.toNat + 10)
  else if 'A' ≤ c ∧ c ≤ 'F' then some (c.toNat - 'A'.toNat + 10)
  else none

/-- The number given by four hexadecimal digits at the front of a text. -/
def fourHex? : List Char → Option (Nat × List Char)
  | a :: b :: c :: d :: rest => do
    let a ← hexValue? a
    let b ← hexValue? b
    let c ← hexValue? c
    let d ← hexValue? d
    some (((a * 16 + b) * 16 + c) * 16 + d, rest)
  | _ => none

/-- The character that a one-letter escape stands for. -/
def shortEscape? (c : Char) : Option Char :=
  match c with
  | '"' => some '"'
  | '\\' => some '\\'
  | '/' => some '/'
  | 'b' => some '\x08'
  | 'f' => some '\x0c'
  | 'n' => some '\n'
  | 'r' => some '\r'
  | 't' => some '\t'
  | _ => none

/-- The code units of a string up to its closing quote, and the text after the quote.  An escape
of four digits gives one unit, which may be half of a pair. -/
def units : Nat → List Char → Option (List Nat × List Char)
  | 0, _ => none
  | fuel + 1, chars =>
    match chars with
    | [] => none
    | '"' :: rest => some ([], rest)
    | '\\' :: 'u' :: rest => do
      let (unit, rest) ← fourHex? rest
      let (following, rest) ← units fuel rest
      some (unit :: following, rest)
    | '\\' :: c :: rest => do
      let c ← shortEscape? c
      let (following, rest) ← units fuel rest
      some (c.toNat :: following, rest)
    | c :: rest =>
      if c.toNat < 0x20 ∨ c = '\\' then none
      else do
        let (following, rest) ← units fuel rest
        some (c.toNat :: following, rest)

/-- The characters that code units stand for.  A leading half of a pair and a following trailing
half give one character; a half on its own gives none. -/
def joinPairs : List Nat → Option (List Char)
  | [] => some []
  | [unit] => if 0xd800 ≤ unit ∧ unit < 0xe000 then none else some [Char.ofNat unit]
  | unit :: next :: rest =>
    if 0xd800 ≤ unit ∧ unit < 0xdc00 then
      if 0xdc00 ≤ next ∧ next < 0xe000 then
        (joinPairs rest).map
          (Char.ofNat (0x10000 + (unit - 0xd800) * 0x400 + (next - 0xdc00)) :: ·)
      else none
    else if 0xdc00 ≤ unit ∧ unit < 0xe000 then none
    else (joinPairs (next :: rest)).map (Char.ofNat unit :: ·)

/-- A string after its opening quote: its text, or `none` in place of it if the escapes do not form
characters; and the text after it. -/
def text? (chars : List Char) : Option (Option String × List Char) :=
  (units (chars.length + 1) chars).map fun (units, rest) =>
    ((joinPairs units).map String.ofList, rest)

/-! ### Numbers -/

/-- The digits in front of the point: a zero, or digits that do not start with a zero. -/
def whole? (chars : List Char) : Option (List Nat × List Char) :=
  match chars with
  | '0' :: rest => some ([0], rest)
  | chars =>
    match takeDigits chars with
    | ([], _) => none
    | digits => some digits

/-- The point and the digits after it, if there is a point. -/
def fraction? (chars : List Char) : Option (List Nat × List Char) :=
  match chars with
  | '.' :: rest =>
    match takeDigits rest with
    | ([], _) => none
    | digits => some digits
  | chars => some ([], chars)

/-- The exponent, if there is one. -/
def exponent? (chars : List Char) : Option (Option Int × List Char) :=
  match chars with
  | c :: rest =>
    if c = 'e' ∨ c = 'E' then
      let (negative, rest) :=
        match rest with
        | '-' :: rest => (true, rest)
        | '+' :: rest => (false, rest)
        | rest => (false, rest)
      match takeDigits rest with
      | ([], _) => none
      | (digits, rest) =>
        let n : Int := ofDigits digits
        some (some (if negative then -n else n), rest)
    else some (none, chars)
  | [] => some (none, [])

/-- A number at the front of a text. -/
def number? (chars : List Char) : Option (Json × List Char) := do
  let (negative, rest) :=
    match chars with
    | '-' :: rest => (true, rest)
    | chars => (false, chars)
  let (whole, rest) ← whole? rest
  let (fraction, rest) ← fraction? rest
  let (exponent, rest) ← exponent? rest
  let n : Int := ofDigits whole
  if fraction.isEmpty && exponent.isNone && !(negative && n == 0) then
    some (.integer (if negative then -n else n), rest)
  else some (.decimal ⟨negative, whole, fraction, exponent⟩, rest)

/-! ### Values -/

/-- The text after a word at its front. -/
def word? (word chars : List Char) : Option (List Char) :=
  if word.isPrefixOf chars then some (chars.drop word.length) else none

/-- A value that is neither a list nor an object. -/
def scalar? (chars : List Char) : Option (Json × List Char) :=
  match chars with
  | '"' :: rest =>
    (text? rest).map fun (text, rest) => ((text.map Json.string).getD .illFormed, rest)
  | 'n' :: _ => (word? "null".toList chars).map fun rest => (.null, rest)
  | 't' :: _ => (word? "true".toList chars).map fun rest => (.bool true, rest)
  | 'f' :: _ => (word? "false".toList chars).map fun rest => (.bool false, rest)
  | chars => number? chars

mutual

/-- One value from the front of a text. -/
def value : Nat → List Char → Option Json × Option (List Char)
  | 0, _ => (none, none)
  | fuel + 1, chars =>
    match skipBlanks chars with
    | '[' :: rest =>
      match skipBlanks rest with
      | ']' :: rest => (some (.array [] true), some rest)
      | rest =>
        let (read, after) := items fuel rest
        (some (.array read after.isSome), after)
    | '\x7b' :: rest =>
      match skipBlanks rest with
      | '\x7d' :: rest => (some (.object [] true), some rest)
      | rest =>
        let (read, sound, after) := members fuel rest
        (some (.object read (sound && after.isSome)), after)
    | chars =>
      match scalar? chars with
      | some (read, rest) => (some read, some rest)
      | none => (none, none)

/-- The elements of a list, up to the closing bracket. -/
def items : Nat → List Char → List Json × Option (List Char)
  | 0, _ => ([], none)
  | fuel + 1, chars =>
    match value fuel chars with
    | (read, none) => (read.toList, none)
    | (read, some rest) =>
      match skipBlanks rest with
      | ',' :: rest =>
        let (following, after) := items fuel rest
        (read.toList ++ following, after)
      | ']' :: rest => (read.toList, some rest)
      | _ => (read.toList, none)

/-- The members of an object, up to the closing brace, and whether all names are well formed.  No
member from an ill formed name on is kept. -/
def members : Nat → List Char → List (String × Json) × Bool × Option (List Char)
  | 0, _ => ([], true, none)
  | fuel + 1, chars =>
    match skipBlanks chars with
    | '"' :: rest =>
      match text? rest with
      | none => ([], true, none)
      | some (name, rest) =>
        match skipBlanks rest with
        | ':' :: rest =>
          let (read, after) := value fuel rest
          let kept := (name.bind fun name => read.map fun read => (name, read)).toList
          match after with
          | none => (kept, name.isSome, none)
          | some rest =>
            match skipBlanks rest with
            | ',' :: rest =>
              let (following, sound, after) := members fuel rest
              (if name.isSome then kept ++ following else [], name.isSome && sound, after)
            | '\x7d' :: rest => (kept, name.isSome, some rest)
            | _ => (kept, name.isSome, none)
        | _ => ([], true, none)
    | _ => ([], true, none)

end

end Reader

/-- The value of a text as far as it could be read, and whether the text ends with it. -/
def parse (text : String) : Option Json × Bool :=
  let chars := text.toList
  let (read, after) := Reader.value (2 * chars.length + 2) chars
  (read, (after.map fun rest => (Reader.skipBlanks rest).isEmpty).getD false)

end DyadicNet.Json
