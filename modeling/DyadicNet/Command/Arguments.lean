import DyadicNet.Decimal.Scan

/-!
# Arguments

A call names a command and gives its options.  An option has a long name, perhaps a letter, and
takes a value or is a flag.  The value is attached to the name (`--model=m`, `-mm`, `-m=m`) or is
the next argument; **a next argument that looks like an option is no value**, unless the option says
that it takes one of any form.

Arguments are read from the left, and the first fault or the first wish for help decides.  An option
is at fault if it was given before or if its value is not of its kind.  What is missing at the end
counts only if nobody asked for help.

## Main definitions

* `Command` — the commands with their settings;
* `Call` — what a list of arguments asks for;
* `ValueKind`, `OptionForm` — the options of a command and their values;
* `collect` — the options that arguments give;
* `Call.ofArguments?` — the call that arguments spell, if they spell one.
-/

namespace DyadicNet

/-- What the program can do. -/
inductive Command where
  /-- Storing the quantized form of a graph. -/
  | quantize (model : String) (output config : Option String) (weightBits : Option Nat)
  /-- Evaluating a graph on a tensor, and comparing the result with an expected one. -/
  | evaluate (model input : String) (output config expected : Option String)
      (tolerance : Binary64)
  /-- Showing the codeword of a value. -/
  | encode (value : Binary64) (intBits fracBits : Nat) (unsigned : Bool)
  /-- Showing random codewords of a random format. -/
  | sample (count maxBits seed : Nat)
deriving DecidableEq

/-- What a list of arguments asks for. -/
inductive Call where
  | version
  | help
  | perform (command : Command)
deriving DecidableEq

namespace Command

/-! ### Values -/

/-- The path that a text is; no path is empty. -/
def path? (text : String) : Option String :=
  if text.isEmpty then none else some text

/-- A number of bits. -/
def bits? (text : String) : Option Nat :=
  (Scan.int? 0 255 text).map Int.toNat

/-- A number of 64 bits. -/
def count? (text : String) : Option Nat :=
  Scan.nat? (twoPow 64 - 1) text

/-- What the value of an option has to be. -/
inductive ValueKind where
  | path
  | bits
  | count
  | real
deriving DecidableEq

/-- Whether a text is a value of a kind. -/
def ValueKind.accepts : ValueKind → String → Bool
  | .path, text => (path? text).isSome
  | .bits, text => (bits? text).isSome
  | .count, text => (count? text).isSome
  | .real, text => (Scan.real? text).isSome

/-! ### Options -/

/-- How an option is written. -/
structure OptionForm where
  /-- The name after two hyphens. -/
  name : String
  /-- The letter after one hyphen, of an option that takes a value. -/
  letter : Option Char
  /-- The kind of the value that belongs to the option; a flag has none. -/
  kind : Option ValueKind
  /-- Whether the next argument is the value even if it looks like an option. -/
  takesHyphen : Bool := false

/-- The options of a call, each with the text of its value, the latest option first. -/
abbrev Given : Type :=
  List (String × String)

/-- The options with one more, which was not given before and has a value of its kind. -/
def Given.add? (given : Given) (form : OptionForm) (value : String) : Option Given :=
  if (given.lookup form.name).isSome then none
  else if form.kind.all (·.accepts value) then some ((form.name, value) :: given)
  else none

/-! ### Arguments -/

/-- An argument that begins an option, as opposed to a value; a single hyphen is a value. -/
def looksLikeOption (argument : String) : Bool :=
  argument.startsWith "-" && argument != "-"

/-- What an argument says in a place where no value is awaited. -/
inductive Token where
  /-- An option that is complete. -/
  | given (form : OptionForm) (value : String)
  /-- An option whose value is the next argument. -/
  | awaiting (form : OptionForm)
  | help
  /-- The sign that only operands follow. -/
  | endOfOptions

/-- The option that a long argument gives, the two hyphens left out. -/
def longToken? (forms : List OptionForm) (body : List Char) : Option Token := do
  let name := String.ofList (body.takeWhile (· != '='))
  let form ← forms.find? (·.name == name)
  match body.dropWhile (· != '='), form.kind with
  | _ :: value, some _ => some (.given form (String.ofList value))
  | [], some _ => some (.awaiting form)
  | [], none => some (.given form "")
  | _ :: _, none => none

/-- The option that an argument of one letter gives, the hyphen left out. -/
def letterToken? (forms : List OptionForm) (letter : Char) (rest : List Char) : Option Token := do
  let form ← forms.find? (·.letter == some letter)
  match rest with
  | [] => some (.awaiting form)
  | '=' :: value => some (.given form (String.ofList value))
  | value => some (.given form (String.ofList value))

/-- What an argument says. -/
def token? (forms : List OptionForm) (argument : String) : Option Token :=
  match argument.toList with
  | ['-', '-'] => some .endOfOptions
  | '-' :: '-' :: body =>
    if argument = "--help" then some .help else longToken? forms body
  | '-' :: letter :: rest => if letter = 'h' then some .help else letterToken? forms letter rest
  | _ => none

/-- The options given so far together with those that arguments give; the inner `none` is a wish for
help.  In between stands the option, if there is one, whose value comes next. -/
def collect (forms : List OptionForm) :
    Given → Option OptionForm → List String → Option (Option Given)
  | given, none, [] => some (some given)
  | _, some _, [] => none
  | given, some form, argument :: rest =>
    if looksLikeOption argument && !form.takesHyphen then none
    else
      match given.add? form argument with
      | some more => collect forms more none rest
      | none => none
  | given, none, argument :: rest =>
    match token? forms argument with
    | some (.given form value) =>
      match given.add? form value with
      | some more => collect forms more none rest
      | none => none
    | some (.awaiting form) => collect forms given (some form) rest
    | some .help => some none
    | some .endOfOptions => if rest.isEmpty then some (some given) else none
    | none => none

/-! ### Reading the options -/

/-- The value of an option that has to be given. -/
def Given.needed {α : Type} (given : Given) (name : String) (read : String → Option α) : Option α :=
  (given.lookup name).bind read

/-- The value of an option that may be left out. -/
def Given.optional {α : Type} (given : Given) (name : String) (read : String → Option α) :
    Option (Option α) :=
  match given.lookup name with
  | some text => (read text).map some
  | none => some none

/-! ### Commands -/

/-- The options of the command that quantizes. -/
def quantizeForms : List OptionForm :=
  [{ name := "model", letter := some 'm', kind := some .path },
    { name := "output", letter := some 'o', kind := some .path },
    { name := "config", letter := some 'c', kind := some .path },
    { name := "weight-bits", letter := none, kind := some .bits }]

/-- The options of the command that evaluates. -/
def evaluateForms : List OptionForm :=
  [{ name := "model", letter := some 'm', kind := some .path },
    { name := "input", letter := some 'i', kind := some .path },
    { name := "output", letter := some 'o', kind := some .path },
    { name := "config", letter := some 'c', kind := some .path },
    { name := "expected", letter := some 'e', kind := some .path },
    { name := "tolerance", letter := some 't', kind := some .real }]

/-- The options of the command that encodes; the value may be negative. -/
def encodeForms : List OptionForm :=
  [{ name := "value", letter := none, kind := some .real, takesHyphen := true },
    { name := "int-bits", letter := none, kind := some .bits },
    { name := "frac-bits", letter := none, kind := some .bits },
    { name := "unsigned", letter := none, kind := none }]

/-- The options of the command that samples. -/
def sampleForms : List OptionForm :=
  [{ name := "count", letter := some 'c', kind := some .count },
    { name := "max-bits", letter := none, kind := some .bits },
    { name := "seed", letter := some 's', kind := some .count }]

/-- The command that quantizes, with the given options. -/
def quantizeOf? (given : Given) : Option Command := do
  let model ← given.needed "model" path?
  let output ← given.optional "output" path?
  let config ← given.optional "config" path?
  let weightBits ← given.optional "weight-bits" bits?
  some (.quantize model output config weightBits)

/-- The command that evaluates, with the given options. -/
def evaluateOf? (given : Given) : Option Command := do
  let model ← given.needed "model" path?
  let input ← given.needed "input" path?
  let output ← given.optional "output" path?
  let config ← given.optional "config" path?
  let expected ← given.optional "expected" path?
  let tolerance ← given.optional "tolerance" Scan.real?
  some (.evaluate model input output config expected (tolerance.getD (.zero false)))

/-- The command that encodes, with the given options. -/
def encodeOf? (given : Given) : Option Command := do
  let value ← given.needed "value" Scan.real?
  let intBits ← given.needed "int-bits" bits?
  let fracBits ← given.needed "frac-bits" bits?
  some (.encode value intBits fracBits (given.lookup "unsigned").isSome)

/-- The command that samples, with the given options. -/
def sampleOf? (given : Given) : Option Command := do
  let count ← given.optional "count" count?
  let maxBits ← given.optional "max-bits" bits?
  let seed ← given.optional "seed" count?
  some (.sample (count.getD 8) (maxBits.getD 16) (seed.getD 0))

end Command

namespace Call

open Command

/-- The call of a command, given the forms of its options and how they are read. -/
def ofOptions? (forms : List OptionForm) (read : Given → Option Command)
    (arguments : List String) : Option Call :=
  match collect forms [] none arguments with
  | none => none
  | some none => some .help
  | some (some given) => (read given).map .perform

/-- The names that help can be asked about. -/
def topics : List String :=
  ["quantize", "run", "encode", "sample", "help"]

/-- The call that arguments spell.  What stands in front of a command can only be a wish for help or
for the version. -/
def ofArguments? : List String → Option Call
  | "quantize" :: rest => ofOptions? quantizeForms quantizeOf? rest
  | "run" :: rest => ofOptions? evaluateForms evaluateOf? rest
  | "encode" :: rest => ofOptions? encodeForms encodeOf? rest
  | "sample" :: rest => ofOptions? sampleForms sampleOf? rest
  | ["help"] => some .help
  | ["help", topic] => if topics.contains topic then some .help else none
  | argument :: _ =>
    if argument = "--version" || argument.startsWith "-V" then some .version
    else if argument = "--help" || argument.startsWith "-h" then some .help
    else none
  | [] => none

end Call

end DyadicNet
