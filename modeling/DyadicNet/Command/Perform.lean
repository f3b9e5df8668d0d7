import DyadicNet.Command.Arguments
import DyadicNet.Command.Failure
import DyadicNet.Command.FileTable
import DyadicNet.Decimal.Fixed
import DyadicNet.Eval.Comparison
import DyadicNet.Eval.Interpreter
import DyadicNet.Graph.Stored
import DyadicNet.Json.Standard
import DyadicNet.Quantize.Conversion
import DyadicNet.Random.ChaCha
import DyadicNet.Random.Samples

/-!
# Performing commands

A command reads files, writes files and says lines.  These three are all that it needs of its
surroundings, so it is written for **any monad that has them**: for the real files in the program,
and for files in memory, which are a state, in statements about commands.

## Main definitions

* `Host` — what a command needs of its surroundings;
* `Desk` — surroundings in memory;
* `Command.perform` — what a command does;
* `Call.answer` — what a call does, and whether it succeeds.
-/

namespace DyadicNet

/-- Files that can be read and written, and a place to say lines. -/
class Host (m : Type → Type) where
  read : String → m (Except FileFault String)
  write : String → String → m (Except FileFault Unit)
  say : String → m Unit

/-- Surroundings in memory: the files, and what was said. -/
structure Desk where
  files : FileTable
  output : String
deriving DecidableEq

namespace Desk

/-- The desk after more was said. -/
def saying (desk : Desk) (text : String) : Desk :=
  { desk with output := desk.output ++ text }

/-- The desk after writing to a path. -/
def write (desk : Desk) (path content : String) : Except FileFault Desk := do
  match ← desk.files.target path with
  | .directory => .error .isDirectory
  | .device .full => .error .noRoom
  | .device .null => .ok desk
  | .device .output => .ok (desk.saying content)
  | .file key _ | .vacant key => .ok { desk with files := desk.files.insert key content }

end Desk

instance : Host (StateM Desk) where
  read path := do return (← get).files.read path
  write path content := do
    match (← get).write path content with
    | .ok desk => set desk; return .ok ()
    | .error fault => return .error fault
  say line := modify fun desk => desk.saying (line ++ "\n")

namespace Command

variable {m : Type → Type} [Monad m] [Host m]

/-- A result, or the failure that its error stands for. -/
def orFail {ε α : Type} (failure : ε → Failure) (result : Except ε α) : ExceptT Failure m α :=
  ExceptT.mk (pure (result.mapError failure))

/-- The content of a file. -/
def readFile (failure : FileFault → Failure) (path : String) : ExceptT Failure m String :=
  ExceptT.mk do return (← Host.read path).mapError failure

/-- Writing a file. -/
def writeFile (failure : FileFault → Failure) (path content : String) : ExceptT Failure m Unit :=
  ExceptT.mk do return (← Host.write path content).mapError failure

/-- Saying a line. -/
def say (line : String) : ExceptT Failure m Unit :=
  ExceptT.lift (Host.say line)

/-! ### Loading -/

/-- What a reader makes of the content of a file. -/
def load {α : Type} (read : String → Except Graph.Error α) (failure : Graph.Error → Failure)
    (path : String) : ExceptT Failure m α := do
  let content ← readFile (failure ∘ .file) path
  orFail failure (read content)

/-- The settings: the defaults, or a file, and the environment in place of either. -/
def loadConfig (environment : String → Option String) (path : Option String) :
    ExceptT Failure m Config := do
  let config ←
    match path with
    | some path => load Config.ofText? (.loadConfig path) path
    | none => pure default
  return config.override environment

/-- A valid graph from a file. -/
def loadGraph (path : String) : ExceptT Failure m Graph := do
  let graph ← load Graph.ofText? (.loadGraph path) path
  orFail (.malformedGraph path) graph.validate
  return graph

/-- A tensor from a file. -/
def loadTensor (path : String) : ExceptT Failure m Tensor := do
  let content ← readFile (.readFile path) path
  orFail (.invalidTensor path) (Json.decode Tensor.ofJson content)

/-! ### Commands -/

/-- The default path of a quantized graph: beside the model, under the name of the graph. -/
def quantizedPath (model : String) (graph : Graph) : String :=
  Path.beside model (graph.name ++ "_quantized.json")

/-- Storing the quantized form of a graph. -/
def performQuantize (environment : String → Option String) (model : String)
    (output config : Option String) (weightBits : Option Nat) : ExceptT Failure m Unit := do
  let loaded ← loadConfig environment config
  let config := { loaded with weightBits := weightBits.getD loaded.weightBits }
  let graph ← loadGraph model
  orFail (.invalidConfig ∘ .graph) config.validate
  let report ← orFail (.quantization graph.name) (Quantize.convert config graph)
  let path := output.getD (quantizedPath model graph)
  writeFile (.storeGraph path ∘ .file) path report.graph.toText
  let count := report.layers.length
  say s!"Quantized {count} convolution(s) of '{graph.name}' -> {path}"

/-- How far a result agrees with what was expected. -/
def comparisonLine (comparison : Eval.Comparison) : String :=
  let matching := comparison.total - comparison.mismatches
  let total := comparison.total
  let tolerance := Layout.plain.text comparison.tolerance
  let largest := Fixed.text 6 comparison.maxAbsError
  let mean := Fixed.text 6 comparison.meanAbsError
  s!"{matching}/{total} elements within {tolerance} (max error {largest}, mean error {mean})"

/-- Comparing a result with the expected one. -/
def performComparison (result : Tensor) (expected : String) (tolerance : Binary64) :
    ExceptT Failure m Unit := do
  let reference ← loadTensor expected
  let comparison ← orFail .evaluator (Eval.compare? reference result tolerance)
  say (comparisonLine comparison)
  if !comparison.passed then throw (.unexpected expected)

/-- Evaluating a graph on a tensor.  The result is written or said, then compared. -/
def performEvaluate (environment : String → Option String) (model input : String)
    (output config expected : Option String) (tolerance : Binary64) : ExceptT Failure m Unit := do
  let config ← loadConfig environment config
  let graph ← loadGraph model
  let x ← loadTensor input
  let interpreter ← orFail .evaluator (Eval.Interpreter.make? graph config)
  let result ← orFail (.evaluation graph.name) (interpreter.run? x)
  match output with
  | some path => writeFile (.writeFile path) path (Json.TextLayer.pretty result.toJson)
  | none => say (Json.TextLayer.compact result.toJson)
  match expected with
  | some path => performComparison result path tolerance
  | none => pure ()

/-- Showing the codeword of a value. -/
def performEncode (value : Binary64) (intBits fracBits : Nat) (unsigned : Bool) :
    ExceptT Failure m Unit := do
  let format ← orFail .fixedPoint (FixedPoint.Format.make? (!unsigned) intBits fracBits)
  let code ← orFail .fixedPoint (FixedPoint.encode format value)
  let decoded := FixedPoint.decode format code
  say ("format:  " ++ format.text)
  say ("code:    " ++ toString code.toNat)
  say ("binary:  " ++ FixedPoint.bitsText format code)
  say ("decoded: " ++ Layout.plain.text decoded)

/-- Showing random codewords of a random format. -/
def performSample (count maxBits seed : Nat) : ExceptT Failure m Unit := do
  let draw : Draw FixedPoint.FixedVector := do
    let format ← FixedPoint.randomFormat maxBits
    FixedPoint.randomVector count format
  let (vector, _) := draw.run (ChaCha.ofSeed (UInt64.ofNat seed))
  say ("format: " ++ vector.format.text)
  for code in vector.codes do
    let value := Layout.plain.text (FixedPoint.decode vector.format code)
    say (FixedPoint.bitsText vector.format code ++ "  " ++ value)

/-- What a command does, in a given environment. -/
def perform (environment : String → Option String) : Command → ExceptT Failure m Unit
  | .quantize model output config weightBits =>
    performQuantize environment model output config weightBits
  | .evaluate model input output config expected tolerance =>
    performEvaluate environment model input output config expected tolerance
  | .encode value intBits fracBits unsigned => performEncode value intBits fracBits unsigned
  | .sample count maxBits seed => performSample count maxBits seed

end Command

namespace Call

variable {m : Type → Type} [Monad m] [Host m]

/-- The name and the version of the program. -/
def versionLine : String :=
  "fixcnn 0.1.0"

/-- The commands with their options. -/
def usageLines : List String :=
  ["Power-of-two fixed-point quantization for CNN graphs",
    "",
    "Usage: fixcnn <COMMAND>",
    "",
    "  quantize --model PATH [--output PATH] [--config PATH] [--weight-bits N]",
    "  run --model PATH --input PATH [--output PATH] [--config PATH]",
    "    [--expected PATH] [--tolerance X]",
    "  encode --value X --int-bits N --frac-bits N [--unsigned]",
    "  sample [--count N] [--max-bits N] [--seed N]"]

/-- What a call does, in a given environment. -/
def answer (environment : String → Option String) : Call → ExceptT Command.Failure m Unit
  | .version => Command.say versionLine
  | .help => usageLines.forM Command.say
  | .perform command => command.perform environment

end Call

end DyadicNet
