import DyadicNet.Eval.Error

/-!
# Why a command fails

A failure says what the program was about to do, and what went wrong in it.  The causes of a failure
are the messages of the errors inside it, from the outside to the inside.

* `Failure` — the failures; `Failure.message` — what they say first;
* `Failure.causes` — the messages of the errors inside;
* `Failure.report` — all of it, line by line.
-/

namespace DyadicNet

/-- The messages of the errors inside an error of a graph. -/
def Graph.Error.causes : Graph.Error → List String
  | .file fault => [fault.message]
  | .json failure => [failureMessage failure]
  | _ => []

/-- The messages of the errors inside an error of a quantization. -/
def Quantize.Error.causes : Quantize.Error → List String
  | .graph error => error.message :: error.causes
  | .fixedPoint error => [error.message]
  | _ => []

/-- The messages of the errors inside an error of an evaluation. -/
def Eval.Error.causes : Eval.Error → List String
  | .graph error => error.message :: error.causes
  | .quantize error => error.message :: error.causes
  | .fixedPoint error => [error.message]
  | _ => []

namespace Command

/-- Why a command fails. -/
inductive Failure where
  /-- The settings cannot be loaded. -/
  | loadConfig (path : String) (error : Graph.Error)
  /-- A graph cannot be loaded. -/
  | loadGraph (path : String) (error : Graph.Error)
  /-- A loaded graph is not a valid one. -/
  | malformedGraph (path : String) (error : Graph.Error)
  /-- The settings make no sense. -/
  | invalidConfig (error : Quantize.Error)
  | quantization (graph : String) (error : Quantize.Error)
  | storeGraph (path : String) (error : Graph.Error)
  | readFile (path : String) (fault : FileFault)
  /-- A file does not hold a tensor. -/
  | invalidTensor (path : String) (failure : Json.Failure Tensor.Error)
  | evaluation (graph : String) (error : Eval.Error)
  | writeFile (path : String) (fault : FileFault)
  /-- An error that speaks for itself. -/
  | evaluator (error : Eval.Error)
  | fixedPoint (error : FixedPoint.Error)
  /-- The result is not the expected one. -/
  | unexpected (path : String)
deriving DecidableEq

namespace Failure

/-- What a failure says first. -/
def message : Failure → String
  | .loadConfig path _ => s!"failed to load config {path}"
  | .loadGraph path _ => s!"failed to load graph {path}"
  | .malformedGraph path _ => s!"graph {path} is malformed"
  | .invalidConfig _ => "invalid quantization config"
  | .quantization graph _ => s!"failed to quantize {graph}"
  | .storeGraph path _ => s!"failed to write {path}"
  | .readFile path _ => s!"failed to read {path}"
  | .invalidTensor path _ => s!"invalid tensor in {path}"
  | .evaluation graph _ => s!"failed to run {graph}"
  | .writeFile path _ => s!"failed to write {path}"
  | .evaluator error => error.message
  | .fixedPoint error => error.message
  | .unexpected path => s!"output differs from {path}"

/-- The messages of the errors inside a failure. -/
def causes : Failure → List String
  | .loadConfig _ error => error.message :: error.causes
  | .loadGraph _ error => error.message :: error.causes
  | .malformedGraph _ error => error.message :: error.causes
  | .invalidConfig error => error.message :: error.causes
  | .quantization _ error => error.message :: error.causes
  | .storeGraph _ error => error.message :: error.causes
  | .readFile _ fault => [fault.message]
  | .invalidTensor _ failure => [Graph.Error.failureMessage failure]
  | .evaluation _ error => error.message :: error.causes
  | .writeFile _ fault => [fault.message]
  | .evaluator error => error.causes
  | .fixedPoint _ => []
  | .unexpected _ => []

/-- The lines that tell of a failure.  Several causes are numbered from zero. -/
def report (failure : Failure) : List String :=
  let first := "Error: " ++ failure.message
  match failure.causes with
  | [] => [first]
  | [cause] => [first, "", "Caused by:", "    " ++ cause]
  | causes => first :: "" :: "Caused by:" :: causes.mapIdx fun i cause => s!"    {i}: {cause}"

end Failure

end Command

end DyadicNet
