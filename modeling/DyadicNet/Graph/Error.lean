import DyadicNet.Graph.Attribute
import DyadicNet.Graph.Padding

/-!
# What can be wrong with a graph

Errors are causes: a constructor per cause, with what a message needs to know.  The wording is in
one function.

* `Graph.Error` — the causes; `Graph.Error.message` — their wording;
* `AttributeFault`, `ConfigFault`, `FileFault` — the finer causes inside some of them.
-/

namespace DyadicNet

/-- What is wrong with the value of an attribute. -/
inductive AttributeFault where
  | notInt (value : Attribute)
  | notInts (value : Attribute)
  | notReal (value : Attribute)
  /-- The numbers are not one or two positive ones. -/
  | notPair (values : List Int)
  | padding (fault : Padding.Fault)
deriving DecidableEq

/-- The wording of a fault. -/
def AttributeFault.message : AttributeFault → String
  | .notInt value =>
    let value := value.shown
    s!"expected an int, got {value}"
  | .notInts value =>
    let value := value.shown
    s!"expected ints, got {value}"
  | .notReal value =>
    let value := value.shown
    s!"expected a float, got {value}"
  | .notPair values =>
    let values := listing values
    s!"expected two positive values, got {values}"
  | .padding fault => fault.message

/-- What is wrong with a configuration. -/
inductive ConfigFault where
  /-- A width is not one of a codeword. -/
  | width (setting : String) (bits : Nat)
  /-- The scale of the input is not a positive power of two. -/
  | inputScale (value : Binary64)
  /-- The slope is not between zero and one. -/
  | slope (value : Binary64)
deriving DecidableEq

/-- The wording of a fault. -/
def ConfigFault.message : ConfigFault → String
  | .width setting bits => s!"{setting} ({bits}) must be within 1..=32"
  | .inputScale value =>
    let value := Layout.plain.text value
    s!"input_scale ({value}) must be a positive power of two"
  | .slope value =>
    let value := Layout.plain.text value
    s!"leaky_relu_slope ({value}) must be within (0, 1)"

/-- Why a file cannot be read or written. -/
inductive FileFault where
  | notFound
  | notDirectory
  | isDirectory
  /-- The device has no room for more. -/
  | noRoom
  | nameTooLong
  /-- A name has a character that ends names. -/
  | nulInName
  /-- Any other reason, in the words of the system. -/
  | other (reason : String)
deriving DecidableEq

/-- The wording of a fault. -/
def FileFault.message : FileFault → String
  | .notFound => "No such file or directory (os error 2)"
  | .notDirectory => "Not a directory (os error 20)"
  | .isDirectory => "Is a directory (os error 21)"
  | .noRoom => "No space left on device (os error 28)"
  | .nameTooLong => "File name too long (os error 36)"
  | .nulInName => "file name contained an unexpected NUL byte"
  | .other reason => reason

/-- Why a graph, a part of it or its configuration is refused. -/
inductive Graph.Error where
  | file (fault : FileFault)
  | json (failure : Json.Failure Tensor.Error)
  | tensor (error : Tensor.Error)
  /-- A node needs a constant that is not there. -/
  | missingInitializer (node name : String)
  /-- A node reads a name that nothing before it defines. -/
  | unresolvedInput (node name : String)
  /-- A graph output is a name that nothing defines. -/
  | unresolvedOutput (name : String)
  /-- A node writes a name that is defined already. -/
  | duplicateOutput (node name : String)
  | missingAttribute (node name : String)
  | invalidAttribute (node name : String) (fault : AttributeFault)
  | config (fault : ConfigFault)
deriving DecidableEq

namespace Graph.Error

/-- The message of a refused JSON text; only a described value that does not exist has one. -/
def failureMessage : Json.Failure Tensor.Error → String
  | .malformed => "malformed text"
  | .rejected error => error.message

/-- The message of an error. -/
def message : Graph.Error → String
  | .file fault =>
    let reason := fault.message
    s!"IO error: {reason}"
  | .json failure =>
    let reason := failureMessage failure
    s!"JSON error: {reason}"
  | .tensor error => error.message
  | .missingInitializer node name => s!"Node '{node}' references missing initializer '{name}'"
  | .unresolvedInput node name =>
    s!"Node '{node}' reads '{name}', which is neither a graph input, an initializer "
      ++ "nor an earlier output"
  | .unresolvedOutput name => s!"Graph output '{name}' is never produced"
  | .duplicateOutput node name => s!"Node '{node}' writes '{name}', which is already defined"
  | .missingAttribute node name => s!"Node '{node}' is missing attribute '{name}'"
  | .invalidAttribute node name fault =>
    let reason := fault.message
    s!"Node '{node}' has invalid attribute '{name}': {reason}"
  | .config fault =>
    let reason := fault.message
    s!"Config error: {reason}"

end Graph.Error

end DyadicNet
