import DyadicNet.Decimal.Scan
import DyadicNet.FixedPoint.Format
import DyadicNet.Graph.Error

/-!
# Configuration

The settings that quantization and evaluation share.  They come from defaults, a file and the
environment, in this order; a setting in the environment that cannot be read is ignored.  Settings
are checked only when they are used.

## Main definitions

* `Config` — the settings, with their defaults;
* `Config.validate` — whether they make sense;
* `Config.ofText?`, `Config.toJson` — the stored form;
* `Config.override` — the settings with those of an environment in their place.
-/

namespace DyadicNet

/-- The settings of a quantization. -/
structure Config where
  /-- The width of weights and biases; it also bounds the output scales. -/
  weightBits : Nat := 8
  /-- The width of quantized activations. -/
  activationBits : Nat := 16
  /-- The slope of a leaky rectifier that does not give one. -/
  leakyReluSlope : Binary64 := .ofRat (1 / 8)
  /-- The version of the set of operators that a quantized graph uses. -/
  quantizedOpset : Int := 11
  /-- The scale of the first quantized activation. -/
  inputScale : Binary64 := .ofInt 1
deriving DecidableEq

namespace Config

instance : Inhabited Config := ⟨{}⟩

/-! ### Validity -/

/-- Whether a width is one of a codeword. -/
def checkWidth (setting : String) (bits : Nat) : Except Graph.Error Unit :=
  if bits = 0 ∨ FixedPoint.maxTotalBits < bits then .error (.config (.width setting bits))
  else .ok ()

/-- Whether the settings make sense; if they do not, the first fault. -/
def validate (config : Config) : Except Graph.Error Unit := do
  let zero := Binary64.zero false
  checkWidth "weight_bits" config.weightBits
  checkWidth "activation_bits" config.activationBits
  if !(zero.lt config.inputScale && config.inputScale.isPowerOfTwo) then
    .error (.config (.inputScale config.inputScale))
  if !(zero.lt config.leakyReluSlope && config.leakyReluSlope.lt (.ofInt 1)) then
    .error (.config (.slope config.leakyReluSlope))

/-! ### Storage -/

/-- The stored form of the settings. -/
def toJson (config : Config) : Json :=
  .ofMembers
    [("weight_bits", .ofNat config.weightBits), ("activation_bits", .ofNat config.activationBits),
      ("leaky_relu_slope", .ofReal config.leakyReluSlope),
      ("quantized_opset", .ofInt config.quantizedOpset),
      ("input_scale", .ofReal config.inputScale)]

/-- The fields of stored settings. -/
def fields [Json.TextLayer] {ε : Type} : List (Json.Field ε Config) :=
  [.defaulted "weight_bits" (Json.scalar (Json.toNat? 8))
      fun v draft => { draft with weightBits := v },
    .defaulted "activation_bits" (Json.scalar (Json.toNat? 8))
      fun v draft => { draft with activationBits := v },
    .defaulted "leaky_relu_slope" (Json.scalar Json.toReal?)
      fun v draft => { draft with leakyReluSlope := v },
    .defaulted "quantized_opset" (Json.scalar (Json.toInt? (signedMin 64) (signedMax 64)))
      fun v draft => { draft with quantizedOpset := v },
    .defaulted "input_scale" (Json.scalar Json.toReal?)
      fun v draft => { draft with inputScale := v }]

/-- The settings that a text stores. -/
def ofText? [Json.TextLayer] (text : String) : Except Graph.Error Config :=
  (Json.decode (Json.record fields {}) text).mapError .json

/-! ### Environment -/

/-- The names of the settings in an environment. -/
def settingNames : List String :=
  ["FIXCNN_WEIGHT_BITS", "FIXCNN_ACTIVATION_BITS", "FIXCNN_LEAKY_RELU_SLOPE",
    "FIXCNN_QUANTIZED_OPSET", "FIXCNN_INPUT_SCALE"]

/-- The settings with those of an environment in their place. -/
def override (config : Config) (environment : String → Option String) : Config :=
  let setting {α : Type} (name : String) (read : String → Option α) (previous : α) : α :=
    ((environment name).bind fun text => read (trimBlank text)).getD previous
  { weightBits := setting "FIXCNN_WEIGHT_BITS" (Scan.nat? 255) config.weightBits
    activationBits := setting "FIXCNN_ACTIVATION_BITS" (Scan.nat? 255) config.activationBits
    leakyReluSlope := setting "FIXCNN_LEAKY_RELU_SLOPE" Scan.real? config.leakyReluSlope
    quantizedOpset :=
      setting "FIXCNN_QUANTIZED_OPSET" (Scan.int? (signedMin 64) (signedMax 64))
        config.quantizedOpset
    inputScale := setting "FIXCNN_INPUT_SCALE" Scan.real? config.inputScale }

end Config

end DyadicNet
