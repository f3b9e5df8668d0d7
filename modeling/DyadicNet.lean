import DyadicNet.Binary64.Bits
import DyadicNet.Binary64.Log2
import DyadicNet.Decimal.Layout
import DyadicNet.Decimal.Scan
import DyadicNet.Text.Quoted
import DyadicNet.NameTable
import DyadicNet.Json.Parser
import DyadicNet.Json.Printer
import DyadicNet.Json.TextLayer
import DyadicNet.Json.Standard
import DyadicNet.FixedPoint.SignedPower
import DyadicNet.Random.Draw
import DyadicNet.Random.Samples
import DyadicNet.Random.ChaCha
import DyadicNet.Graph.Stored
import DyadicNet.Graph.SameValues
import DyadicNet.Graph.Validation
import DyadicNet.Config
import DyadicNet.Quantize.Conversion
import DyadicNet.Eval.Kernels
import DyadicNet.Eval.Interpreter
import DyadicNet.Eval.Comparison
import DyadicNet.Main
import DyadicNet.Proofs.Binary64.Magnitude
import DyadicNet.Proofs.Binary64.Arithmetic
import DyadicNet.Proofs.FixedPoint.Range
import DyadicNet.Proofs.FixedPoint.Encoding
import DyadicNet.Proofs.FixedPoint.RoundTrip
import DyadicNet.Proofs.Except
import DyadicNet.Proofs.NameTable
import DyadicNet.Proofs.Tensor
import DyadicNet.Proofs.Graph.Validation
import DyadicNet.Proofs.Eval.Nchw
import DyadicNet.Proofs.Eval.Convolution
import DyadicNet.Proofs.Eval.Kernels
import DyadicNet.Proofs.Eval.Quantized
import DyadicNet.Proofs.Config
import DyadicNet.Proofs.Quantize.Params
import DyadicNet.Proofs.Eval.QuantizedNode
import DyadicNet.Proofs.Quantize.Derived
import DyadicNet.Proofs.Eval.Agreement
import DyadicNet.Proofs.Quantize.Reference
import DyadicNet.Proofs.Quantize.Walk
import DyadicNet.Proofs.Quantize.Assembly
import DyadicNet.Proofs.Quantize.Insertion
import DyadicNet.Proofs.Quantize.Simulation
import DyadicNet.Proofs.Quantize.Preservation
import DyadicNet.Proofs.Eval.Reordering
import DyadicNet.Proofs.Eval.Bindings
import DyadicNet.Proofs.Quantize.Blocks
import DyadicNet.Proofs.Quantize.Frame
import DyadicNet.Proofs.Quantize.ScaleChain
import DyadicNet.Proofs.Eval.Faults
import DyadicNet.Proofs.Eval.MissingValues
import DyadicNet.Proofs.Quantize.Metadata
import DyadicNet.Proofs.Graph.WellFormed
import DyadicNet.Proofs.Quantize.Analysis
import DyadicNet.Proofs.Quantize.Shifts
import DyadicNet.Proofs.Quantize.Names
import DyadicNet.Proofs.Quantize.DataInputs
import DyadicNet.Proofs.Quantize.Faults
import DyadicNet.Proofs.Quantize.References
import DyadicNet.Proofs.Quantize.Success
import DyadicNet.Proofs.Quantize.Idempotence
import DyadicNet.Proofs.Quantize.Construction
import DyadicNet.Proofs.Eval.Dataflow
import DyadicNet.Proofs.Eval.Handover
import DyadicNet.Proofs.Quantize.Handover
import DyadicNet.Proofs.Eval.Accumulator
import DyadicNet.Proofs.Quantize.Accumulator
import DyadicNet.Proofs.Binary64.Zero
import DyadicNet.Proofs.Eval.Zero
import DyadicNet.Proofs.Quantize.Zero
import DyadicNet.Proofs.Decimal.Digits
import DyadicNet.Proofs.Decimal.Shortest
import DyadicNet.Proofs.Decimal.Layout
import DyadicNet.Proofs.Json.TextLayer
import DyadicNet.Proofs.Json.Scalars
import DyadicNet.Proofs.Json.Pretty
import DyadicNet.Proofs.Json.Schema
import DyadicNet.Proofs.Tensor.Stored
import DyadicNet.Proofs.Graph.Stored
import DyadicNet.Proofs.Shift
import DyadicNet.Proofs.Eval.Quantizing
import DyadicNet.Proofs.FixedPoint.Vectors
import DyadicNet.Proofs.Quantize.Statistics
import DyadicNet.Proofs.Binary64.Logarithm
import DyadicNet.Proofs.Quantize.Coverage
import DyadicNet.Proofs.Quantize.Propagation
import DyadicNet.Proofs.Graph.FirstFault
import DyadicNet.Proofs.Eval.Pooling
import DyadicNet.Proofs.Binary64.Order
import DyadicNet.Proofs.Eval.Rectifying
import DyadicNet.Proofs.Eval.Averaging
import DyadicNet.Proofs.Eval.Containment
import DyadicNet.Proofs.Eval.Dequantizing
import DyadicNet.Proofs.Binary64.Difference
import DyadicNet.Proofs.Eval.Comparison
import DyadicNet.Proofs.Eval.KernelShape
import DyadicNet.Proofs.FixedPoint.SignedPower
import DyadicNet.Proofs.Quantize.Additions
import DyadicNet.Proofs.Eval.Rows
import DyadicNet.Proofs.Tensor.Parts
import DyadicNet.Proofs.Eval.Representation
import DyadicNet.Proofs.Binary64.Encoding
