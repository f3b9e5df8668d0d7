import Mathlib
import DyadicNet.Proofs.Graph.WellFormed
import DyadicNet.Proofs.Quantize.Derived
import DyadicNet.Quantize.Conversion

/-!
# Faults of a conversion

A conversion can fail on the way, because of a convolution that cannot be analyzed, constants that
are no parameters or a name that is taken, and it can fail in the end, because the new graph does not
pass its check.  **Only the last check finds a reference to a name that nothing defines**; no step
before it fails with such an error.

## Main Definitions

* `Error.OfReference` — the errors about references.

## Main Statements

* `avoids_analyzeAll`, `Walk.avoids_nodes` — the analysis and the walk.
-/

namespace DyadicNet.Quantize

/-- The new graph has a reference to a name that nothing defines. -/
def Error.OfReference : Error → Prop
  | .graph error => error.OfReference
  | _ => False

open Error (OfReference)

variable {graph : Graph} {config : Config} {totalBits : ℕ}

/-! ### The settings and the analysis -/

/-- Settings that make no sense are another matter. -/
theorem avoids_validateConfig : Avoids OfReference (config.validate.mapError .graph) := by
  have hwidth : ∀ setting bits,
      Avoids Graph.Error.OfReference (Config.checkWidth setting bits) := by
    intro setting bits
    unfold Config.checkWidth
    split
    · exact avoids_error id
    · exact avoids_ok _ _
  refine Avoids.mapError (P := Graph.Error.OfReference) ?_ fun _ => id
  unfold Config.validate
  refine (hwidth _ _).bind fun _ _ => (hwidth _ _).bind fun _ _ => avoids_check id ?_
  split
  · exact avoids_error id
  · exact avoids_ok _ _

theorem avoids_orFault {α : Type} (node : Node) (fault : NodeFault) (result : Option α) :
    Avoids OfReference (orFault node fault result) := by
  cases result with
  | none => exact avoids_error id
  | some a => exact avoids_ok _ a

theorem avoids_constant? (node : Node) (name : String) :
    Avoids OfReference (constant? graph node name) := by
  unfold constant?
  split
  · exact avoids_ok _ _
  · exact avoids_error id

theorem avoids_finiteValues (node name : String) (tensor : Tensor) :
    Avoids OfReference (finiteValues node name tensor) := by
  unfold finiteValues
  split
  · exact avoids_error id
  · split
    · exact avoids_ok _ _
    · exact avoids_error id

theorem avoids_code (format : FixedPoint.Format) (value : Binary64) :
    Avoids OfReference (code format value) :=
  (avoids_mapError fun _ => id).map _

theorem avoids_analyze (node : String) (weights bias : Tensor) :
    Avoids OfReference (analyze node weights bias totalBits) := by
  unfold analyze
  refine (avoids_finiteValues _ _ _).bind fun _ _ => (avoids_finiteValues _ _ _).bind fun _ _ => ?_
  refine avoids_check id ?_
  refine (avoids_mapError fun _ => id).bind fun format _ => ?_
  refine (avoids_mapM fun value _ => avoids_code format value).bind fun _ _ => ?_
  refine (avoids_mapM fun value _ => avoids_code format value).bind fun _ _ => ?_
  exact (avoids_mapError fun _ => id).bind fun _ _ =>
    (avoids_mapError fun _ => id).bind fun _ _ => avoids_ok _ _

theorem avoids_analyzeConv (node : Node) :
    Avoids OfReference (analyzeConv graph totalBits node) := by
  unfold analyzeConv
  refine (avoids_orFault _ _ _).bind fun _ _ => (avoids_orFault _ _ _).bind fun _ _ => ?_
  refine (avoids_orFault _ _ _).bind fun _ _ => (avoids_orFault _ _ _).bind fun _ _ => ?_
  refine (avoids_constant? _ _).bind fun _ _ => (avoids_constant? _ _).bind fun _ _ => ?_
  exact (avoids_analyze _ _ _).bind fun _ _ => avoids_ok _ _

/-- **The analysis finds no missing references.** -/
theorem avoids_analyzeAll : Avoids OfReference (analyzeAll graph totalBits) := by
  refine avoids_mapM fun node _ => ?_
  split
  · exact (avoids_analyzeConv node).map _
  · exact avoids_ok _ _

/-! ### Parameters -/

namespace Params

theorem avoids_make? (scale : Binary64) (zeroPoint : ℤ) :
    Avoids OfReference (make? scale zeroPoint) := by
  unfold make?
  split
  · exact avoids_error id
  · split
    · exact avoids_error id
    · split
      · exact avoids_ok _ _
      · exact avoids_error id

theorem avoids_scalar? (node name : String) :
    Avoids OfReference ((graph.scalar? node name).mapError .graph) := by
  refine Avoids.mapError (P := Graph.Error.OfReference) ?_ fun _ => id
  unfold Graph.scalar? Graph.constant?
  refine Avoids.bind ?_ fun tensor _ => ?_
  · split
    · exact avoids_ok _ _
    · exact avoids_error id
  · split
    · exact avoids_ok _ _
    · exact avoids_error id

theorem avoids_ofConstants? (node scaleName zeroPointName : String) :
    Avoids OfReference (ofConstants? graph node scaleName zeroPointName) := by
  unfold ofConstants?
  refine (avoids_scalar? _ _).bind fun _ _ => (avoids_scalar? _ _).bind fun _ _ => ?_
  split
  · exact avoids_make? _ _
  · exact avoids_error id

end Params

theorem avoids_propagateScale? (node : String) (input : Params) (mean : Binary64) :
    Avoids OfReference (propagateScale? node input mean totalBits) := by
  unfold propagateScale?
  dsimp only
  split
  · exact Params.avoids_make? _ _
  · exact avoids_error id

/-! ### The walk -/

theorem Derived.avoids_add? (derived : Derived) (node name : String) (tensor : Tensor) :
    Avoids OfReference (derived.add? node name tensor) := by
  rw [add?_eq]
  split
  · exact avoids_error id
  · exact avoids_ok _ _

theorem Derived.avoids_addParams? (derived : Derived) (node name : String) (params : Params)
    (dtype : DType) : Avoids OfReference (derived.addParams? node name params dtype) := by
  have htensors : Avoids OfReference (params.toTensors? dtype) :=
    (avoids_mapError fun _ => id).bind fun _ _ => avoids_ok _ _
  exact htensors.bind fun _ _ => (avoids_add? _ _ _ _).bind fun _ _ => avoids_add? _ _ _ _

theorem Quantizer.avoids_ofNode? (node : Node) :
    Avoids OfReference (Quantizer.ofNode? graph node) := by
  unfold Quantizer.ofNode?
  split
  · exact (Params.avoids_ofConstants? _ _ _).bind fun _ _ => avoids_ok _ _
  · exact avoids_ok _ _

namespace Walk

variable {types : Types}

theorem avoids_addLayer (derived : Derived) (label : String) (layer : Layer) (output : Params) :
    Avoids OfReference (addLayer types derived label layer output) := by
  unfold addLayer
  refine (Derived.avoids_add? _ _ _ _).bind fun _ _ => ?_
  refine (Derived.avoids_addParams? _ _ _ _ _).bind fun _ _ => ?_
  refine (Derived.avoids_addParams? _ _ _ _ _).bind fun _ _ => ?_
  exact (Derived.avoids_add? _ _ _ _).bind fun _ _ => Derived.avoids_addParams? _ _ _ _ _

theorem avoids_conv (walk : Walk) (node : Node) (analyzed : Analyzed) :
    Avoids OfReference (walk.conv types totalBits node analyzed) := by
  have hsource : Avoids OfReference (walk.source types node.label analyzed.input) := by
    unfold Walk.source
    split
    · exact avoids_ok _ _
    · exact (Derived.avoids_addParams? _ _ _ _ _).bind fun _ _ => avoids_ok _ _
  refine hsource.bind fun _ _ => (avoids_propagateScale? _ _ _).bind fun _ _ => ?_
  exact (avoids_addLayer _ _ _ _).bind fun _ _ => avoids_ok _ _

theorem avoids_keep (walk : Walk) (node : Node) : Avoids OfReference (walk.keep graph node) := by
  unfold keep
  split
  · refine (Quantizer.avoids_ofNode? _).bind fun _ _ => ?_
    split
    · split
      · exact avoids_ok _ _
      · exact avoids_ok _ _
    · exact avoids_ok _ _
  · exact avoids_ok _ _

/-- **The walk finds no missing references.** -/
theorem avoids_nodes (walk : Walk) (tagged : List (Node × Option Analyzed)) :
    Avoids OfReference (walk.nodes graph types totalBits tagged) := by
  induction tagged generalizing walk with
  | nil => exact avoids_ok _ _
  | cons entry rest ih =>
    have hnode : Avoids OfReference (walk.node graph types totalBits entry) := by
      obtain ⟨node, tag⟩ := entry
      cases tag with
      | some analyzed => exact avoids_conv walk node analyzed
      | none => exact (avoids_keep walk node).map _
    exact hnode.bind fun _ _ => (ih _).bind fun _ _ => avoids_ok _ _

end Walk

end DyadicNet.Quantize
