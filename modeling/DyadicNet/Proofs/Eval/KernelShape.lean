import Mathlib
import DyadicNet.Proofs.Eval.QuantizedNode

/-!
# Declared windows

A node may declare the extents of its window, and the declaration is read in two places.  The
operators that need a window take it from `Node.kernelShape?`, for which one number stands for two
equal ones.  A quantized convolution has its window in the shape of the weights, and compares the
declared numbers with that.  **The two agree on every declaration but a single number**, which a
quantized convolution refuses, whatever the weights are.

The comparison is one of 64-bit integers.  Only weights without elements can have an extent that is
larger than those, and then the two readers do not agree either.

## Main Definitions

* `Attribute.integers?` — the numbers that an attribute declares.

## Main Statements

* `Node.kernelShape?_eq_ok_iff`, `checkKernel_eq_ok_iff` — the two readers;
* `checkKernel_iff_kernelShape?` — where they agree;
* `checkKernel_ne_kernelShape?` — a single number.
-/

namespace DyadicNet

/-- The integers that an attribute consists of, if it consists of integers. -/
def Attribute.integers? : Attribute → Option (List ℤ)
  | .int value => some [value]
  | .ints values => some values
  | .real _ | .reals _ | .text _ => none

variable {node : Node} {name : String} {declared : Attribute} {values : List ℤ}

namespace Node

variable {extents : Extents}

theorem ints?_eq_ok_iff (h : node.attributes.get? name = some declared) :
    node.ints? name = .ok (some values) ↔ declared.integers? = some values := by
  unfold ints?
  rw [h]
  cases declared <;> simp [Attribute.integers?]

/-- An attribute that is there is not overlooked. -/
theorem ints?_ne_none (h : node.attributes.get? name = some declared) :
    node.ints? name ≠ .ok none := by
  unfold ints?
  rw [h]
  cases declared <;> simp

/-- The extents of a pair are given by two positive numbers, or by one for both. -/
theorem pair?_eq_ok_iff (h : node.attributes.get? name = some declared) :
    node.pair? name = .ok (some extents) ↔ 0 < extents.height ∧ 0 < extents.width ∧
      (declared.integers? = some [(extents.height : ℤ), (extents.width : ℤ)] ∨
        extents.height = extents.width ∧ declared.integers? = some [(extents.height : ℤ)]) := by
  unfold pair?
  rw [bind_eq_ok_iff]
  constructor
  · rintro ⟨given, hgiven, hpair⟩
    cases given with
    | none => exact absurd hgiven (ints?_ne_none h)
    | some values =>
      have hvalues := (ints?_eq_ok_iff h).mp hgiven
      rcases values with _ | ⟨k, _ | ⟨w, _ | ⟨third, rest⟩⟩⟩
      · cases hpair
      · dsimp only at hpair
        split_ifs at hpair with hpos
        cases hpair
        dsimp only
        rw [Int.toNat_of_nonneg hpos.le]
        exact ⟨by omega, by omega, .inr ⟨rfl, hvalues⟩⟩
      · dsimp only at hpair
        split_ifs at hpair with hpos
        cases hpair
        dsimp only
        rw [Int.toNat_of_nonneg hpos.1.le, Int.toNat_of_nonneg hpos.2.le]
        exact ⟨by omega, by omega, .inl hvalues⟩
      · cases hpair
  · obtain ⟨height, width⟩ := extents
    dsimp only
    rintro ⟨hheight, hwidth, hvalues | ⟨rfl, hvalues⟩⟩
    · refine ⟨_, (ints?_eq_ok_iff h).mpr hvalues, ?_⟩
      dsimp only
      rw [if_pos ⟨by omega, by omega⟩]
      rfl
    · refine ⟨_, (ints?_eq_ok_iff h).mpr hvalues, ?_⟩
      dsimp only
      rw [if_pos (by omega)]
      rfl

/-- The window of an operator that needs one. -/
theorem kernelShape?_eq_ok_iff (h : node.attributes.get? "kernel_shape" = some declared) :
    node.kernelShape? = .ok extents ↔ 0 < extents.height ∧ 0 < extents.width ∧
      (declared.integers? = some [(extents.height : ℤ), (extents.width : ℤ)] ∨
        extents.height = extents.width ∧ declared.integers? = some [(extents.height : ℤ)]) := by
  rw [← pair?_eq_ok_iff h]
  unfold kernelShape?
  rw [bind_eq_ok_iff]
  constructor
  · rintro ⟨given, hgiven, hshape⟩
    cases given with
    | none => cases hshape
    | some found =>
      cases hshape
      exact hgiven
  · exact fun hpair => ⟨_, hpair, rfl⟩

end Node

namespace Eval

variable {ws : Nchw}

/-- The window of a quantized convolution: the two numbers of the weights, as 64-bit integers. -/
theorem checkKernel_eq_ok_iff (h : node.attributes.get? "kernel_shape" = some declared) :
    checkKernel node ws = .ok () ↔
      declared.integers? = some [wrap64 ws.height, wrap64 ws.width] := by
  unfold checkKernel ofGraph
  rw [bind_eq_ok_iff]
  simp only [mapError_eq_ok_iff]
  constructor
  · rintro ⟨given, hgiven, hcheck⟩
    cases given with
    | none => exact absurd hgiven (Node.ints?_ne_none h)
    | some values =>
      dsimp only at hcheck
      split_ifs at hcheck with hdifferent
      rw [(Node.ints?_eq_ok_iff h).mp hgiven, not_not.mp hdifferent]
  · intro hvalues
    refine ⟨_, (Node.ints?_eq_ok_iff h).mpr hvalues, ?_⟩
    exact if_neg (not_not.mpr rfl)

/-- **Two readers of one declaration.**  A quantized convolution accepts the declared numbers exactly
if they are the extents of the weights, and `Node.kernelShape?` reads them, or a single one for both.
So a quantized convolution accepts what `Node.kernelShape?` reads as the extents of the weights,
unless it is a single number. -/
theorem checkKernel_iff_kernelShape? (h : node.attributes.get? "kernel_shape" = some declared)
    (hheight : 0 < ws.height) (hwidth : 0 < ws.width) :
    (checkKernel node ws = .ok () ↔
      declared.integers? = some [wrap64 ws.height, wrap64 ws.width]) ∧
    (node.kernelShape? = .ok ⟨ws.height, ws.width⟩ ↔
      declared.integers? = some [(ws.height : ℤ), (ws.width : ℤ)] ∨
        ws.height = ws.width ∧ declared.integers? = some [(ws.height : ℤ)]) ∧
    (Fits64 ws.height → Fits64 ws.width →
      (checkKernel node ws = .ok () ↔
        node.kernelShape? = .ok ⟨ws.height, ws.width⟩ ∧ ∀ k, declared.integers? ≠ some [k])) := by
  have hcheck : checkKernel node ws = .ok () ↔
      declared.integers? = some [wrap64 ws.height, wrap64 ws.width] := checkKernel_eq_ok_iff h
  have hshape : node.kernelShape? = .ok ⟨ws.height, ws.width⟩ ↔
      declared.integers? = some [(ws.height : ℤ), (ws.width : ℤ)] ∨
        ws.height = ws.width ∧ declared.integers? = some [(ws.height : ℤ)] := by
    rw [Node.kernelShape?_eq_ok_iff h]
    exact ⟨fun hall => hall.2.2, fun hdeclared => ⟨hheight, hwidth, hdeclared⟩⟩
  refine ⟨hcheck, hshape, fun hfits hfits' => ?_⟩
  rw [hcheck, hshape, hfits.wrap64_eq, hfits'.wrap64_eq]
  constructor
  · intro hpair
    refine ⟨.inl hpair, fun k hsingle => ?_⟩
    rw [hpair] at hsingle
    cases hsingle
  · rintro ⟨hpair | ⟨-, hsingle⟩, hseveral⟩
    · exact hpair
    · exact absurd hsingle (hseveral _)

namespace Interpreter

/-- A quantized convolution with one column of padding on the right. -/
def halfNode : Node :=
  { operator := .qlinearConv
    name := "conv"
    inputs := ["x", "s", "z", "w", "s", "z", "s", "z"]
    outputs := ["y"]
    attributes := .ofList [("pads", .ints [0, 0, 0, 1])] }

/-- A graph with this node, in which all scales are one half and the only weight is three. -/
def halfGraph : Graph :=
  { name := "half"
    opset := 11
    inputs := [.ofName "x"]
    outputs := [.ofName "y"]
    nodes := [halfNode]
    initializers := .ofList
      [("s", tieScale (-1)), ("w", ⟨[1, 1, 1, 1], .ints .i8 #[3], by decide, by decide +kernel⟩),
        ("z", .zeroPoint)] }

/-- The number five as a tensor. -/
def halfData : Tensor :=
  ⟨[1, 1, 1, 1], .ints .i16 #[5], by decide, by decide +kernel⟩

/-- What its convolution is computed from. -/
def halfOperands : Operands :=
  { data := #[5]
    dataShape := ⟨1, 1, 1, 1⟩
    dataParams := .ofExponent (-1)
    weights := #[3]
    weightShape := ⟨1, 1, 1, 1⟩
    weightParams := .ofExponent (-1)
    bias := #[0]
    outputParams := .ofExponent (-1)
    type := .i16
    bits := 16
    padding := ⟨0, 0, 0, 1⟩
    padded := #[5, 0]
    paddedShape := ⟨1, 1, 1, 2⟩
    stride := ⟨1, 1⟩ }

end Interpreter

/-- A convolution that declares its window. -/
def declaring (declared : Attribute) : Node :=
  { Interpreter.halfNode with
    attributes := Interpreter.halfNode.attributes.insert "kernel_shape" declared }

theorem get?_declaring (declared : Attribute) :
    (declaring declared).attributes.get? "kernel_shape" = some declared :=
  NameTable.get?_insert_self _ _ _

/-- Three rows and two columns, declared for weights of that size. -/
theorem checkKernel_iff_kernelShape?_pair :
    ((declaring (.ints [3, 2])).attributes.get? "kernel_shape" = some (.ints [3, 2]) ∧
        0 < (⟨4, 1, 3, 2⟩ : Nchw).height ∧ 0 < (⟨4, 1, 3, 2⟩ : Nchw).width) ∧
      checkKernel (declaring (.ints [3, 2])) ⟨4, 1, 3, 2⟩ = .ok () ∧
      (declaring (.ints [3, 2])).kernelShape? = .ok ⟨3, 2⟩ := by
  have hdeclared := get?_declaring (.ints [3, 2])
  have hheight : 0 < (⟨4, 1, 3, 2⟩ : Nchw).height := by decide
  have hwidth : 0 < (⟨4, 1, 3, 2⟩ : Nchw).width := by decide
  obtain ⟨hcheck, hshape, -⟩ := checkKernel_iff_kernelShape? hdeclared hheight hwidth
  exact ⟨⟨hdeclared, hheight, hwidth⟩, hcheck.mpr (by decide), hshape.mpr (.inl (by decide))⟩

/-- **A single number is read in two ways.**  For a window of one element, `Node.kernelShape?` takes it
as the extents of the weights; a quantized convolution refuses it, and would accept it if it were
written twice. -/
theorem checkKernel_ne_kernelShape? :
    let interpreter : Interpreter := ⟨Interpreter.halfGraph, {}⟩
    (declaring (.int 1)).kernelShape? = .ok ⟨1, 1⟩ ∧
      (declaring (.ints [1])).kernelShape? = .ok ⟨1, 1⟩ ∧
      interpreter.operands (declaring (.int 1)) Interpreter.halfData
        = .error (.invalidInput (.kernel "conv" [1] [1, 1, 1, 1])) ∧
      interpreter.operands (declaring (.ints [1])) Interpreter.halfData
        = .error (.invalidInput (.kernel "conv" [1] [1, 1, 1, 1])) ∧
      interpreter.operands (declaring (.ints [1, 1])) Interpreter.halfData
        = .ok Interpreter.halfOperands := by
  decide +kernel

end Eval

end DyadicNet
