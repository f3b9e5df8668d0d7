import Mathlib
import DyadicNet.Proofs.Eval.Containment
import DyadicNet.Proofs.Eval.Quantizing

/-!
# Before and after the scale

Rectifiers, padding and pooling for the largest element do not compute anything new: they choose
among the elements and zero, by the order of the elements.  So they do **the same to integers as to
the numbers that the integers stand for**.

The product with a scale is rounded twice, when the integer becomes a double and when the product
does, and it can be infinite.  It keeps the order all the same, but not strictly: different integers
may stand for the same number, and a window may have its largest integer in another place than its
largest number.  What matters is that it can only be a place of the same number; and that no integer
but zero stands for zero, as rectifiers see the sign.

## Main Definitions

* `dequantized` — what an integer stands for;
* `StandFor` — a tensor of integers and the tensor of what they stand for;
* `Commutes` — a computation that does the same to both, also where it fails;
* `Interpreter.Selects`, `Interpreter.HasRoom` — the nodes that choose by order, and room for what
  they pad;
* `Interpreter.Dequantizer` — a node that writes down what integers stand for;
* `Interpreter.Maps` — a node that takes a tensor to another one, or to an error.

## Main Statements

* `extended_dequantized_mono`, `dequantized_eq_of_extended_eq`, `lt_zero_iff` — the order;
* `rectify_dequantized`, `maxPool?_dequantized` — rectifying and pooling;
* `Interpreter.dequantize_comm` — nodes.
-/

namespace DyadicNet

namespace Eval

open Binary64

/-! ### What integers stand for -/

/-- What an integer stands for under a scale. -/
def dequantized (scale : Binary64) (v : ℤ) : Binary64 :=
  ofInt v * scale

section Value

variable {scale : Binary64} {exponent v w : ℤ} (hscale : scale.Denotes false (2 ^ exponent))
include hscale

/-- The exact product of the double and the scale is rounded once more. -/
theorem dequantized_eq (hv : Fits64 v) :
    dequantized scale v = ofRat ((ofInt v).toRat * 2 ^ exponent) := by
  have hint := denotes_ofInt64 hv
  have hsign : (ofInt v).toRat * 2 ^ exponent < 0 ↔ v < 0 := by
    rw [← toRat_ofInt_neg_iff hv, mul_neg_iff]
    have hpos := zpow_two_pos exponent
    exact ⟨fun h => (h.resolve_left fun h' => h'.2.not_gt hpos).1, fun h => .inr ⟨h, hpos⟩⟩
  unfold dequantized ofRat
  rw [hint.toRat_eq] at hsign ⊢
  rw [hint.mul_eq_ofMagnitude hscale, Bool.bne_false]
  by_cases hneg : v < 0
  · rw [if_pos (hsign.mpr hneg), decide_eq_true hneg, if_pos rfl, neg_mul, neg_neg]
  · rw [if_neg (mt hsign.mp hneg), decide_eq_false hneg, if_neg Bool.false_ne_true]

theorem isNaN_dequantized (hv : Fits64 v) : (dequantized scale v).isNaN = false := by
  unfold dequantized
  rw [(denotes_ofInt64 hv).mul_eq_ofMagnitude hscale]
  exact isNaN_ofMagnitude _ _

/-- The sign is kept, even by products that are infinite. -/
theorem isNegative_dequantized (hv : Fits64 v) :
    (dequantized scale v).isNegative = decide (v < 0) := by
  unfold dequantized
  rw [(denotes_ofInt64 hv).mul_eq_ofMagnitude hscale, isNegative_ofMagnitude, Bool.bne_false]

/-- **The order is kept.** -/
theorem extended_dequantized_mono (hv : Fits64 v) (hw : Fits64 w) (h : v ≤ w) :
    (dequantized scale v).extended ≤ (dequantized scale w).extended := by
  rw [dequantized_eq hscale hv, dequantized_eq hscale hw]
  exact extended_ofRat_mono
    (mul_le_mul_of_nonneg_right (toRat_ofInt_mono hv hw h) (zpow_two_pos _).le)

/-- Zero stands for zero without a sign. -/
theorem dequantized_zero : dequantized scale 0 = .zero false := by
  have hzero : (ofInt 0).toRat = 0 := by decide +kernel
  rw [dequantized_eq hscale (by decide), hzero, zero_mul]
  rfl

/-- The numbers below zero are what negative integers stand for. -/
theorem lt_zero_iff (hv : Fits64 v) : (dequantized scale v).lt (.zero false) = true ↔ v < 0 := by
  have hminus : Fits64 (-1) := by decide
  rw [lt_iff_extended (isNaN_dequantized hscale hv) rfl, ← dequantized_zero hscale]
  constructor
  · contrapose!
    exact extended_dequantized_mono hscale (by decide) hv
  · intro hneg
    -- the greatest negative integer stands for the scale itself, below zero
    have hunit : (dequantized scale (-1)).Denotes true (2 ^ exponent) := by
      have hone : (ofInt (-1)).Denotes true 1 := by simpa using denotes_ofInt (n := -1) (by decide)
      have hproduct := hone.mul hscale ((one_mul (2 ^ exponent : ℚ)).symm ▸ hscale.isMagnitude)
      rw [one_mul] at hproduct
      exact hproduct
    have hbelow : (dequantized scale (-1)).lt (dequantized scale 0) = true := by
      rw [dequantized_zero hscale, hunit.lt_iff (denotes_zero false), hunit.toRat_eq, if_pos rfl,
        (denotes_zero false).toRat_pos]
      exact neg_neg_of_pos (zpow_two_pos _)
    rw [lt_iff_extended (isNaN_dequantized hscale hminus) (isNaN_dequantized hscale (by decide))]
      at hbelow
    exact (extended_dequantized_mono hscale hv hminus (by omega)).trans_lt hbelow

/-- Integers that stand for the same value stand for the same double. -/
theorem dequantized_eq_of_extended_eq (hv : Fits64 v) (hw : Fits64 w)
    (h : (dequantized scale v).extended = (dequantized scale w).extended) :
    dequantized scale v = dequantized scale w := by
  have hNaN := isNaN_dequantized hscale hv
  have hNaN' := isNaN_dequantized hscale hw
  have hsign : v < 0 ↔ w < 0 := by
    rw [← lt_zero_iff hscale hv, ← lt_zero_iff hscale hw, lt_iff_extended hNaN rfl,
      lt_iff_extended hNaN' rfl, h]
  refine eq_of_extended_eq hNaN hNaN' ?_ h
  rw [isNegative_dequantized hscale hv, isNegative_dequantized hscale hw, decide_eq_decide]
  exact hsign

/-- **Rectifying commutes with the scale.** -/
theorem rectify_dequantized (hv : Fits64 v) :
    rectify (dequantized scale v) = dequantized scale (rectifyInt v) := by
  unfold rectify rectifyInt
  rw [apply_ite (dequantized scale), dequantized_zero hscale]
  exact if_congr (lt_zero_iff hscale hv) rfl rfl

end Value

/-! ### Arrays -/

section Pooling

variable {scale : Binary64} {exponent : ℤ} {s : Nchw} {padding : Padding}
  {kernel stride : Node.Extents} {values : Array ℤ}

/-- The largest number is what the largest integer stands for. -/
theorem IsLargest.dequantized_eq (hscale : scale.Denotes false (2 ^ exponent)) {S : Set ℤ}
    (hS : ∀ v ∈ S, Fits64 v) {v : ℤ} {r : Binary64} (hv : IsLargest id S v)
    (hr : IsLargest extended (dequantized scale '' S) r) : dequantized scale v = r := by
  obtain ⟨hvS, hvmost⟩ := hv
  obtain ⟨⟨w, hwS, rfl⟩, hrmost⟩ := hr
  have hbelow : (dequantized scale v).extended ≤ (dequantized scale w).extended :=
    hrmost _ (Set.mem_image_of_mem _ hvS)
  have habove : (dequantized scale w).extended ≤ (dequantized scale v).extended :=
    extended_dequantized_mono hscale (hS w hwS) (hS v hvS) (hvmost w hwS)
  exact dequantized_eq_of_extended_eq hscale (hS v hvS) (hS w hwS) (hbelow.antisymm habove)

/-- A largest element among elements and marks stands for the largest of what the elements stand
for. -/
theorem dequantized_largest (hscale : scale.Denotes false (2 ^ exponent)) {first : Option ℤ}
    {window : List (Option ℤ)} (hfits : ∀ v, some v ∈ window → Fits64 v) (hfirst : first ∈ window)
    (hsome : ∃ v, some v ∈ window) :
    dequantized scale (largest (fun a b => decide (a < b)) (first.getD (signedMin 64))
        (window.map (·.getD (signedMin 64))))
      = largest Binary64.lt ((first.map (dequantized scale)).getD (.infinity true))
        ((window.map (Option.map (dequantized scale))).map (·.getD (.infinity true))) := by
  have hnumbers : {r | some r ∈ window.map (Option.map (dequantized scale))}
      = dequantized scale '' {v | some v ∈ window} := by
    ext r
    simp [Option.map_eq_some_iff]
  have hnotNaN : ∀ r, some r ∈ window.map (Option.map (dequantized scale)) → r.isNaN = false := by
    intro r hr
    obtain ⟨v, hv, rfl⟩ : r ∈ dequantized scale '' {v | some v ∈ window} := hnumbers ▸ hr
    exact isNaN_dequantized hscale (hfits v hv)
  have hsome' : ∃ r, some r ∈ window.map (Option.map (dequantized scale)) := by
    obtain ⟨v, hv⟩ := hsome
    exact ⟨dequantized scale v, List.mem_map.mpr ⟨some v, hv, rfl⟩⟩
  have hints := isLargest_of_marks ranked_ints (fun v hv => (hfits v hv).1) hfirst hsome
  have hreals := isLargest_of_marks ranked_reals hnotNaN (List.mem_map_of_mem hfirst) hsome'
  rw [hnumbers] at hreals
  exact hints.dequantized_eq hscale hfits hreals

/-- **Pooling commutes with the scale**, although the padding of the one is not what the padding of
the other stands for.  It does so for data that does not fit, too: both loops go as far as the same
access. -/
theorem maxPool?_dequantized (hscale : scale.Denotes false (2 ^ exponent))
    (hvalues : ∀ v ∈ values, Fits64 v) (hheight : 1 ≤ s.height) (hwidth : 1 ≤ s.width)
    (hnarrower : Narrower padding kernel) :
    (Kernel.pad? s padding (.infinity true) (values.map (dequantized scale))
        >>= fun (padded, size) => Kernel.maxPool? Binary64.lt padded size kernel stride)
      = (fun result => (result.1.map (dequantized scale), result.2))
        <$> (Kernel.pad? s padding (signedMin 64) values >>= fun (padded, size) =>
          Kernel.maxPool? (fun a b => decide (a < b)) padded size kernel stride) := by
  -- both paddings take the place of the same marks
  have hmarks := Kernel.pad?_map (Option.map (dequantized scale)) s padding none (values.map some)
  rw [Array.map_map] at hmarks
  rw [pad?_eq_marks, pad?_eq_marks s padding (signedMin 64), Array.map_map]
  rw [Option.map_none] at hmarks
  rw [show some ∘ dequantized scale = Option.map (dequantized scale) ∘ some from rfl, hmarks]
  cases hpad : Kernel.pad? s padding none (values.map some) with
  | error e => rfl
  | ok padded =>
    obtain ⟨marks, size⟩ := padded
    show Kernel.maxPool? _ _ size kernel stride = _ <$> Kernel.maxPool? _ _ size kernel stride
    unfold Kernel.maxPool?
    cases hwindows : size.windows? kernel stride with
    | error e => rfl
    | ok out =>
      rw [ok_bind, ok_bind, Kernel.tabulate?_map (dequantized scale) fun b plane oy ox hin => ?_]
      · cases Kernel.tabulate? (Kernel.flattened out) _ <;> rfl
      rw [Kernel.windowAt?_map, Kernel.windowAt?_map, Kernel.windowAt?_map]
      cases hwindow : Kernel.windowAt? marks size kernel stride plane oy ox with
      | error e => rfl
      | ok under =>
        obtain ⟨hfirst, hsome, hdata⟩ :=
          exists_of_windowAt? hheight hwidth hnarrower hpad hwindows hin hwindow
        exact congrArg Except.ok (dequantized_largest hscale
          (fun v hv => hvalues v (hdata v hv)) hfirst hsome).symm

end Pooling

/-! ### Tensors -/

/-- A tensor of integers, and the tensor of what they stand for. -/
structure StandFor (scale : Binary64) (x z : Tensor) : Prop where
  shape_eq : z.shape = x.shape
  elements : ∃ type values, x.elements = .ints type values ∧
    z.elements = .reals (values.map fun v => ofInt v * scale)

section Tensors

variable {scale : Binary64} {exponent : ℤ} {x z : Tensor}

/-- There is one tensor of what the integers of a tensor stand for. -/
theorem StandFor.unique {z' : Tensor} (h : StandFor scale x z) (h' : StandFor scale x z') :
    z = z' := by
  obtain ⟨type, values, hx, hz⟩ := h.elements
  obtain ⟨type', values', hx', hz'⟩ := h'.elements
  obtain ⟨-, rfl⟩ := Elements.ints.inj (hx.symm.trans hx')
  exact Tensor.ext_elements (h.shape_eq.trans h'.shape_eq.symm) (hz.trans hz'.symm)

/-- And it can be written down. -/
theorem StandFor.dequantizeTensor_eq (h : StandFor scale x z) (node : Node) :
    dequantizeTensor node scale x = .ok z := by
  obtain ⟨type, values, hx, hz⟩ := h.elements
  obtain ⟨y, hy, hshape, helements⟩ := exists_dequantizeTensor node scale hx
  rw [hy, StandFor.unique h ⟨hshape, type, values, hx, helements⟩]

/-- Integers become integers of the same type, and what they stand for becomes what those stand for;
or there is the same error for both. -/
inductive Commutes (scale : Binary64) (compute : Tensor → Except Error Tensor) (x z : Tensor) : Prop
  | results {y r : Tensor} (ints : compute x = .ok y) (reals : compute z = .ok r)
      (standFor : StandFor scale y r) (dtype_eq : y.dtype = x.dtype)
  | fault {e : Error} (ints : compute x = .error e) (reals : compute z = .error e)

/-- It is enough that the elements of one way stand for those of the other. -/
theorem commutes_of_elements {compute : Tensor → Except Error Tensor} {shape : List ℕ}
    {type : IntType} {values results : Array ℤ} (hx : x.elements = .ints type values)
    (hholds : ∀ v ∈ results, type.holds v = true)
    (hints : compute x = intTensor shape (.int type) results)
    (hreals : compute z = realTensor shape (results.map (dequantized scale))) :
    Commutes scale compute x z := by
  have hmap : (results.map (dequantized scale)).size = results.size := Array.size_map
  by_cases hsize : results.size = elementCount shape
  · obtain ⟨y, hy, hyshape, hyelements⟩ :=
      exists_intTensor hsize (Array.all_eq_true_iff_forall_mem.mpr hholds)
    obtain ⟨r, hr, hrshape, hrelements⟩ := exists_realTensor (hmap.trans hsize)
    refine .results (hints.trans hy) (hreals.trans hr)
      ⟨hrshape.trans hyshape.symm, type, results, hyelements, hrelements⟩ ?_
    unfold Tensor.dtype
    rw [hyelements, hx]
    rfl
  · refine .fault (e := .graph (.tensor (.shape shape [results.size]))) ?_ ?_
    · rw [hints, intTensor, Tensor.ofInts?, dif_neg hsize]
      rfl
    · rw [hreals, realTensor, Tensor.ofReals?, dif_neg (hmap ▸ hsize), hmap]
      rfl

/-- Or that the loop that finds them does so. -/
theorem commutes_of_loop {compute : Tensor → Except Error Tensor}
    {loop : Except Error (Array ℤ × Nchw)} {type : IntType} {values : Array ℤ}
    (hx : x.elements = .ints type values)
    (hholds : ∀ results out, loop = .ok (results, out) → ∀ v ∈ results, type.holds v = true)
    (hints : compute x = loop >>= fun (results, out) => intTensor out.toShape (.int type) results)
    (hreals : compute z = (fun result => (result.1.map (dequantized scale), result.2)) <$> loop
      >>= fun (results, out) => realTensor out.toShape results) :
    Commutes scale compute x z := by
  cases hloop : loop with
  | error e =>
    rw [hloop] at hints hreals
    exact .fault hints hreals
  | ok result =>
    obtain ⟨results, out⟩ := result
    rw [hloop] at hints hreals
    exact commutes_of_elements hx (hholds results out hloop) hints hreals

variable (hscale : scale.Denotes false (2 ^ exponent)) (h : StandFor scale x z)
include hscale h

theorem commutes_rectify : Commutes scale (elementwise rectify rectifyInt) x z := by
  obtain ⟨type, values, hx, hz⟩ := h.elements
  have hholds : ∀ v ∈ values, type.holds v = true := fun v => Tensor.holds_of_mem_ints hx
  have hresults : ∀ v ∈ values.map rectifyInt, type.holds v = true := by
    intro v hv
    obtain ⟨w, hw, rfl⟩ := Array.mem_map.mp hv
    exact holds_rectifyInt (hholds w hw)
  have hints : elementwise rectify rectifyInt x
      = intTensor x.shape (.int type) (values.map rectifyInt) := by
    unfold elementwise
    rw [hx]
  refine commutes_of_elements hx hresults hints ?_
  · unfold elementwise
    rw [hz, h.shape_eq, Array.map_map]
    dsimp only
    rw [Array.map_map]
    congr 1
    exact Array.map_congr_left fun v hv =>
      rectify_dequantized hscale (IntType.fits64_of_holds (hholds v hv))

variable {s : Nchw} {padding : Padding} (hshape : x.shape = s.toShape)
include hshape

omit hscale h in
theorem padPlanes_of_ints {type : IntType} {values : Array ℤ} (hx : x.elements = .ints type values) :
    padPlanes padding x = Kernel.pad? s padding 0 values
      >>= fun (padded, out) => intTensor out.toShape (.int type) padded := by
  unfold padPlanes
  rw [Nchw.ofShape?_eq_ok_iff.mpr hshape, ok_bind, hx]

theorem commutes_padPlanes : Commutes scale (padPlanes padding) x z := by
  obtain ⟨type, values, hx, hz⟩ := h.elements
  refine commutes_of_loop hx (fun results out hpad v hv => ?_) (padPlanes_of_ints hshape hx) ?_
  · exact (Kernel.mem_of_pad? hpad v hv).elim (fun hfill => hfill ▸ type.holds_zero)
      (Tensor.holds_of_mem_ints hx)
  · unfold padPlanes
    rw [Nchw.ofShape?_eq_ok_iff.mpr (h.shape_eq.trans hshape), ok_bind, hz, ← Kernel.pad?_map,
      dequantized_zero hscale]
    rfl

omit hscale h in
/-- Integers that are padded become a tensor if it fits into a buffer. -/
theorem exists_padPlanes {type : IntType} {values : Array ℤ} (hx : x.elements = .ints type values)
    (haddressable : Addressable s padding) : ∃ y, padPlanes padding x = .ok y := by
  have hsize : values.size = s.volume := by
    rw [Tensor.size_of_ints hx, hshape, haddressable.elementCount_eq]
  have hpad := Kernel.pad?_eq haddressable (0 : ℤ) hsize
  have hcount : (pad s padding (0 : ℤ) values).size = elementCount (s.padded padding).toShape := by
    rw [haddressable.elementCount_padded, pad, Nchw.size_tabulate]
  have hholds : ∀ v ∈ pad s padding (0 : ℤ) values, type.holds v = true := fun v hv =>
    (Kernel.mem_of_pad? hpad v hv).elim (fun hfill => hfill ▸ type.holds_zero)
      (Tensor.holds_of_mem_ints hx)
  obtain ⟨y, hy, -⟩ := exists_intTensor hcount (Array.all_eq_true_iff_forall_mem.mpr hholds)
  refine ⟨y, ?_⟩
  rw [padPlanes_of_ints hshape hx, hpad, ok_bind]
  exact hy

theorem commutes_maxPoolNode {node : Node} {kernel stride : Node.Extents}
    (hkernel : node.kernelShape? = .ok kernel) (hstride : node.strides? = .ok stride)
    (hpadding : node.pads? = .ok padding) (hheight : 1 ≤ s.height) (hwidth : 1 ≤ s.width)
    (hnarrower : Narrower padding kernel) : Commutes scale (maxPoolNode node) x z := by
  obtain ⟨type, values, hx, hz⟩ := h.elements
  have hholds : ∀ v ∈ values, type.holds v = true := fun v => Tensor.holds_of_mem_ints hx
  have hfits : ∀ v ∈ values, Fits64 v := fun v hv => IntType.fits64_of_holds (hholds v hv)
  refine commutes_of_loop hx ?_ (maxPoolNode_of_ints hkernel hstride hpadding hshape hx) ?_
  · intro pooled out hloop v hv
    obtain ⟨⟨padded, size⟩, hpad, hpool⟩ := bind_eq_ok_iff.mp hloop
    exact hholds v (mem_of_maxPool? ranked_ints (fun w hw => (hfits w hw).1) hheight hwidth
      hnarrower hpad hpool v hv)
  · rw [← maxPool?_dequantized hscale hfits hheight hwidth hnarrower]
    exact maxPoolNode_of_reals hkernel hstride hpadding (h.shape_eq.trans hshape) hz

end Tensors

/-! ### Nodes -/

namespace Interpreter

variable {interpreter : Interpreter} {node dequantizer : Node} {scale : Binary64} {exponent : ℤ}
  {type : IntType} {values : Array ℤ} {x y z : Tensor}

/-- The nodes that choose among the elements of their data and zero, by the order of the elements,
with what they need of their attributes and of the extents of the data. -/
inductive Selects (interpreter : Interpreter) (node : Node) (shape : List ℕ) : Prop
  | relu (operator : node.operator = .relu)
  | pad {s : Nchw} {padding : Padding} (operator : node.operator = .pad) (mode : node.PadsConstant)
      (pads : interpreter.padding node = .ok padding) (shape_eq : shape = s.toShape)
  | maxPool {s : Nchw} {kernel stride : Node.Extents} {padding : Padding}
      (operator : node.operator = .maxPool) (kernelShape : node.kernelShape? = .ok kernel)
      (strides : node.strides? = .ok stride) (pads : node.pads? = .ok padding)
      (shape_eq : shape = s.toShape) (height_pos : 1 ≤ s.height) (width_pos : 1 ≤ s.width)
      (narrower : Narrower padding kernel)
      (height_le : kernel.height ≤ s.height + padding.top + padding.bottom)
      (width_le : kernel.width ≤ s.width + padding.left + padding.right)

/-- The padding that a node puts around the planes of its data. -/
inductive Surrounds (interpreter : Interpreter) (node : Node) (padding : Padding) : Prop
  | pad (operator : node.operator = .pad) (pads : interpreter.padding node = .ok padding)
  | maxPool (operator : node.operator = .maxPool) (pads : node.pads? = .ok padding)

/-- If a node puts a padding around the planes of its data, they still fit into a buffer. -/
def HasRoom (interpreter : Interpreter) (node : Node) (shape : List ℕ) : Prop :=
  ∀ s padding, shape = s.toShape → Surrounds interpreter node padding → Addressable s padding

/-- A node that writes down what integers stand for under a scale: its scale is a constant with one
element, and its zero point a constant zero. -/
structure Dequantizer (graph : Graph) (node : Node) (scale : Binary64) : Prop where
  operator : node.operator = .dequantizeLinear
  scale : ∃ name ∈ node.input? 1, ∃ tensor ∈ graph.initializers.get? name,
    tensor.scalar? = some scale
  zeroPoint : ∃ name ∈ node.input? 2, ∃ tensor ∈ graph.initializers.get? name,
    ∃ negative, tensor.scalar? = some (.zero negative)

/-- A node takes a tensor to another one or to an error, wherever the tensor is its data. -/
def Maps (interpreter : Interpreter) (node : Node) (x : Tensor) (outcome : Except Error Tensor) :
    Prop :=
  ∀ environment, interpreter.value environment node 0 = .ok x →
    interpreter.evalNode environment node = (fun y => (y, environment.leakyFormat)) <$> outcome

theorem maps_of_compute? {compute : Tensor → Except Error Tensor} {outcome : Except Error Tensor}
    (hcompute : interpreter.compute? node = some compute) (h : compute x = outcome) :
    Maps interpreter node x outcome := by
  intro environment hx
  rw [evalNode_of_compute? hcompute hx, h]

theorem Dequantizer.maps (hnode : Dequantizer interpreter.graph node scale)
    (hscale : scale.Denotes false (2 ^ exponent)) (h : StandFor scale x z) :
    Maps interpreter node x (.ok z) := by
  have hcompute : interpreter.compute? node = some (interpreter.dequantize node) := by
    rw [compute?, hnode.operator]
  refine maps_of_compute? hcompute ?_
  unfold dequantize
  rw [params_of_scalars hscale hnode.scale hnode.zeroPoint, ok_bind]
  exact h.dequantizeTensor_eq node

/-- What such a node applies to its data commutes with the scale, and it has a result if there is
room for it. -/
theorem Selects.commutes (hnode : Selects interpreter node x.shape)
    (hscale : scale.Denotes false (2 ^ exponent)) (h : StandFor scale x z) :
    ∃ compute, interpreter.compute? node = some compute ∧ Commutes scale compute x z ∧
      (HasRoom interpreter node x.shape → ∃ y, compute x = .ok y) := by
  obtain ⟨type, values, hx, -⟩ := h.elements
  cases hnode with
  | relu operator =>
    refine ⟨_, by rw [compute?, operator], commutes_rectify hscale h, fun _ => ?_⟩
    obtain ⟨y, hy, -⟩ := exists_elementwise rectify hx fun _ => holds_rectifyInt
    exact ⟨y, hy⟩
  | @pad s padding operator mode pads shape_eq =>
    have hnode : interpreter.padNode node = padPlanes padding := by
      funext x
      rw [padNode_of_constant mode, pads, ok_bind]
    refine ⟨_, by rw [compute?, operator], hnode ▸ commutes_padPlanes hscale h shape_eq, ?_⟩
    intro hroom
    exact hnode ▸ exists_padPlanes shape_eq hx (hroom _ _ shape_eq (.pad operator pads))
  | maxPool operator kernelShape strides pads shape_eq height_pos width_pos narrower height_le
      width_le =>
    obtain ⟨hstrideHeight, hstrideWidth⟩ := Node.strides_pos strides
    refine ⟨_, by rw [compute?, operator], commutes_maxPoolNode hscale h shape_eq kernelShape strides
      pads height_pos width_pos narrower, fun hroom => ?_⟩
    obtain ⟨y, hy, -⟩ := exists_maxPoolNode kernelShape strides pads shape_eq
      (hroom _ _ shape_eq (.maxPool operator pads))
      ⟨height_pos, width_pos, narrower, hstrideHeight, hstrideWidth, height_le, width_le⟩
      fun reals hreals => by
        rw [hx] at hreals
        cases hreals
    exact ⟨y, hy⟩

/-- A dequantizer. -/
def hugeNode : Node :=
  { sixteenthNode with operator := .dequantizeLinear }

/-- A graph in which the scale of this node is so large that `2 ^ 53` stands for an infinity. -/
def hugeGraph : Graph :=
  { sixteenthGraph with
    nodes := [hugeNode]
    initializers := .ofList [("s", .scalarReal (ofRat (2 ^ (971 : ℤ)))), ("z", .zeroPoint)] }

/-- Two rows of integers: two that are the same as doubles, the least one, and zeros. -/
def wideData : Tensor :=
  ⟨[1, 1, 2, 3], .ints .i64 #[twoPow 53, twoPow 53 + 1, signedMin 64, 0, 0, 0], by decide,
    by decide +kernel⟩

end Interpreter

end Eval

end DyadicNet
