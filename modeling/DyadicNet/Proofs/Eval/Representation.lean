import Mathlib
import DyadicNet.Proofs.Eval.Containment
import DyadicNet.Proofs.Eval.Dataflow
import DyadicNet.Proofs.Json.Pretty
import DyadicNet.Proofs.Tensor.Parts

/-!
# The tensors that can be obtained

A tensor is built from numbers, read from a text, given another shape, or computed by a node of a
graph.  Each of these first has parts: a shape, an element type and numbers that nobody has looked
at, such as what the kernel of an operator has written.  **Whatever the parts are, the tensor has
exactly these, and they are sound.**  So every index into the elements that is computed from the
shape is one of an element.

The kernels here are those of the operators without the check that follows them, and an operator is
its kernel and the check.

## Main Definitions

* `accept` — the check of the parts that a kernel has computed;
* `Interpreter.parts?` — what the kernel of a node computes from its data;
* `Interpreter.Computes` — what the kernel of a node has computed in a run, and what became of it;
* `Obtained` — the ways to a tensor, and the parts on the way.

## Main Statements

* `Interpreter.exists_parts_of_evalNode` — a node is its kernel and the check;
* `Interpreter.computes_of_trace?` — what is traced is computed so;
* `obtained_sound` — all of it, for every tensor that can be obtained.
-/

namespace DyadicNet

open Tensor (Draft)

/-- Other elements of the kind that a tensor has, in the given shape. -/
def Tensor.mapParts (tensor : Tensor) (shape : List ℕ)
    (onReals : Array Binary64 → Array Binary64) (onInts : Array ℤ → Array ℤ) : Draft :=
  match tensor.elements with
  | .reals values => .ofReals shape (onReals values)
  | .ints type values => .ofInts shape (.int type) (onInts values)

namespace Eval

/-! ### Kernels and the check -/

/-- The tensor with the parts that a kernel has computed. -/
def accept (draft : Draft) : Except Error Tensor :=
  draft.finish?.mapError (.graph ∘ .tensor)

theorem accept_eq_ok_iff {draft : Draft} {y : Tensor} :
    accept draft = .ok y ↔ draft.finish? = .ok y :=
  mapError_eq_ok_iff

/-- What the kernel of a quantized convolution computes. -/
def Operands.parts? (operands : Operands) : Except Error Draft := do
  let shifts := operands.shifts
  let (values, out) ←
    Kernel.convolve? operands.padded operands.paddedShape operands.weights operands.weightShape
      operands.bias operands.stride
      ⟨shifts.input.toNat, shifts.bias.toNat, shifts.output, operands.bits⟩
  .ok (.ofInts out.toShape (.int operands.type) values)

/-- What the kernel of padding computes. -/
def padParts? (padding : Padding) (x : Tensor) : Except Error Draft := do
  let s ← Nchw.ofShape? x.shape
  match x.elements with
  | .ints type values =>
    let (padded, out) ← Kernel.pad? s padding 0 values
    .ok (.ofInts out.toShape (.int type) padded)
  | .reals values =>
    let (padded, out) ← Kernel.pad? s padding (.zero false) values
    .ok (.ofReals out.toShape padded)

/-- What the kernel of a pooling operator for the largest element computes. -/
def maxPoolParts? (node : Node) (x : Tensor) : Except Error Draft := do
  let kernel ← ofGraph node.kernelShape?
  let stride ← ofGraph node.strides?
  let padding ← ofGraph node.pads?
  let s ← Nchw.ofShape? x.shape
  match x.elements with
  | .ints type values =>
    let least := signedMin 64
    let (padded, size) ← Kernel.pad? s padding least values
    let (pooled, out) ← Kernel.maxPool? (fun a b => decide (a < b)) padded size kernel stride
    .ok (.ofInts out.toShape (.int type) pooled)
  | .reals values =>
    let least := Binary64.infinity true
    let (padded, size) ← Kernel.pad? s padding least values
    let (pooled, out) ← Kernel.maxPool? Binary64.lt padded size kernel stride
    .ok (.ofReals out.toShape pooled)

/-- **What the kernel of a node computes from its data**, before anything is checked about it.  The
format is the one in which leaky rectifiers round. -/
def Interpreter.parts? (interpreter : Interpreter) (format : Option FixedPoint.Format) (node : Node)
    (x : Tensor) : Except Error Draft :=
  match node.operator with
  | .conv => .error (.floatConvolution node.label)
  | .qlinearConv => do
    let operands ← interpreter.operands node x
    operands.parts?
  | .quantizeLinear => do
    let params ← interpreter.params node 1 2
    let (type, bits) ← interpreter.quantizedType node 2
    let values ← x.toReals.toList.mapM (quantizeValue node params.scale bits)
    .ok (.ofInts x.shape (.int type) values.toArray)
  | .dequantizeLinear => do
    let params ← interpreter.params node 1 2
    let values ← integers node x
    .ok (.ofReals x.shape (values.map fun v => .ofInt v * params.scale))
  | .pad => do
    let padding ← interpreter.padding node
    padParts? padding x
  | .maxPool => maxPoolParts? node x
  | .globalAveragePool => do
    let s ← Nchw.ofShape? x.shape
    .ok (x.mapParts s.pooled.toShape (averagePool · (Kernel.rows s))
      (averagePoolInt · (Kernel.rows s)))
  | .relu => .ok (x.mapParts x.shape (·.map rectify) (·.map rectifyInt))
  | .leakyRelu => do
    let given ← ofGraph (node.real? "alpha")
    let slope := given.getD interpreter.config.leakyReluSlope
    .ok (x.mapParts x.shape (·.map (leakyRectify slope format)) (·.map (leakyRectifyInt slope)))
  | .other name => .error (.unsupportedLayer node.label name)

variable {node : Node} {x y : Tensor}

theorem elementwise_eq (onReal : Binary64 → Binary64) (onInt : ℤ → ℤ) (x : Tensor) :
    elementwise onReal onInt x = accept (x.mapParts x.shape (·.map onReal) (·.map onInt)) := by
  unfold elementwise Tensor.mapParts
  cases x.elements <;> rfl

theorem maxPoolNode_eq (node : Node) (x : Tensor) :
    maxPoolNode node x = maxPoolParts? node x >>= accept := by
  unfold maxPoolNode maxPoolParts?
  simp only [bind_assoc]
  cases x.elements <;> simp only [bind_assoc] <;> rfl

theorem averagePoolNode_eq (x : Tensor) :
    averagePoolNode x = Nchw.ofShape? x.shape >>= fun s =>
      accept (x.mapParts s.pooled.toShape (averagePool · (Kernel.rows s))
        (averagePoolInt · (Kernel.rows s))) := by
  unfold averagePoolNode Tensor.mapParts
  cases x.elements <;> rfl

theorem padPlanes_eq (padding : Padding) (x : Tensor) :
    padPlanes padding x = padParts? padding x >>= accept := by
  unfold padPlanes padParts?
  simp only [bind_assoc]
  cases x.elements <;> simp only [bind_assoc] <;> rfl

theorem Operands.result_eq (operands : Operands) :
    operands.result = operands.parts? >>= accept := by
  unfold result parts?
  simp only [bind_assoc]
  rfl

namespace Interpreter

variable {I : Interpreter} {e : Environment} {format : Option FixedPoint.Format} {input : Tensor}
  {values : List (String × Tensor)}

/-- Only one mode of padding gives a value. -/
theorem padsConstant_of_padNode (h : I.padNode node x = .ok y) : node.PadsConstant := by
  intro mode hmode
  unfold padNode at h
  rw [hmode] at h
  exact not_not.mp (check_eq_ok_iff.mp h).1

/-- An operator that is its kernel and the check. -/
theorem exists_parts_of_unchanged {value : Except Error Tensor}
    {compute : Tensor → Except Error Tensor} {kernel : Tensor → Except Error Draft}
    (hcompute : ∀ x, compute x = .ok y → kernel x >>= accept = .ok y)
    (h : (value >>= fun x => (fun y => (y, e.leakyFormat)) <$> compute x) = .ok (y, format)) :
    ∃ x draft, value = .ok x ∧ kernel x = .ok draft ∧ draft.finish? = .ok y := by
  obtain ⟨x, hx, h⟩ := bind_eq_ok_iff.mp h
  obtain ⟨z, hz, hpair⟩ := map_eq_ok_iff.mp h
  cases hpair
  obtain ⟨draft, hdraft, haccept⟩ := bind_eq_ok_iff.mp (hcompute x hz)
  exact ⟨x, draft, hx, hdraft, accept_eq_ok_iff.mp haccept⟩

/-- **A node is its kernel and the check.** -/
theorem exists_parts_of_evalNode (h : I.evalNode e node = .ok (y, format)) :
    ∃ x draft, I.value e node 0 = .ok x ∧ I.parts? e.leakyFormat node x = .ok draft ∧
      draft.finish? = .ok y := by
  unfold evalNode at h
  unfold parts?
  cases hoperator : node.operator with
  | conv =>
    rw [hoperator] at h
    cases h
  | other name =>
    rw [hoperator] at h
    cases h
  | qlinearConv =>
    rw [hoperator] at h
    unfold convolution at h
    simp only [bind_eq_ok_iff, Prod.exists, Except.ok.injEq, Prod.mk.injEq] at h
    obtain ⟨x, hx, _, _, ⟨operands, hoperands, _, hresult, rfl, -⟩, _, -, rfl, -⟩ := h
    rw [Operands.result_eq] at hresult
    obtain ⟨draft, hdraft, haccept⟩ := bind_eq_ok_iff.mp hresult
    exact ⟨x, draft, hx, bind_eq_ok_iff.mpr ⟨operands, hoperands, hdraft⟩,
      accept_eq_ok_iff.mp haccept⟩
  | quantizeLinear =>
    rw [hoperator] at h
    refine exists_parts_of_unchanged (fun x hy => ?_) h
    unfold quantize quantizeTensor at hy
    simp only [bind_assoc, ok_bind]
    exact hy
  | dequantizeLinear =>
    rw [hoperator] at h
    refine exists_parts_of_unchanged (fun x hy => ?_) h
    unfold dequantize dequantizeTensor at hy
    simp only [bind_assoc, ok_bind]
    exact hy
  | pad =>
    rw [hoperator] at h
    refine exists_parts_of_unchanged (fun x hy => ?_) h
    rw [padNode_of_constant (padsConstant_of_padNode hy)] at hy
    simpa only [bind_assoc, ok_bind, padPlanes_eq] using hy
  | maxPool =>
    rw [hoperator] at h
    exact exists_parts_of_unchanged (fun x hy => (maxPoolNode_eq node x).symm.trans hy) h
  | globalAveragePool =>
    rw [hoperator] at h
    refine exists_parts_of_unchanged (fun x hy => ?_) h
    simpa only [bind_assoc, ok_bind, averagePoolNode_eq] using hy
  | relu =>
    rw [hoperator] at h
    exact exists_parts_of_unchanged (fun x hy => (elementwise_eq _ _ x).symm.trans hy) h
  | leakyRelu =>
    rw [hoperator] at h
    obtain ⟨given, hgiven, h⟩ := bind_eq_ok_iff.mp h
    dsimp only
    rw [hgiven]
    exact exists_parts_of_unchanged (fun x hy => (elementwise_eq _ _ x).symm.trans hy) h

/-! ### Runs -/

/-- **In a run with the given input, the kernel of a node has computed the parts, and the node has
the value.** -/
def Computes (interpreter : Interpreter) (input : Tensor) (node : Node) (draft : Draft)
    (y : Tensor) : Prop :=
  ∃ before after environment x, interpreter.graph.nodes = before ++ node :: after ∧
    interpreter.reached input before = .ok environment ∧
    interpreter.value environment node 0 = .ok x ∧
    interpreter.parts? environment.leakyFormat node x = .ok draft ∧
    Prod.fst <$> interpreter.evalNode environment node = .ok y

theorem Computes.finish?_eq {draft : Draft} (h : I.Computes input node draft y) :
    draft.finish? = .ok y := by
  obtain ⟨before, after, environment, x, -, -, hx, hdraft, heval⟩ := h
  obtain ⟨⟨_, format⟩, hvalue, rfl⟩ := map_eq_ok_iff.mp heval
  obtain ⟨_, _, hx', hdraft', hfinish⟩ := exists_parts_of_evalNode hvalue
  obtain rfl := Except.ok.inj (hx.symm.trans hx')
  obtain rfl := Except.ok.inj (hdraft.symm.trans hdraft')
  exact hfinish

/-- **A run that succeeds has traced for every node a value that the node has computed.** -/
theorem computes_of_trace? (h : I.trace? input = .ok values) :
    values.map (·.1) = I.graph.nodes.map Node.label ∧
      ∀ front node back, I.graph.nodes = front ++ node :: back →
        ∃ draft y, values[front.length]? = some (node.label, y) ∧ I.Computes input node draft y := by
  obtain ⟨⟨_, _⟩, hexecute, rfl⟩ := map_eq_ok_iff.mp h
  obtain ⟨inputName, hinput, hexecute⟩ := bind_eq_ok_iff.mp hexecute
  obtain ⟨⟨final, traced⟩, hsteps, hresult⟩ := bind_eq_ok_iff.mp hexecute
  dsimp only at hresult
  split at hresult
  · cases hresult
    obtain ⟨-, hlabels, hvalues⟩ := steps_eq_ok hsteps
    refine ⟨hlabels, fun front node back hsplit => ?_⟩
    obtain ⟨environment, y, hfront, heval, hget⟩ := hvalues front node back hsplit
    obtain ⟨⟨_, format⟩, hvalue, rfl⟩ := map_eq_ok_iff.mp heval
    obtain ⟨x, draft, hx, hdraft, -⟩ := exists_parts_of_evalNode hvalue
    exact ⟨draft, _, hget, front, back, environment, x, hsplit,
      reached_eq_ok_iff.mpr ⟨inputName, hinput, hfront⟩, hx, hdraft, heval⟩
  · cases hresult

end Interpreter

/-! ### Every way to a tensor -/

/-- **The ways to a tensor**, and the parts that it is made of: numbers given by a caller, a stored
value, a tensor under another shape, and the kernel of a node in a run on such a tensor. -/
inductive Obtained [Json.TextLayer] : Draft → Tensor → Prop
  | ofReals {shape : List ℕ} {values : Array Binary64} {tensor : Tensor}
      (h : Tensor.ofReals? shape values = .ok tensor) : Obtained (.ofReals shape values) tensor
  | ofInts {shape : List ℕ} {dtype : DType} {values : Array ℤ} {tensor : Tensor}
      (h : Tensor.ofInts? shape dtype values = .ok tensor) :
      Obtained (.ofInts shape dtype values) tensor
  | scalarReal (value : Binary64) : Obtained (.ofReals [] #[value]) (.scalarReal value)
  | scalarInt {dtype : DType} {value : ℤ} {tensor : Tensor}
      (h : Tensor.scalarInt? dtype value = .ok tensor) : Obtained (.ofInts [] dtype #[value]) tensor
  | zeros (shape : List ℕ) :
      Obtained (.ofReals shape (.replicate (elementCount shape) (.zero false))) (.zeros shape)
  | reshape {draft : Draft} {old tensor : Tensor} {shape : List ℕ} (hold : Obtained draft old)
      (h : old.reshape? shape = .ok tensor) : Obtained { draft with shape := shape } tensor
  | read {j : Json} {draft : Draft} {tensor : Tensor} (hstored : draft.StoredIn j)
      (h : Tensor.ofJson j = .ok tensor) : Obtained draft tensor
  | node {graph : Graph} {config : Config} {I : Interpreter} {given draft : Draft}
      {input tensor : Tensor} {node : Node} (hmake : Interpreter.make? graph config = .ok I)
      (hinput : Obtained given input) (h : I.Computes input node draft tensor) :
      Obtained draft tensor

/-- What is obtained is what the check of its parts gives, also where no check is made. -/
theorem Obtained.finish?_eq [Json.TextLayer] {draft : Draft} {tensor : Tensor} (h : Obtained draft tensor) :
    draft.finish? = .ok tensor := by
  induction h with
  | ofReals h => rwa [Tensor.ofReals?_eq_finish?] at h
  | ofInts h => rwa [Tensor.ofInts?_eq_finish?] at h
  | scalarReal value => exact Tensor.finish?_scalarReal value
  | scalarInt h => rwa [Tensor.scalarInt?, Tensor.ofInts?_eq_finish?] at h
  | zeros shape => exact Tensor.finish?_zeros shape
  | reshape _ h ih =>
    rw [Tensor.reshape?_eq_finish?, Draft.parts_of_finish? ih] at h
    exact h
  | read hstored h =>
    obtain ⟨draft, hdraft, hfinish⟩ := Tensor.exists_storedIn h
    obtain rfl := hstored.unique hdraft
    exact hfinish
  | node _ _ h _ => exact h.finish?_eq

/-- **Every tensor that can be obtained is sound.**  It has the parts that it was made of, and these
are sound if their number is one that a machine can count to.  Every tensor that is read from a JSON
value or a text, under any text layer, and every value of a node in a run is obtained so.  And numbers
become a tensor exactly if they are sound parts with the shape and the type. -/
theorem obtained_sound [Json.TextLayer] :
    (∀ draft tensor, Obtained draft tensor → tensor.parts = draft ∧
      (tensor.shape.prod < twoPow 64 → draft.Sound)) ∧
    (∀ j tensor, Tensor.ofJson j = .ok tensor → ∃ draft : Draft,
      draft.StoredIn j ∧ Obtained draft tensor) ∧
    (∀ text tensor, Json.decode Tensor.ofJson text = .ok tensor → ∃ (j : Json) (draft : Draft),
      Json.TextLayer.parse text = (some j, true) ∧ draft.StoredIn j ∧ Obtained draft tensor) ∧
    (∀ graph config I given input values, Interpreter.make? graph config = .ok I →
      Obtained given input → I.trace? input = .ok values →
      values.map (·.1) = graph.nodes.map Node.label ∧
      ∀ front node back, graph.nodes = front ++ node :: back → ∃ draft y,
        values[front.length]? = some (node.label, y) ∧ I.Computes input node draft y ∧
        Obtained draft y) ∧
    (∀ shape values, shape.prod < twoPow 64 →
      ((∃ tensor, Tensor.ofReals? shape values = .ok tensor) ↔ (Draft.ofReals shape values).Sound)) ∧
    ∀ shape dtype values, shape.prod < twoPow 64 →
      ((∃ tensor, Tensor.ofInts? shape dtype values = .ok tensor)
        ↔ (Draft.ofInts shape dtype values).Sound) := by
  have hread : ∀ j tensor, Tensor.ofJson j = .ok tensor → ∃ draft : Draft,
      draft.StoredIn j ∧ Obtained draft tensor := by
    intro j tensor h
    obtain ⟨draft, hstored, -⟩ := Tensor.exists_storedIn h
    exact ⟨draft, hstored, .read hstored h⟩
  refine ⟨?_, hread, ?_, ?_, ?_, ?_⟩
  · intro draft tensor h
    obtain rfl := Draft.parts_of_finish? h.finish?_eq
    exact ⟨rfl, Tensor.sound_parts⟩
  · intro text tensor h
    obtain ⟨j, hparse, hj⟩ := Json.decode_eq_ok_iff.mp h
    obtain ⟨draft, hdraft⟩ := hread j tensor hj
    exact ⟨j, draft, hparse, hdraft⟩
  · intro graph config I given input values hmake hinput htrace
    obtain ⟨-, -, hI⟩ := Interpreter.make?_eq_ok_iff.mp hmake
    obtain ⟨hlabels, hvalues⟩ := Interpreter.computes_of_trace? htrace
    obtain rfl : I.graph = graph := by rw [hI]
    refine ⟨hlabels, fun front node back hsplit => ?_⟩
    obtain ⟨draft, y, hget, hcomputes⟩ := hvalues front node back hsplit
    exact ⟨draft, y, hget, hcomputes, .node hmake hinput hcomputes⟩
  · intro shape values hfits
    have hcount : (Draft.ofReals shape values).shape.prod < twoPow 64 := hfits
    exact Draft.exists_finish?_iff hcount
  · intro shape dtype values hfits
    have hcount : (Draft.ofInts shape dtype values).shape.prod < twoPow 64 := hfits
    exact Draft.exists_finish?_iff hcount

/-- Four zeros under a shape with four axes go through a quantized convolution; a zero point is read
from its stored form; and of eight bits the greatest value is 127. -/
theorem obtained_sound_branching :
    (∃ I values draft y, Interpreter.make? (branching convolutionFirst) {} = .ok I ∧
      (Tensor.zeros [4]).reshape? [1, 1, 2, 2] = .ok (.zeros [1, 1, 2, 2]) ∧
      I.trace? (.zeros [1, 1, 2, 2]) = .ok values ∧ values[1]? = some ("c", y) ∧
      I.Computes (.zeros [1, 1, 2, 2]) branchConvolution draft y ∧ y.parts = draft ∧
      y.shape = [1, 1, 2, 2] ∧ draft.Sound) ∧
    (∃ draft : Draft, draft.StoredIn Tensor.zeroPoint.toJson ∧ Tensor.zeroPoint.parts = draft ∧
      draft.Sound) ∧
    (∃ tensor, Tensor.ofReals? [0, 3] #[] = .ok tensor) ∧
    ¬∃ tensor, Tensor.ofInts? [1] (.int .i8) #[128] = .ok tensor := by
  obtain ⟨hsound, hread, -, hrun, hreals, hints⟩ := obtained_sound
  have hmake : Interpreter.make? (branching convolutionFirst) {}
      = .ok ⟨branching convolutionFirst, {}⟩ :=
    Interpreter.make?_eq_ok_iff.mpr ⟨by decide +kernel, by decide +kernel, rfl⟩
  have hreshape : (Tensor.zeros [4]).reshape? [1, 1, 2, 2] = .ok (.zeros [1, 1, 2, 2]) := by
    decide +kernel
  refine ⟨?_, ?_, ?_, ?_⟩
  · have hshape : ((Interpreter.trace? ⟨branching convolutionFirst, {}⟩
        (.zeros [1, 1, 2, 2])).toOption.map fun values => values[1]?.map (·.2.shape))
          = some (some [1, 1, 2, 2]) := by
      decide +kernel
    obtain ⟨values, hvalues, hshape⟩ := Option.map_eq_some_iff.mp hshape
    have htrace := toOption_eq_some_iff.mp hvalues
    obtain ⟨draft, y, hget, hcomputes, hobtained⟩ :=
      (hrun _ _ _ _ _ _ hmake (.reshape (.zeros [4]) hreshape) htrace).2 [branchQuantizer]
        branchConvolution [branchLeaky, branchRelu] rfl
    obtain ⟨hparts, hfits⟩ := hsound draft y hobtained
    have hy : y.shape = [1, 1, 2, 2] := by
      have hget' : values[1]? = some ("c", y) := hget
      rw [hget'] at hshape
      exact Option.some_inj.mp hshape
    exact ⟨_, values, draft, y, hmake, hreshape, htrace, hget, hcomputes, hparts, hy,
      hfits (by rw [hy]; decide +kernel)⟩
  · have hzero : Tensor.ofJson Tensor.zeroPoint.toJson = .ok .zeroPoint :=
      Tensor.ofJson_toJson (by decide +kernel)
    obtain ⟨draft, hstored, hobtained⟩ := hread _ _ hzero
    obtain ⟨hparts, hfits⟩ := hsound draft _ hobtained
    exact ⟨draft, hstored, hparts, hfits (by decide +kernel)⟩
  · refine (hreals [0, 3] #[] (by decide +kernel)).mpr ⟨rfl, by simp [Draft.ofReals], ?_⟩
    rintro type values htype
    cases htype
  · intro h
    have hrange := ((hints [1] (.int .i8) #[128] (by decide +kernel)).mp h).inRange .i8 [128] rfl rfl
    exact absurd (hrange 128 (by simp)).2 (by decide +kernel)

end Eval

end DyadicNet
