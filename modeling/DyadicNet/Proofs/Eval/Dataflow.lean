import Mathlib
import DyadicNet.Proofs.Eval.Bindings

/-!
# What the nodes of a run give and read

A run goes over the nodes once, and a graph that passes its check writes every name once.  So one can
speak of *the* value of a node in a run, and of what a node reads, without saying in which
environment: **a node reads what the node that writes the name has given**, whatever is evaluated in
between.

## Main Definitions

* `Gives` — the value of a node in a run;
* `Reads` — the value of an operand of a node in a run.

## Main Statements

* `exists_gives_of_run?` — in a run that has a result every node gives something;
* `Reads.gives_writer` — from the reader of a name to its writer;
* `Gives.quantizeLinear`, `Gives.dequantizeLinear`, `Gives.qlinearConv` — from the value of a node to
  its data.
-/

namespace DyadicNet.Eval.Interpreter

variable {I : Interpreter} {input : Tensor} {node reader writer : Node} {index : ℕ} {x y : Tensor}
  {name : String}

/-- In a run with the given input, a node has the given value. -/
def Gives (interpreter : Interpreter) (input : Tensor) (node : Node) (y : Tensor) : Prop :=
  ∃ before after environment, interpreter.graph.nodes = before ++ node :: after ∧
    interpreter.reached input before = .ok environment ∧
    Prod.fst <$> interpreter.evalNode environment node = .ok y

/-- In a run with the given input, a node reads the given tensor as one of its operands. -/
def Reads (interpreter : Interpreter) (input : Tensor) (node : Node) (index : ℕ) (x : Tensor) :
    Prop :=
  ∃ before after environment, interpreter.graph.nodes = before ++ node :: after ∧
    interpreter.reached input before = .ok environment ∧
    interpreter.value environment node index = .ok x

/-- In a run that has a result, every node has a value. -/
theorem exists_gives_of_run? {result : Tensor} (h : I.run? input = .ok result)
    (hmem : node ∈ I.graph.nodes) : ∃ y, Gives I input node y := by
  rw [run?_eq] at h
  simp only [bind_eq_ok_iff] at h
  obtain ⟨inputName, hinput, final, hfold, -⟩ := h
  obtain ⟨before, after, hsplit⟩ := List.append_of_mem hmem
  rw [hsplit] at hfold
  obtain ⟨environment, _, y, hbefore, -, heval, -⟩ := exists_value_of_foldlM hfold
  exact ⟨y, before, after, environment, hsplit, reached_eq_ok_iff.mpr ⟨_, hinput, hbefore⟩, heval⟩

/-- What a node reads has a name. -/
theorem Reads.exists_name (h : Reads I input node index x) :
    ∃ name, node.input? index = some name := by
  obtain ⟨_, _, _, -, -, hvalue⟩ := h
  obtain ⟨name, hname, -⟩ := value_eq_ok_iff.mp hvalue
  exact ⟨name, hname⟩

/-- **A node reads what the writer of the name has given.** -/
theorem Reads.gives_writer (hgraph : I.graph.validate = .ok ()) (h : Reads I input reader index x)
    (hname : reader.input? index = some name) (hwriter : writer ∈ I.graph.nodes)
    (houtput : writer.output? = some name) : Gives I input writer x := by
  obtain ⟨before, after, environment, hsplit, hreached, hvalue⟩ := h
  -- the writer comes before the reader, since the check goes along the nodes
  have hbefore : writer ∈ before := by
    obtain ⟨final, hchecked, -⟩ := Graph.nodes_of_validate hgraph
    rw [hsplit] at hchecked hwriter
    obtain ⟨_, -, hrest⟩ := Graph.checkNodes_append hchecked
    rcases List.mem_append.mp hwriter with hearlier | hlater
    · exact hearlier
    · exact absurd (List.mem_flatMap.mpr ⟨writer, hlater, List.mem_of_mem_head? houtput⟩)
        (Graph.not_mem_outputs_of_read hrest hname)
  obtain ⟨inputName, hinput, -⟩ := reached_eq_ok_iff.mp hreached
  have hrecorded := recorded_of_reached hgraph hinput hsplit hreached
  obtain ⟨front, back, rfl⟩ := List.append_of_mem hbefore
  obtain ⟨earlier, result, y, hearlier, hresult, heval, hlookup⟩ :=
    hrecorded.node_eq front writer back rfl
  obtain rfl := Option.some_inj.mp (houtput.symm.trans hresult)
  obtain ⟨_, hread, hfound⟩ := value_eq_ok_iff.mp hvalue
  obtain rfl := Option.some_inj.mp (hname.symm.trans hread)
  rw [hlookup, Option.some_or] at hfound
  obtain rfl := Option.some_inj.mp hfound
  exact ⟨front, back ++ reader :: after, earlier, by rw [hsplit, List.append_assoc]; rfl, hearlier,
    heval⟩

/-! ### From a value to the data -/

/-- The value of a quantizer is what its data is quantized to. -/
theorem Gives.quantizeLinear (hnode : node.operator = .quantizeLinear) (h : Gives I input node y) :
    ∃ x, Reads I input node 0 x ∧ I.quantize node x = .ok y := by
  obtain ⟨before, after, environment, hsplit, hreached, heval⟩ := h
  have hquantize : Prod.fst <$> I.evalNode environment node
      = I.value environment node 0 >>= I.quantize node := by
    unfold evalNode
    rw [hnode]
    exact fst_map_unchanged _ _ _
  obtain ⟨x, hx, hy⟩ := bind_eq_ok_iff.mp (hquantize.symm.trans heval)
  exact ⟨x, ⟨before, after, environment, hsplit, hreached, hx⟩, hy⟩

/-- The value of a dequantizer is what its data stands for. -/
theorem Gives.dequantizeLinear (hnode : node.operator = .dequantizeLinear)
    (h : Gives I input node y) : ∃ x, Reads I input node 0 x ∧ I.dequantize node x = .ok y := by
  obtain ⟨before, after, environment, hsplit, hreached, heval⟩ := h
  have hdequantize : Prod.fst <$> I.evalNode environment node
      = I.value environment node 0 >>= I.dequantize node := by
    unfold evalNode
    rw [hnode]
    exact fst_map_unchanged _ _ _
  obtain ⟨x, hx, hy⟩ := bind_eq_ok_iff.mp (hdequantize.symm.trans heval)
  exact ⟨x, ⟨before, after, environment, hsplit, hreached, hx⟩, hy⟩

/-- The value of a quantized convolution is the result of its operands. -/
theorem Gives.qlinearConv (hnode : node.operator = .qlinearConv) (h : Gives I input node y) :
    ∃ x operands, Reads I input node 0 x ∧ I.operands node x = .ok operands ∧
      operands.result = .ok y := by
  obtain ⟨before, after, environment, hsplit, hreached, heval⟩ := h
  obtain ⟨⟨_, format⟩, hvalue, rfl⟩ := map_eq_ok_iff.mp heval
  unfold evalNode convolution at hvalue
  rw [hnode] at hvalue
  simp only [bind_eq_ok_iff, Prod.exists, Except.ok.injEq, Prod.mk.injEq] at hvalue
  obtain ⟨x, hx, _, _, ⟨operands, hoperands, _, hresult, rfl, rfl⟩, _, -, rfl, -⟩ := hvalue
  exact ⟨x, operands, ⟨before, after, environment, hsplit, hreached, hx⟩, hoperands, hresult⟩

end DyadicNet.Eval.Interpreter
