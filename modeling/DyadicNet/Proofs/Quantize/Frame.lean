import Mathlib
import DyadicNet.Proofs.Quantize.Blocks

/-!
# What a conversion leaves alone

A conversion changes the convolutions of a graph and the constants that go with them.  Everything
else is **framed**: the other nodes, the name and the outputs, and every constant and declared
input that no convolution uses as its weights or its bias.  What is new are the constants that the
inserted nodes read, each of them declared once.

None of this asks anything of the old graph.  It need not pass its check, and its names may be
chosen so badly that the new graph computes something else; a conversion that succeeds still has
this frame, because a name that a constant of the graph has is never used for another one.

## Main Definitions

* `feedsConv` — that a convolution takes its weights or its bias from a name;
* `Walk.Accounts` — what a walk added, dropped and counted;
* `QuantizedOnce` — which tensors get a quantizer;
* `Framed` — names, outputs, inputs and constants of the new graph.

## Main Statements

* `Walk.accounts_of_step`, `accounts_of_steps` — the constants of a walk;
* `distinct_of_steps` — no tensor is quantized twice;
* `quantize_framed` — the structure and the frame of a conversion.
-/

namespace DyadicNet.Quantize

variable {graph : Graph} {config : Config} {types : Types} {totalBits : ℕ} {report : Report}
  {start walk walk' last : Walk} {block : Block} {done blocks : List Block} {name : String}

/-! ### Names -/

/-- Whether a convolution of the graph takes its weights or its bias from a name. -/
def feedsConv (graph : Graph) (name : String) : Bool :=
  graph.nodes.any fun node => node.operator == .conv &&
    (node.input? 1 == some name || node.input? 2 == some name)

namespace Conversion

/-- The names from which the convolution takes its weights and its bias. -/
def superseded (conversion : Conversion) : List String :=
  (conversion.node.input? 1).toList ++ (conversion.node.input? 2).toList

end Conversion

/-- The quantizers that were put in. -/
def insertedQuantizers (blocks : List Block) : List Node :=
  (conversions blocks).filterMap Conversion.quantizer

theorem insertedQuantizers_concat :
    insertedQuantizers (done ++ [block])
      = insertedQuantizers done ++ (block.conversion?.bind Conversion.quantizer).toList := by
  unfold insertedQuantizers
  cases block with
  | kept node =>
    rw [conversions_concat_kept]
    exact (List.append_nil _).symm
  | converted conversion =>
    rw [conversions_concat_converted, List.filterMap_append]
    cases hquantizer : conversion.quantizer with
    | none => simp [Block.conversion?, hquantizer]
    | some quantizer => simp [Block.conversion?, hquantizer]

/-- A convolution takes its weights and its bias from what the converted one does. -/
theorem feedsConv_iff (hsplit : blocks.map Block.source = graph.nodes)
    (hshape : ∀ block ∈ blocks, block.WellFormed) :
    feedsConv graph name = true ↔
      ∃ conversion ∈ conversions blocks, name ∈ conversion.superseded := by
  have hnodes := map_node_conversions hshape
  rw [hsplit] at hnodes
  have hmem : ∀ node, node ∈ (conversions blocks).map Conversion.node ↔
      node ∈ graph.nodes ∧ node.operator = .conv := by
    intro node
    rw [hnodes, List.mem_filter, beq_iff_eq]
  unfold feedsConv Conversion.superseded
  simp only [List.any_eq_true, Bool.and_eq_true, Bool.or_eq_true, beq_iff_eq, List.mem_append,
    Option.mem_toList]
  constructor
  · rintro ⟨node, hnode, hoperator, hname⟩
    obtain ⟨conversion, hconversion, rfl⟩ := List.mem_map.mp ((hmem node).mpr ⟨hnode, hoperator⟩)
    exact ⟨conversion, hconversion, hname⟩
  · rintro ⟨conversion, hconversion, hname⟩
    obtain ⟨hnode, hoperator⟩ := (hmem _).mp (List.mem_map_of_mem hconversion)
    exact ⟨conversion.node, hnode, hoperator, hname⟩

/-! ### The constants of a walk -/

/-- What the walk has to say for itself after some blocks: which constants it added, which ones are
not needed any more, and how many quantizers it put in. -/
structure Walk.Accounts (graph : Graph) (done : List Block) (walk : Walk) : Prop where
  reserved_eq : walk.derived.reserved = graph.initializers.names
  nodup : walk.derived.names.Nodup
  not_constant : ∀ name ∈ walk.derived.names, name ∉ graph.initializers.names
  mem_names_iff : ∀ name, name ∈ walk.derived.names ↔
    ∃ conversion ∈ conversions done, name ∈ conversion.constants
  mem_superseded_iff : ∀ name, name ∈ walk.superseded ↔
    ∃ conversion ∈ conversions done, name ∈ conversion.superseded
  quantizeNodes_eq : walk.quantizeNodes = (insertedQuantizers done).length

/-- What a step drops and counts. -/
theorem superseded_of_step (h : Step graph types totalBits walk block walk') :
    (∀ name, name ∈ walk'.superseded ↔
      name ∈ walk.superseded ∨ ∃ conversion ∈ block.conversion?, name ∈ conversion.superseded) ∧
    walk'.quantizeNodes
      = walk.quantizeNodes + (block.conversion?.bind Conversion.quantizer).toList.length := by
  cases h with
  | keep _ hkeep =>
    obtain ⟨quantizers, rfl⟩ := eq_with_of_keep hkeep
    simp [Block.conversion?]
  | @convert middle node analyzed source quantize _ _ _ _ hanalyzed hsource _ _ _ =>
    obtain ⟨_, _, hweights, hbias, -⟩ := constants_of_analyzeConv hanalyzed
    have hmiddle : middle.superseded = walk.superseded ∧
        middle.quantizeNodes = walk.quantizeNodes + quantize.head?.toList.length := by
      rcases Walk.source_eq_ok hsource with ⟨-, rfl, rfl⟩ | ⟨_, -, rfl, -, rfl, rfl⟩
      · exact ⟨rfl, rfl⟩
      · exact ⟨rfl, rfl⟩
    refine ⟨fun name => ?_, hmiddle.2⟩
    simp only [Block.conversion?, Option.mem_some_iff, exists_eq_left', Conversion.superseded,
      hweights, hbias, Option.toList_some, List.cons_append, List.nil_append, List.mem_cons,
      List.not_mem_nil, or_false, hmiddle.1]
    tauto

/-- A converted convolution is one of those so far or that of the new block. -/
theorem exists_conversion_concat_iff {P : Conversion → Prop} :
    (∃ conversion ∈ conversions (done ++ [block]), P conversion) ↔
      (∃ conversion ∈ conversions done, P conversion) ∨
        ∃ conversion ∈ block.conversion?, P conversion := by
  cases block with
  | kept node => simp [conversions_concat_kept, Block.conversion?]
  | converted conversion =>
    simp only [conversions_concat_converted, List.mem_append, List.mem_singleton, or_and_right,
      exists_or, Block.conversion?, Option.mem_some_iff, exists_eq_left, exists_eq_left']

/-- **A step accounts for its block.** -/
theorem Walk.accounts_of_step (h : Walk.Accounts graph done walk)
    (hstep : Step graph types totalBits walk block walk') :
    Walk.Accounts graph (done ++ [block]) walk' := by
  have hadds := extendsBy_of_step hstep
  obtain ⟨hsuperseded, hcount⟩ := superseded_of_step hstep
  refine ⟨hadds.reserved_eq.trans h.reserved_eq, hadds.nodup h.nodup, ?_, ?_, ?_, ?_⟩
  · intro name hname
    rcases hadds.not_reserved name hname with hold | hnew
    · exact h.not_constant name hold
    · exact h.reserved_eq ▸ hnew
  · intro name
    have hconstants : name ∈ block.constants ↔
        ∃ conversion ∈ block.conversion?, name ∈ conversion.constants := by
      cases block with
      | kept node => simp [Block.constants, Block.conversion?]
      | converted conversion => simp [Block.constants, Block.conversion?]
    rw [exists_conversion_concat_iff, ← h.mem_names_iff, ← hconstants]
    exact hadds.mem_names_iff
  · intro name
    rw [exists_conversion_concat_iff, ← h.mem_superseded_iff]
    exact hsuperseded name
  · rw [insertedQuantizers_concat, List.length_append, ← h.quantizeNodes_eq]
    exact hcount

/-- **A walk accounts for its blocks.** -/
theorem accounts_of_steps {input : Params}
    (h : Steps graph types totalBits (Walk.start graph input) blocks walk) :
    Walk.Accounts graph blocks walk := by
  induction h with
  | nil =>
    refine ⟨rfl, List.nodup_nil, ?_, ?_, ?_, rfl⟩
    · intro name hname
      cases hname
    · intro name
      exact ⟨fun hname => absurd hname List.not_mem_nil, fun ⟨_, hmem, _⟩ => by cases hmem⟩
    · intro name
      exact ⟨fun hname => absurd hname List.not_mem_nil, fun ⟨_, hmem, _⟩ => by cases hmem⟩
  | snoc _ hstep ih => exact Walk.accounts_of_step ih hstep

/-! ### Which tensors get a quantizer -/

/-- No two of the quantizers that were put in read the same tensor, and none reads a tensor that the
graph has quantized before by a node with all its operands.  (A node without a result quantizes
nothing.) -/
structure QuantizedOnce (report : Report) (blocks : List Block) : Prop where
  count_eq : report.quantizeNodes = (insertedQuantizers blocks).length
  distinct : ((insertedQuantizers blocks).map (·.input? 0)).Nodup
  unquantized : ∀ front conversion back, blocks = front ++ .converted conversion :: back →
    ∀ quantizer ∈ conversion.quantizer, ∃ input, quantizer.input? 0 = some input ∧
      ∀ block ∈ front, ¬CompleteQuantizer input block.source

/-- A quantizer is put in for data that no node before quantizes. -/
theorem unquantized_of_step {conversion : Conversion} {quantizer : Node}
    (hknown : Walk.Known graph done walk)
    (hstep : Step graph types totalBits walk (.converted conversion) walk')
    (hquantizer : conversion.quantizer = some quantizer) :
    ∃ input, quantizer.input? 0 = some input ∧ Quantizes input conversion.node ∧
      ∀ block ∈ done, ¬Quantizes input block.source := by
  obtain ⟨hoperator, hreads, -⟩ := (wellFormed_of_step hstep).quantizer quantizer hquantizer
  cases hstep with
  | @convert _ node analyzed _ _ _ _ _ hnode hanalyzed hsource _ _ _ =>
    have hinput := (spec_of_analyzeConv hanalyzed).input_eq
    refine ⟨analyzed.input, hreads.trans hinput, .inl ⟨hnode, hinput⟩, ?_⟩
    rcases Walk.source_eq_ok hsource with ⟨-, -, rfl⟩ | ⟨_, hnew, -, -, -, -⟩
    · cases hquantizer
    · exact hknown.unquantized analyzed.input hnew

/-- What an inserted quantizer reads is quantized by its convolution. -/
theorem quantizes_of_mem_insertedQuantizers (hshape : ∀ block ∈ blocks, block.WellFormed)
    {quantizer : Node} (hquantizer : quantizer ∈ insertedQuantizers blocks) {input : String}
    (hinput : quantizer.input? 0 = some input) :
    ∃ block ∈ blocks, Quantizes input block.source := by
  obtain ⟨conversion, hconversion, hquantizer⟩ := List.mem_filterMap.mp hquantizer
  have hblock := mem_conversions.mp hconversion
  have hwell : conversion.WellFormed := hshape _ hblock
  obtain ⟨-, hreads, -⟩ := hwell.quantizer quantizer hquantizer
  exact ⟨_, hblock, .inl ⟨hwell.operator_eq, hreads.symm.trans hinput⟩⟩

/-- **No tensor is quantized twice.** -/
theorem distinct_of_steps (hstart : start.quantizers = [])
    (h : Steps graph types totalBits start blocks walk) :
    ((insertedQuantizers blocks).map (·.input? 0)).Nodup := by
  induction h with
  | nil => exact List.nodup_nil
  | @snoc blocks walk walk' block hsteps hstep ih =>
    cases block with
    | kept node =>
      rw [insertedQuantizers_concat]
      simpa [Block.conversion?] using ih
    | converted conversion =>
      rw [insertedQuantizers_concat, List.map_append, Block.conversion?, Option.bind_some]
      cases hquantizer : conversion.quantizer with
      | none => rwa [Option.toList_none, List.map_nil, List.append_nil]
      | some quantizer =>
        obtain ⟨input, hinput, -, hnew⟩ :=
          unquantized_of_step (known_of_steps hstart hsteps) hstep hquantizer
        rw [Option.toList_some, List.map_singleton, hinput]
        refine List.nodup_append.mpr ⟨ih, List.nodup_singleton _, ?_⟩
        -- a quantizer of the same tensor would belong to a block before this one
        intro read hread other hsame hequal
        obtain rfl := List.mem_singleton.mp hsame
        obtain ⟨other, hother, hreads⟩ := List.mem_map.mp hread
        rw [hequal] at hreads
        obtain ⟨block, hblock, hquantizes⟩ :=
          quantizes_of_mem_insertedQuantizers (wellFormed_of_steps hsteps) hother hreads
        exact hnew block hblock hquantizes

/-! ### The frame -/

/-- What a conversion leaves alone, and what it adds.  Of the declared inputs and the constants of
the graph, those go that a convolution uses as its weights or its bias; the constants that are added
have new names, and each of them is declared once, as the tensor it is. -/
structure Framed (graph : Graph) (report : Report) (blocks : List Block)
    (added : List (String × Tensor)) : Prop where
  name_eq : report.graph.name = graph.name
  outputs_eq : report.graph.outputs = graph.outputs
  inputs_eq : report.graph.inputs
    = graph.inputs.filter (fun declaration => !feedsConv graph declaration.name)
      ++ added.map fun (name, tensor) => Declaration.ofTensor name tensor
  distinct : (added.map (·.1)).Nodup
  mem_added_iff : ∀ name, name ∈ added.map (·.1) ↔
    ∃ conversion ∈ conversions blocks, name ∈ conversion.constants
  not_constant : ∀ name ∈ added.map (·.1), name ∉ graph.initializers.names
  added_eq : ∀ name tensor, (name, tensor) ∈ added →
    report.graph.initializers.get? name = some tensor
  kept_eq : ∀ name, name ∉ added.map (·.1) →
    report.graph.initializers.get? name
      = if feedsConv graph name then none else graph.initializers.get? name

/-- A constant that no convolution uses as its weights or its bias survives. -/
theorem Framed.survives {added : List (String × Tensor)} (h : Framed graph report blocks added)
    {tensor : Tensor} (htensor : graph.initializers.get? name = some tensor)
    (hname : feedsConv graph name = false) :
    report.graph.initializers.get? name = some tensor := by
  have hold : name ∈ graph.initializers.names := NameTable.isSome_get?_iff.mp (by rw [htensor]; rfl)
  rw [h.kept_eq name fun hadded => h.not_constant name hadded hold, hname]
  exact htensor

/-- The graph that a walk is assembled to is framed. -/
theorem framed_assemble {nodes : List Node} (h : Walk.Accounts graph blocks last)
    (hsplit : blocks.map Block.source = graph.nodes)
    (hshape : ∀ block ∈ blocks, block.WellFormed) :
    Framed graph ⟨assemble config graph last nodes, last.layers, last.quantizeNodes⟩ blocks
      last.derived.entries := by
  have hsuperseded : ∀ name, last.superseded.contains name = feedsConv graph name := by
    intro name
    rw [Bool.eq_iff_iff, List.contains_iff_mem, h.mem_superseded_iff, feedsConv_iff hsplit hshape]
  have hget : ∀ name, (assemble config graph last nodes).initializers.get? name
      = (last.derived.get? name).or
          (if name ∈ last.superseded then none else graph.initializers.get? name) :=
    get?_assemble h.nodup
  refine ⟨rfl, rfl, ?_, h.nodup, h.mem_names_iff, h.not_constant, ?_, ?_⟩
  · show graph.inputs.filter (fun declaration => !last.superseded.contains declaration.name)
      ++ _ = _
    simp only [hsuperseded]
  · intro name tensor hmem
    show (assemble config graph last nodes).initializers.get? name = some tensor
    rw [hget, Derived.get?_eq_lookup, lookup_of_mem h.nodup hmem]
    rfl
  · intro name hname
    show (assemble config graph last nodes).initializers.get? name = _
    rw [hget, Derived.get?_eq_none_iff.mpr hname, Option.none_or, ← hsuperseded]
    simp only [List.contains_iff_mem]

/-- **The structure and the frame of a conversion**, for every graph that can be converted.  The new
nodes are the old ones in their order, with every convolution replaced in its place; no tensor is
quantized twice; and nothing else of the graph changes but the constants of the layers. -/
theorem quantize_framed (h : quantize config graph = .ok report) :
    ∃ blocks added, Spliced graph report blocks ∧
      (∀ node ∈ report.graph.nodes, node.operator ≠ .conv) ∧
      QuantizedOnce report blocks ∧ Framed graph report blocks added ∧
      ∀ name tensor, graph.initializers.get? name = some tensor → feedsConv graph name = false →
        report.graph.initializers.get? name = some tensor := by
  obtain ⟨input, last, nodes, blocks, -, hsteps, rfl, -, hspliced, -⟩ := exists_steps h
  have haccounts := accounts_of_steps hsteps
  have hframed : Framed graph ⟨assemble config graph last nodes, last.layers, last.quantizeNodes⟩
      blocks last.derived.entries :=
    framed_assemble haccounts hspliced.sources_eq hspliced.wellFormed
  refine ⟨blocks, last.derived.entries, hspliced, ?_, ?_, hframed,
    fun name tensor => hframed.survives⟩
  · intro node hnode
    rw [hspliced.nodes_eq] at hnode
    obtain ⟨block, hblock, hnode⟩ := List.mem_flatMap.mp hnode
    exact Block.operator_ne_conv (hspliced.wellFormed block hblock) hnode
  · refine ⟨haccounts.quantizeNodes_eq, distinct_of_steps rfl hsteps, ?_⟩
    intro front conversion back hsplit quantizer hquantizer
    obtain ⟨walk, walk', hbefore, hstep⟩ := hsteps.at hsplit
    obtain ⟨input, hinput, -, hnew⟩ :=
      unquantized_of_step (known_of_steps rfl hbefore) hstep hquantizer
    exact ⟨input, hinput, fun block hblock hcomplete => hnew block hblock (.inr hcomplete)⟩

/-! ### A graph with branches -/

/-- A graph that quantizes its input, convolves it, and convolves the result in two branches with
the same weights. -/
def branches : Graph :=
  { name := "branches"
    opset := 9
    inputs := [.ofName "x", .ofName "w", .ofName "s"]
    outputs := [.ofName "u", .ofName "v"]
    nodes :=
      [.make .quantizeLinear "q" ["x", "s", "z"] ["xq"], .make .conv "c" ["x", "w", "b"] ["y"],
        .make .conv "d" ["y", "w", "b"] ["u"], .make .conv "e" ["y", "w", "b"] ["v"]]
    initializers :=
      .ofList [("s", .scalarReal (.ofInt 1)), ("z", .zeroPoint),
        ("w", .oneReal 4 (.powerOfTwo (-1))), ("b", .oneReal 1 (.zero false))] }

/-- Only the tensor between the convolutions gets a quantizer, and the scale of the input stays. -/
theorem quantize_framed_branches :
    ∃ report, quantize {} branches = .ok report ∧
      ∃ blocks added, Spliced branches report blocks ∧ Framed branches report blocks added ∧
        (insertedQuantizers blocks).length = 1 ∧
        report.graph.initializers.get? "s" = some (.scalarReal (.ofInt 1)) := by
  have hcount : (quantize {} branches).toOption.map Report.quantizeNodes = some 1 := by
    decide +kernel
  have hscale : branches.initializers.get? "s" = some (.scalarReal (.ofInt 1)) := by decide +kernel
  have hunused : feedsConv branches "s" = false := by decide +kernel
  cases hreport : quantize {} branches with
  | error fault =>
    rw [hreport] at hcount
    cases hcount
  | ok report =>
    rw [hreport] at hcount
    obtain ⟨blocks, added, hspliced, -, honce, hframed, hsurvives⟩ := quantize_framed hreport
    exact ⟨report, rfl, blocks, added, hspliced, hframed,
      honce.count_eq.symm.trans (Option.some_inj.mp hcount), hsurvives "s" _ hscale hunused⟩

end DyadicNet.Quantize
