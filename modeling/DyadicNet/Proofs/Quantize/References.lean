import Mathlib
import DyadicNet.Proofs.Graph.WellFormed
import DyadicNet.Proofs.Quantize.Faults
import DyadicNet.Proofs.Quantize.Names

/-!
# References in a converted graph

A conversion drops names from a graph: the weights and the bias of every convolution, and what a
convolution writes besides its first result.  Nodes that stay still read what they read before, a
convolution's data is still read, and the outputs are still declared.  A name that is dropped and
still needed is **missing in the new graph**, although it was there in the old one; the conversion
does not look who else reads a constant before it drops it.

In a graph that needs none of the names that are dropped, every reference of the new graph is to a
defined name, wherever in the list of nodes it stands.

## Main Definitions

* `neededNames`, `droppedNames` — the names that are still read, and those that go;
* `SelfContained` — that no name is both;
* `Walk.Covers` — what is defined in the new graph after some blocks.

## Main Statements

* `mem_externalNames_assemble` — the constants and inputs of the new graph;
* `Walk.covers_of_step`, `covers_of_steps` — references of the nodes so far;
* `resolved_assemble` — references of the new graph;
* `quantize_references` — when a conversion fails for a reference.
-/

namespace DyadicNet.Quantize

variable {graph target : Graph} {config : Config} {types : Types} {totalBits : ℕ} {report : Report}
  {start walk walk' last middle : Walk} {block : Block} {done blocks : List Block}
  {nodes : List Node} {node : Node} {after : List Node} {name input : String}

/-! ### Names that are needed and names that go -/

/-- What is still read for a node after the conversion: all operands of a node that stays, and the
data of a convolution. -/
def neededBy (node : Node) : List String :=
  if node.operator = .conv then (node.input? 0).toList
  else node.inputs.filter fun name => !name.isEmpty

/-- What goes with a convolution: its weights, its bias, and all results but the first. -/
def droppedBy (node : Node) : List String :=
  if node.operator = .conv then
    (node.input? 1).toList ++ (node.input? 2).toList ++ node.outputs.tail
  else []

/-- The names that are still needed after the conversion. -/
def neededNames (graph : Graph) : List String :=
  graph.nodes.flatMap neededBy ++ graph.outputs.map (·.name)

/-- The names that a conversion drops. -/
def droppedNames (graph : Graph) : List String :=
  graph.nodes.flatMap droppedBy

/-- Nothing that is still needed goes. -/
def SelfContained (graph : Graph) : Prop :=
  ∀ name ∈ neededNames graph, name ∉ droppedNames graph

instance (graph : Graph) : Decidable (SelfContained graph) :=
  inferInstanceAs (Decidable (∀ name ∈ neededNames graph, name ∉ droppedNames graph))

theorem mem_neededBy_of_kept (hnode : node.operator ≠ .conv) (hname : name ∈ node.inputs)
    (hne : name ≠ "") : name ∈ neededBy node := by
  unfold neededBy
  rw [if_neg hnode, List.mem_filter]
  exact ⟨hname, by simpa using hne⟩

theorem mem_neededBy_of_data (hnode : node.operator = .conv) (hname : node.input? 0 = some name) :
    name ∈ neededBy node := by
  unfold neededBy
  rw [if_pos hnode, hname]
  exact List.mem_singleton_self _

/-- What is needed for a node is an operand of it. -/
theorem mem_inputs_of_needed (h : name ∈ neededBy node) : name ∈ node.inputs ∧ name ≠ "" := by
  unfold neededBy at h
  split_ifs at h
  · exact Graph.mem_inputs_of_input? (Option.mem_toList.mp h)
  · obtain ⟨hname, hne⟩ := List.mem_filter.mp h
    exact ⟨hname, by simpa using hne⟩

/-- Weights and bias of a convolution go. -/
theorem mem_droppedNames_of_feedsConv (h : feedsConv graph name = true) :
    name ∈ droppedNames graph := by
  unfold feedsConv at h
  simp only [List.any_eq_true, Bool.and_eq_true, Bool.or_eq_true, beq_iff_eq] at h
  obtain ⟨node, hnode, hconv, hname⟩ := h
  refine List.mem_flatMap.mpr ⟨node, hnode, ?_⟩
  unfold droppedBy
  rw [if_pos hconv]
  refine List.mem_append_left _ (List.mem_append.mpr ?_)
  rcases hname with hweights | hbias
  · exact .inl (Option.mem_toList.mpr hweights)
  · exact .inr (Option.mem_toList.mpr hbias)

/-- Of the results of a convolution only the first stays. -/
theorem mem_droppedNames_of_tail (hmem : node ∈ graph.nodes) (hnode : node.operator = .conv)
    (hname : name ∈ node.outputs.tail) : name ∈ droppedNames graph := by
  refine List.mem_flatMap.mpr ⟨node, hmem, ?_⟩
  unfold droppedBy
  rw [if_pos hnode]
  exact List.mem_append_right _ hname

/-! ### What is defined in the new graph -/

/-- **The new graph has the constants and inputs of the old one that were not superseded, and those
that were added.** -/
theorem mem_externalNames_assemble (h : walk.derived.names.Nodup) :
    name ∈ (assemble config graph walk nodes).externalNames ↔
      (name ∈ graph.externalNames ∧ name ∉ walk.superseded) ∨ name ∈ walk.derived.names := by
  have hinputs : (assemble config graph walk nodes).inputs.map (·.name)
      = (graph.inputs.filter fun declaration =>
          !walk.superseded.contains declaration.name).map (·.name) ++ walk.derived.names := by
    unfold assemble Derived.names
    simp [Declaration.ofTensor, Function.comp_def]
  have hconstants : name ∈ (assemble config graph walk nodes).initializers.names ↔
      name ∈ walk.derived.names ∨ (name ∈ graph.initializers.names ∧ name ∉ walk.superseded) := by
    rw [← NameTable.isSome_get?_iff, get?_assemble h, Option.isSome_or, Bool.or_eq_true,
      ← NameTable.isSome_get?_iff]
    refine or_congr Derived.isSome_get?_iff ?_
    split_ifs with hsuperseded <;> simp [hsuperseded]
  unfold Graph.externalNames
  rw [List.mem_append, hinputs, hconstants, List.mem_append, List.mem_append]
  simp only [List.mem_map, List.mem_filter, Bool.not_eq_true', ← Bool.not_eq_true,
    List.contains_iff_mem]
  constructor
  · rintro ((⟨declaration, ⟨hmem, hkept⟩, rfl⟩ | hadded) | (hadded | ⟨hconstant, hkept⟩))
    · exact .inl ⟨.inl ⟨declaration, hmem, rfl⟩, hkept⟩
    · exact .inr hadded
    · exact .inr hadded
    · exact .inl ⟨.inr hconstant, hkept⟩
  · rintro (⟨⟨declaration, hmem, rfl⟩ | hconstant, hkept⟩ | hadded)
    · exact .inl (.inl ⟨declaration, ⟨hmem, hkept⟩, rfl⟩)
    · exact .inr (.inr ⟨hconstant, hkept⟩)
    · exact .inl (.inr hadded)

/-- The names that are defined in the new graph after some blocks. -/
def definedAfter (external : List String) (done : List Block) : List String :=
  external ++ (done.flatMap Block.nodes).flatMap Node.outputs

theorem definedAfter_concat (external : List String) (done : List Block) (block : Block) :
    definedAfter external (done ++ [block])
      = definedAfter external done ++ block.nodes.flatMap Node.outputs := by
  simp [definedAfter]

namespace Walk

/-- What is known about the new graph after some blocks, given its constants and inputs: its nodes
read what is defined, old results are there unless they go, and what the noted quantizers stand for
is there. -/
structure Covers (graph : Graph) (external : List String) (done : List Block) (walk : Walk) :
    Prop where
  reads : Graph.ReadsDefined external (done.flatMap Block.nodes)
  written : ∀ name ∈ (done.map Block.source).flatMap Node.outputs, name ∉ droppedNames graph →
    name ∈ definedAfter external done
  quantizers : ∀ input quantizer, walk.quantizers.lookup input = some quantizer →
    ∀ name ∈ [quantizer.output, quantizer.scale, quantizer.zeroPoint], name ≠ "" →
      name ∈ definedAfter external done

variable {external : List String}

/-- A block adds to what is known if its nodes read what is defined, the old results are written, and
the noted quantizers stay so. -/
theorem Covers.concat (h : Covers graph external done walk)
    (hreads : Graph.ReadsDefined (definedAfter external done) block.nodes)
    (hwritten : ∀ name ∈ block.source.outputs, name ∉ droppedNames graph →
      name ∈ block.nodes.flatMap Node.outputs)
    (hquantizers : ∀ input quantizer, walk'.quantizers.lookup input = some quantizer →
      ∀ name ∈ [quantizer.output, quantizer.scale, quantizer.zeroPoint], name ≠ "" →
        name ∈ definedAfter external (done ++ [block])) :
    Covers graph external (done ++ [block]) walk' := by
  refine ⟨?_, ?_, hquantizers⟩
  · rw [List.flatMap_append, List.flatMap_singleton]
    exact Graph.readsDefined_append.mpr ⟨h.reads, hreads⟩
  · intro name hname hkept
    rw [definedAfter_concat, List.mem_append]
    rw [List.map_append, List.flatMap_append, List.mem_append] at hname
    rcases hname with hold | hnew
    · exact .inl (h.written name hold hkept)
    · rw [List.map_singleton, List.flatMap_singleton] at hnew
      exact .inr (hwritten name hnew hkept)

/-- What was defined before a block is defined after it. -/
theorem Covers.quantizers_concat (h : Covers graph external done walk) (block : Block)
    (quantizer : Quantizer) (hlookup : walk.quantizers.lookup input = some quantizer) :
    ∀ name ∈ [quantizer.output, quantizer.scale, quantizer.zeroPoint], name ≠ "" →
      name ∈ definedAfter external (done ++ [block]) := by
  intro name hname hne
  rw [definedAfter_concat]
  exact List.mem_append_left _ (h.quantizers input quantizer hlookup name hname hne)

/-- **Whatever a node of the old graph still needs is there**, at its place in the new graph. -/
theorem Covers.available (h : Covers graph external done walk) (hgraph : graph.validate = .ok ())
    (hself : SelfContained graph)
    (hold : ∀ name ∈ graph.externalNames, name ∉ droppedNames graph → name ∈ external)
    (hsplit : graph.nodes = done.map Block.source ++ node :: after) (hname : name ∈ neededBy node) :
    name ∈ definedAfter external done := by
  have hkept : name ∉ droppedNames graph := by
    refine hself name (List.mem_append_left _ (List.mem_flatMap.mpr ⟨node, ?_, hname⟩))
    exact hsplit ▸ List.mem_append_right _ List.mem_cons_self
  obtain ⟨hread, hne⟩ := mem_inputs_of_needed hname
  have hreads := (Graph.validate_eq_ok_iff.mp hgraph).1.reads
  rw [hsplit] at hreads
  rcases List.mem_append.mp ((Graph.readsDefined_append.mp hreads).2.1 name hread hne) with
    hexternal | hwritten
  · exact List.mem_append_left _ (hold name hexternal hkept)
  · exact h.written name hwritten hkept

/-- A node that stays. -/
theorem covers_of_keep (h : Covers graph external done walk) (hnode : node.operator ≠ .conv)
    (havailable : ∀ name ∈ neededBy node, name ∈ definedAfter external done)
    (hkeep : walk.keep graph node = .ok walk') :
    Covers graph external (done ++ [.kept node]) walk' := by
  have hread : ∀ name ∈ node.inputs, name ≠ "" → name ∈ definedAfter external done :=
    fun name hname hne => havailable name (mem_neededBy_of_kept hnode hname hne)
  refine h.concat ⟨hread, trivial⟩ ?_ ?_
  · intro name hname _
    exact List.mem_flatMap.mpr ⟨node, List.mem_cons_self, hname⟩
  · rcases keep_eq_ok hkeep with ⟨rfl, -⟩ | ⟨input, output, scale, zeroPoint, params, -, -, houtput,
      hscale, hzero, -, -, rfl⟩
    · exact fun input quantizer hlookup => h.quantizers_concat _ quantizer hlookup
    · refine forall_lookup_concat (fun input quantizer hlookup =>
        h.quantizers_concat _ quantizer hlookup) ?_
      have hoperand : ∀ index name, node.input? index = some name →
          name ∈ definedAfter external (done ++ [.kept node]) := by
        intro index name hname
        obtain ⟨hmem, hne⟩ := Graph.mem_inputs_of_input? hname
        rw [definedAfter_concat]
        exact List.mem_append_left _ (hread name hmem hne)
      intro name hname _
      simp only [List.mem_cons, List.not_mem_nil, or_false] at hname
      rcases hname with rfl | rfl | rfl
      · rw [definedAfter_concat]
        exact List.mem_append_right _ (List.mem_flatMap.mpr
          ⟨node, List.mem_cons_self, List.mem_of_mem_head? houtput⟩)
      · exact hoperand 1 _ hscale
      · exact hoperand 2 _ hzero

/-- The quantizer of the data of a convolution: what it reads is there, and what it stands for is
there after it. -/
theorem covers_of_source {label : String} {source : Quantizer} {quantize : List Node}
    (h : Covers graph external done walk) (hinput : input ∈ definedAfter external done)
    (hconstants : ∀ name ∈ quantize.flatMap (·.inputs.drop 1), name ∈ external)
    (hsource : walk.source types label input = .ok (middle, source, quantize)) :
    Graph.ReadsDefined (definedAfter external done) quantize ∧
      (∀ name ∈ [source.output, source.scale, source.zeroPoint], name ≠ "" →
        name ∈ definedAfter external done ++ quantize.flatMap Node.outputs) ∧
      ∀ other quantizer, middle.quantizers.lookup other = some quantizer →
        ∀ name ∈ [quantizer.output, quantizer.scale, quantizer.zeroPoint], name ≠ "" →
          name ∈ definedAfter external done ++ quantize.flatMap Node.outputs := by
  rcases source_eq_ok hsource with ⟨hknown, rfl, rfl⟩ | ⟨_, -, -, -, rfl, rfl⟩
  · rw [List.flatMap_nil, List.append_nil]
    exact ⟨trivial, h.quantizers input source hknown, h.quantizers⟩
  · have hscale : source.scale ∈ external := hconstants _ (by simp [Quantizer.node, Node.make])
    have hzero : source.zeroPoint ∈ external := hconstants _ (by simp [Quantizer.node, Node.make])
    have hnew : ∀ name ∈ [source.output, source.scale, source.zeroPoint], name ≠ "" →
        name ∈ definedAfter external done ++ [source.node input].flatMap Node.outputs := by
      intro name hname _
      simp only [List.mem_cons, List.not_mem_nil, or_false] at hname
      rcases hname with rfl | rfl | rfl
      · exact List.mem_append_right _ (by simp [Quantizer.node, Node.make])
      · exact List.mem_append_left _ (List.mem_append_left _ hscale)
      · exact List.mem_append_left _ (List.mem_append_left _ hzero)
    refine ⟨⟨?_, trivial⟩, hnew, forall_lookup_concat ?_ hnew⟩
    · intro name hname _
      simp only [Quantizer.node, Node.make, List.mem_cons, List.not_mem_nil, or_false] at hname
      rcases hname with rfl | rfl | rfl
      · exact hinput
      · exact List.mem_append_left _ hscale
      · exact List.mem_append_left _ hzero
    · intro other quantizer hlookup name hname hne
      exact List.mem_append_left _ (h.quantizers other quantizer hlookup name hname hne)

/-- The quantized convolution and the node after it read what its quantizer stands for and the
constants of the layer. -/
theorem readsDefined_layer {defined : List String} {source : Quantizer} {result : String}
    (hsource : ∀ name ∈ [source.output, source.scale, source.zeroPoint], name ≠ "" →
      name ∈ defined) (hconstants : ∀ name ∈ layerNames node.label, name ∈ defined) :
    Graph.ReadsDefined defined [convolution node source, dequantizer node result] := by
  refine ⟨?_, ?_, trivial⟩
  · intro name hname hne
    simp only [convolution, operandNames, List.mem_cons, List.not_mem_nil, or_false] at hname
    rcases hname with rfl | rfl | rfl | hlayer
    · exact hsource _ (by simp) hne
    · exact hsource _ (by simp) hne
    · exact hsource _ (by simp) hne
    · refine hconstants name ?_
      simp only [layerNames, List.mem_cons, List.not_mem_nil, or_false]
      tauto
  · intro name hname _
    simp only [dequantizer, Node.make, List.mem_cons, List.not_mem_nil, or_false] at hname
    rcases hname with rfl | rfl | rfl
    · exact List.mem_append_right _ List.mem_cons_self
    · exact List.mem_append_left _ (hconstants _ (by simp [layerNames]))
    · exact List.mem_append_left _ (hconstants _ (by simp [layerNames]))

/-- **A step covers its block**, whichever kind of node it is for. -/
theorem covers_of_step (h : Covers graph external done walk)
    (havailable : ∀ name ∈ neededBy block.source, name ∈ definedAfter external done)
    (hdropped : ∀ name ∈ block.source.outputs, name ∉ droppedNames graph →
      block.source.operator = .conv → block.source.output? = some name)
    (hconstants : ∀ name ∈ block.constants, name ∈ external)
    (hstep : Step graph types totalBits walk block walk') :
    Covers graph external (done ++ [block]) walk' := by
  cases hstep with
  | keep hnode hkeep => exact covers_of_keep h hnode havailable hkeep
  | @convert middle node analyzed source quantize _ _ _ hnode hanalyzed hsource _ _ _ =>
    have hspec := spec_of_analyzeConv hanalyzed
    have hnodes : quantize.head?.toList = quantize := toList_head?_of_source hsource
    have hblock : ∀ name, name ∈ quantize.flatMap (·.inputs.drop 1) ++ layerNames node.label →
        name ∈ external := by
      intro name hname
      refine hconstants name ?_
      show name ∈ quantize.head?.toList.flatMap (·.inputs.drop 1) ++ _ ++ _
      rw [hnodes, List.append_assoc]
      exact hname
    obtain ⟨hreads, hnew, hnoted⟩ := covers_of_source h
      (havailable _ (mem_neededBy_of_data hnode hspec.input_eq))
      (fun name hname => hblock name (List.mem_append_left _ hname)) hsource
    have hlayer : ∀ name ∈ layerNames node.label, name ∈ definedAfter external done
        ++ quantize.flatMap Node.outputs := fun name hname =>
      List.mem_append_left _ (List.mem_append_left _ (hblock name (List.mem_append_right _ hname)))
    refine h.concat ?_ ?_ ?_
    · show Graph.ReadsDefined _ (quantize.head?.toList ++ _)
      rw [hnodes]
      exact Graph.readsDefined_append.mpr ⟨hreads, readsDefined_layer hnew hlayer⟩
    · intro name hname hkept
      obtain rfl := Option.some_inj.mp
        (hspec.output_eq.symm.trans (hdropped name hname hkept hnode))
      exact List.mem_flatMap.mpr
        ⟨_, List.mem_append_right _ (List.mem_cons_of_mem _ List.mem_cons_self),
          List.mem_cons_self⟩
    · intro other quantizer hlookup name hname hne
      rw [definedAfter_concat]
      rcases List.mem_append.mp (hnoted other quantizer hlookup name hname hne) with hold | hquantize
      · exact List.mem_append_left _ hold
      · refine List.mem_append_right _ ?_
        show name ∈ (quantize.head?.toList ++ _).flatMap Node.outputs
        rw [hnodes, List.flatMap_append]
        exact List.mem_append_left _ hquantize

end Walk

/-- **A walk covers its blocks.** -/
theorem covers_of_steps {external : List String} (hgraph : graph.validate = .ok ())
    (hself : SelfContained graph)
    (hold : ∀ name ∈ graph.externalNames, name ∉ droppedNames graph → name ∈ external)
    (hstart : start.quantizers = []) (h : Steps graph types totalBits start blocks walk)
    (hsplit : graph.nodes = blocks.map Block.source ++ after)
    (hconstants : ∀ block ∈ blocks, ∀ name ∈ block.constants, name ∈ external) :
    Walk.Covers graph external blocks walk := by
  induction h generalizing after with
  | nil =>
    refine ⟨trivial, fun name hname => absurd hname List.not_mem_nil, ?_⟩
    intro input quantizer hlookup
    rw [hstart] at hlookup
    cases hlookup
  | @snoc done walk walk' block hsteps hstep ih =>
    rw [List.map_append, List.append_assoc] at hsplit
    have hdone := ih hsplit fun other hother => hconstants other (List.mem_append_left _ hother)
    have hmem : block.source ∈ graph.nodes := hsplit ▸ List.mem_append_right _ List.mem_cons_self
    refine Walk.covers_of_step hdone (fun name hname => hdone.available hgraph hself hold hsplit hname)
      ?_ (hconstants block (List.mem_append_right _ List.mem_cons_self)) hstep
    intro name hname hkept hconv
    unfold Node.output?
    cases houtputs : block.source.outputs with
    | nil =>
      rw [houtputs] at hname
      cases hname
    | cons first others =>
      rw [houtputs] at hname
      rcases List.mem_cons.mp hname with rfl | htail
      · rfl
      · exact absurd (mem_droppedNames_of_tail hmem hconv (by rw [houtputs]; exact htail)) hkept

/-! ### The new graph -/

/-- **In a graph that needs nothing that is dropped, every reference stays one to a defined name.** -/
theorem resolved_assemble {params : Params} (hgraph : graph.validate = .ok ())
    (hself : SelfContained graph)
    (h : Steps graph types totalBits (Walk.start graph params) blocks last)
    (hsplit : blocks.map Block.source = graph.nodes) :
    (assemble config graph last (blocks.flatMap Block.nodes)).Resolved := by
  set target := assemble config graph last (blocks.flatMap Block.nodes)
  have haccounts := accounts_of_steps h
  have hexternal : ∀ name, name ∈ target.externalNames ↔
      (name ∈ graph.externalNames ∧ name ∉ last.superseded) ∨ name ∈ last.derived.names :=
    fun name => mem_externalNames_assemble haccounts.nodup
  have hold : ∀ name ∈ graph.externalNames, name ∉ droppedNames graph →
      name ∈ target.externalNames := by
    intro name hname hkept
    refine (hexternal name).mpr (.inl ⟨hname, fun hsuperseded => hkept ?_⟩)
    exact mem_droppedNames_of_feedsConv ((feedsConv_iff hsplit (wellFormed_of_steps h)).mpr
      ((haccounts.mem_superseded_iff name).mp hsuperseded))
  have hconstants : ∀ block ∈ blocks, ∀ name ∈ block.constants, name ∈ target.externalNames := by
    intro block hblock name hname
    cases block with
    | kept node => cases hname
    | converted conversion =>
      exact (hexternal name).mpr (.inr ((haccounts.mem_names_iff name).mpr
        ⟨conversion, mem_conversions.mpr hblock, hname⟩))
  have hall : graph.nodes = blocks.map Block.source ++ [] := by rw [List.append_nil, hsplit]
  have hcovers := covers_of_steps hgraph hself hold rfl h hall hconstants
  refine ⟨hcovers.reads, ?_⟩
  intro declaration hdeclaration
  have hkept : declaration.name ∉ droppedNames graph :=
    hself _ (List.mem_append_right _ (List.mem_map_of_mem hdeclaration))
  rcases List.mem_append.mp ((Graph.validate_eq_ok_iff.mp hgraph).1.outputs declaration
    hdeclaration) with hname | hname
  · exact List.mem_append_left _ (hold _ hname hkept)
  · exact hcovers.written _ (hsplit ▸ hname) hkept

/-- A conversion of such a graph does not fail for a reference. -/
theorem avoids_quantize (hgraph : graph.validate = .ok ()) (hself : SelfContained graph) :
    Avoids Error.OfReference (quantize config graph) := by
  refine avoids_validateConfig.bind fun _ _ => ?_
  refine avoids_analyzeAll.bind fun tagged htagged => (Params.avoids_make? _ _).bind fun params _ => ?_
  refine (Walk.avoids_nodes _ _).bind fun ⟨last, nodes⟩ hnodes => ?_
  obtain ⟨hsources, htags⟩ := tagged_of_analyzeAll htagged
  obtain ⟨blocks, hsteps, hblocks, rfl⟩ := steps_of_nodes .nil htags hnodes
  have hresolved : (assemble config graph last (blocks.flatMap Block.nodes)).Resolved :=
    resolved_assemble hgraph hself hsteps (hblocks.trans hsources)
  refine Avoids.bind ?_ fun _ _ => avoids_ok _ _
  exact (Graph.avoids_validate hresolved).mapError fun _ => id

/-! ### Names that are missed -/

/-- A name that a node of the new graph writes is a result of a node that stays, the first result of a
convolution, or the name of a tensor that was put in. -/
theorem mem_outputs_of_block (hwell : block.WellFormed) (hnode : node ∈ block.nodes)
    (hname : name ∈ node.outputs) :
    (block.source.operator ≠ .conv ∧ name ∈ block.source.outputs) ∨
      block.source.output? = some name ∨
      ∃ conversion, block = .converted conversion ∧ name ∈ conversion.results := by
  cases block with
  | kept other =>
    obtain rfl := List.mem_singleton.mp hnode
    exact .inl ⟨hwell, hname⟩
  | converted conversion =>
    have hwell : conversion.WellFormed := hwell
    simp only [Block.nodes, Conversion.nodes, List.mem_append, Option.mem_toList, List.mem_cons,
      List.not_mem_nil, or_false] at hnode
    rcases hnode with hquantizer | rfl | rfl
    · refine .inr (.inr ⟨conversion, rfl, List.mem_append_left _ ?_⟩)
      exact List.mem_flatMap.mpr ⟨node, Option.mem_toList.mpr hquantizer, hname⟩
    · exact .inr (.inr ⟨conversion, rfl, List.mem_append_right _ hname⟩)
    · obtain ⟨output, houtput, hwritten⟩ := hwell.output_eq
      rw [hwritten] at hname
      obtain rfl := List.mem_singleton.mp hname
      exact .inr (.inl houtput)

/-- A constant that was superseded is gone. -/
theorem not_mem_occurringNames_of_operand {params : Params}
    (h : Steps graph types totalBits (Walk.start graph params) blocks last)
    (hspliced : Spliced graph report blocks) (hconverted : Converted graph report.graph last)
    (hnode : node ∈ graph.nodes) (hconv : node.operator = .conv)
    (hname : name ∈ (node.input? 1).toList ++ (node.input? 2).toList) :
    name ∉ occurringNames report.graph := by
  refine hconverted.superseded_gone name ?_
  rw [(accounts_of_steps h).mem_superseded_iff,
    ← feedsConv_iff hspliced.sources_eq hspliced.wellFormed]
  unfold feedsConv
  simp only [List.any_eq_true, Bool.and_eq_true, Bool.or_eq_true, beq_iff_eq]
  exact ⟨node, hnode, hconv, by simpa using hname⟩

/-- A further result of a convolution is gone: only the convolution wrote it. -/
theorem not_mem_occurringNames_of_result (hgraph : graph.validate = .ok ()) (hfresh : Fresh graph)
    {params : Params} (h : Steps graph types totalBits (Walk.start graph params) blocks last)
    (hspliced : Spliced graph report blocks)
    (hreport : report.graph = assemble config graph last nodes) (hnode : node ∈ graph.nodes)
    (hconv : node.operator = .conv) (hname : name ∈ node.outputs.tail) :
    name ∉ occurringNames report.graph := by
  have haccounts := accounts_of_steps h
  have hwrites := (Graph.validate_eq_ok_iff.mp hgraph).2
  have hwritten : name ∈ node.outputs := List.mem_of_mem_tail hname
  have hnotNew : ∀ conversion ∈ conversions blocks,
      ¬(name ∈ conversion.constants ∨ name ∈ conversion.results) := by
    intro conversion hconversion hnew
    have hall : graph.nodes = blocks.map Block.source ++ [] := by
      rw [List.append_nil, hspliced.sources_eq]
    exact not_mem_occurringNames_of_put_in hfresh rfl h hall hconversion hnew
      (mem_occurringNames_of_output hnode hwritten)
  intro hmem
  rcases List.mem_append.mp hmem with hexternal | houtput
  · rw [hreport, mem_externalNames_assemble haccounts.nodup] at hexternal
    rcases hexternal with ⟨hexternal, -⟩ | hderived
    · exact not_external_of_output hgraph hnode hwritten hexternal
    · obtain ⟨conversion, hconversion, hconstant⟩ := (haccounts.mem_names_iff name).mp hderived
      exact hnotNew conversion hconversion (.inl hconstant)
  · obtain ⟨other, hother, houtput⟩ := List.mem_flatMap.mp houtput
    rw [hspliced.nodes_eq] at hother
    obtain ⟨block, hblock, hother⟩ := List.mem_flatMap.mp hother
    obtain ⟨final, hchecked, -⟩ := Graph.nodes_of_validate hgraph
    have hsource : block.source ∈ graph.nodes := hspliced.sources_eq ▸ List.mem_map_of_mem hblock
    rcases mem_outputs_of_block (hspliced.wellFormed block hblock) hother houtput with
      ⟨hkept, hsame⟩ | hfirst | ⟨conversion, rfl, hresult⟩
    · obtain rfl := Graph.eq_of_mem_outputs hchecked hnode hsource hwritten hsame
      exact hkept hconv
    · obtain rfl := Graph.eq_of_mem_outputs hchecked hnode hsource hwritten
        (List.mem_of_mem_head? hfirst)
      exact Graph.output?_ne_of_mem_tail (hwrites.nodup_outputs hnode) hname hfirst
    · exact hnotNew conversion (mem_conversions.mpr hblock) (.inr hresult)

/-- **What is dropped is gone**, if the conversion introduces only new names. -/
theorem not_mem_occurringNames_of_dropped (hgraph : graph.validate = .ok ()) (hfresh : Fresh graph)
    {params : Params} (h : Steps graph types totalBits (Walk.start graph params) blocks last)
    (hspliced : Spliced graph report blocks) (hconverted : Converted graph report.graph last)
    (hreport : report.graph = assemble config graph last nodes) (hname : name ∈ droppedNames graph) :
    name ∉ occurringNames report.graph := by
  obtain ⟨node, hnode, hname⟩ := List.mem_flatMap.mp hname
  unfold droppedBy at hname
  split_ifs at hname with hconv
  · rcases List.mem_append.mp hname with hoperand | hresult
    · exact not_mem_occurringNames_of_operand h hspliced hconverted hnode hconv hoperand
    · exact not_mem_occurringNames_of_result hgraph hfresh h hspliced hreport hnode hconv hresult
  · cases hname

/-- The data of a convolution is still read, by the first node that quantizes it. -/
theorem exists_reader_of_data (h : Steps graph types totalBits start blocks last)
    (hstart : start.quantizers = []) {conversion : Conversion}
    (hconversion : .converted conversion ∈ blocks) (hconv : conversion.node.operator = .conv)
    (hdata : conversion.node.input? 0 = some name) :
    ∃ block ∈ blocks, ∃ node ∈ block.nodes, name ∈ node.inputs := by
  have hknown := known_of_steps hstart h
  cases hlookup : last.quantizers.lookup name with
  | none =>
    exact absurd (.inl ⟨hconv, hdata⟩) (hknown.unquantized name hlookup _ hconversion)
  | some quantizer =>
    obtain ⟨front, first, back, rfl, -, hsupplies⟩ := hknown.supplied name quantizer hlookup
    have hfirst : first ∈ front ++ first :: back := List.mem_append_right _ List.mem_cons_self
    cases hsupplies with
    | @existing node hcomplete =>
      exact ⟨_, hfirst, node, List.mem_cons_self,
        (Graph.mem_inputs_of_input? hcomplete.input_eq).1⟩
    | @inserted supplier _ _ hquantizer _ =>
      refine ⟨_, hfirst, quantizer.node name, List.mem_append_left _ ?_, List.mem_cons_self⟩
      rw [hquantizer]
      exact List.mem_cons_self

/-- **What is needed is missed.**  Some node of the new graph reads it, or it is an output. -/
theorem mem_occurringNames_of_needed
    (h : Steps graph types totalBits start blocks last) (hstart : start.quantizers = [])
    (hspliced : Spliced graph report blocks) (hreport : report.graph.outputs = graph.outputs)
    (htarget : report.graph.validate = .ok ()) (hname : name ∈ neededNames graph) :
    name ∈ occurringNames report.graph := by
  have hresolved := (Graph.validate_eq_ok_iff.mp htarget).1
  rcases List.mem_append.mp hname with hneeded | houtput
  · obtain ⟨node, hnode, hneeded⟩ := List.mem_flatMap.mp hneeded
    rw [← hspliced.sources_eq] at hnode
    obtain ⟨block, hblock, rfl⟩ := List.mem_map.mp hnode
    obtain ⟨hmem, hne⟩ := mem_inputs_of_needed hneeded
    have hreader : ∃ block ∈ blocks, ∃ node ∈ block.nodes, name ∈ node.inputs := by
      cases block with
      | kept node => exact ⟨_, hblock, node, List.mem_cons_self, hmem⟩
      | converted conversion =>
        have hwell : conversion.WellFormed := hspliced.wellFormed _ hblock
        unfold neededBy at hneeded
        rw [show (Block.converted conversion).source = conversion.node from rfl,
          if_pos hwell.operator_eq] at hneeded
        exact exists_reader_of_data h hstart hblock hwell.operator_eq (Option.mem_toList.mp hneeded)
    obtain ⟨block, hblock, node, hnode, hread⟩ := hreader
    refine hresolved.reads.mem ?_ hread hne
    rw [hspliced.nodes_eq]
    exact List.mem_flatMap.mpr ⟨block, hblock, hnode⟩
  · obtain ⟨declaration, hdeclaration, rfl⟩ := List.mem_map.mp houtput
    exact hresolved.outputs declaration (hreport ▸ hdeclaration)

/-- **When a conversion fails for a reference.**  It never does for a graph that needs none of the
names that are dropped.  Any other graph, unless it has a name that a conversion makes up, cannot be
converted at all. -/
theorem quantize_references (hgraph : graph.validate = .ok ()) :
    (SelfContained graph → Avoids Error.OfReference (quantize config graph)) ∧
    (Fresh graph → ¬SelfContained graph → ∀ report, quantize config graph ≠ .ok report) := by
  refine ⟨avoids_quantize hgraph, ?_⟩
  intro hfresh hself report h
  obtain ⟨params, last, nodes, blocks, -, hsteps, hreport, htarget, hspliced, hconverted⟩ :=
    exists_steps h
  refine hself fun name hneeded hdropped => ?_
  exact not_mem_occurringNames_of_dropped hgraph hfresh hsteps hspliced (hconverted hgraph hfresh)
    (congrArg Report.graph hreport) hdropped
    (mem_occurringNames_of_needed hsteps rfl hspliced (by rw [hreport]; rfl) htarget hneeded)

/-! ### A constant with two readers -/

/-- A convolution, and a rectifier of its weights. -/
def sharing : Graph :=
  { name := "sharing"
    opset := 9
    inputs := [.ofName "x"]
    outputs := [.ofName "y"]
    nodes := [.make .conv "c" ["x", "w", "b"] ["y"], .make .relu "r" ["w"] ["z"]]
    initializers :=
      .ofList [("w", .oneReal 4 (.powerOfTwo (-1))), ("b", .oneReal 1 (.zero false))] }

/-- Weights that several convolutions read are no obstacle; weights that another node reads are
one. -/
theorem quantize_references_shared :
    (branches.validate = .ok () ∧ SelfContained branches ∧
      Avoids Error.OfReference (quantize {} branches)) ∧
    sharing.validate = .ok () ∧ Fresh sharing ∧ ¬SelfContained sharing ∧
      ∀ report, quantize {} sharing ≠ .ok report := by
  have hbranches : branches.validate = .ok () := by decide +kernel
  have hself : SelfContained branches := by decide +kernel
  have hsharing : sharing.validate = .ok () := by decide +kernel
  have hfresh : Fresh sharing := by decide +kernel
  have hshared : ¬SelfContained sharing := by decide +kernel
  exact ⟨⟨hbranches, hself, (quantize_references hbranches).1 hself⟩, hsharing, hfresh, hshared,
    (quantize_references hsharing).2 hfresh hshared⟩

/-- **A constant that a convolution uses as its weights is gone for everyone else.** -/
theorem quantize_references_missing :
    ({} : Config).validate = .ok () ∧ sharing.validate = .ok () ∧
      quantize {} sharing = .error (.graph (.unresolvedInput "r" "w")) := by
  have hfault : (match quantize {} sharing with
      | .error fault => some fault
      | .ok _ => none) = some (.graph (.unresolvedInput "r" "w")) := by
    decide +kernel
  refine ⟨by decide +kernel, by decide +kernel, ?_⟩
  cases hquantize : quantize {} sharing with
  | error fault =>
    rw [hquantize] at hfault
    exact congrArg Except.error (Option.some_inj.mp hfault)
  | ok report =>
    rw [hquantize] at hfault
    cases hfault

end DyadicNet.Quantize
