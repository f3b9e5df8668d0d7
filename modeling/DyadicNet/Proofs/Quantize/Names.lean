import Mathlib
import DyadicNet.Proofs.Quantize.Frame

/-!
# The names that a conversion makes up

A conversion puts tensors into a graph under names that it makes up, by a suffix at the end of the
label of a convolution or of the name of its data.  Which names these are can be told from the old
graph alone: they are the ones that its nodes introduce, given what was quantized before them.

**A name tells what it was made from.**  No suffix ends in another one, so two names that were made
from different labels or tensors are different, whatever the labels and the tensors are called.

## Main Definitions

* `quantizerSuffixes`, `layerSuffixes` — the suffixes;
* `MadeFrom` — that a name was made from another one;
* `Conversion.results` — the tensors between the inserted nodes.

## Main Statements

* `append_suffix_inj`, `MadeFrom.unique` — a name tells what it was made from;
* `records_of_steps` — what is on record after a walk;
* `exists_introduced_iff` — the names in the blocks of a walk are those that its nodes introduce;
* `not_mem_occurringNames_of_put_in` — in a fresh graph none of them occurs.
-/

namespace DyadicNet.Quantize

/-! ### Suffixes -/

/-- The suffixes of the names that a quantizer introduces. -/
def quantizerSuffixes : List String :=
  ["_quant", "_quant_scale", "_quant_zero_point"]

/-- The suffixes of the names that a convolution introduces for its layer. -/
def layerSuffixes : List String :=
  ["_dequant", "_quant_weights", "_quant_weights_scale", "_quant_weights_zero_point",
    "_quant_scale", "_quant_zero_point", "_quant_bias", "_dequant_scale", "_dequant_zero_point"]

theorem quantizerNames_eq (input : String) :
    quantizerNames input = quantizerSuffixes.map (input ++ ·) := by
  simp [quantizerNames, quantizerSuffixes, Derived.scaleName, Derived.zeroPointName,
    String.append_assoc]

theorem dequantName_cons_layerNames_eq (label : String) :
    Walk.dequantName label :: layerNames label = layerSuffixes.map (label ++ ·) := by
  simp [layerNames, layerSuffixes, Walk.dequantName, Derived.scaleName, Derived.zeroPointName,
    String.append_assoc]

/-- No suffix ends in another one. -/
theorem eq_of_suffix : ∀ s ∈ quantizerSuffixes ++ layerSuffixes,
    ∀ t ∈ quantizerSuffixes ++ layerSuffixes, s.toList <:+ t.toList → s = t := by
  decide +kernel

variable {a b s t name : String}

/-- **A name can be split into what it was made from and a suffix in one way only.** -/
theorem append_suffix_inj (h : a ++ s = b ++ t) (hs : s ∈ quantizerSuffixes ++ layerSuffixes)
    (ht : t ∈ quantizerSuffixes ++ layerSuffixes) : a = b ∧ s = t := by
  have hlist : a.toList ++ s.toList = b.toList ++ t.toList := by
    rw [← String.toList_append, ← String.toList_append, h]
  have hsame : s = t := by
    rcases List.suffix_or_suffix_of_suffix (List.suffix_append a.toList s.toList)
      (hlist ▸ List.suffix_append b.toList t.toList) with hst | hts
    · exact eq_of_suffix s hs t ht hst
    · exact (eq_of_suffix t ht s hs hts).symm
  subst hsame
  exact ⟨String.toList_injective (List.append_cancel_right hlist), rfl⟩

/-- A name was made from a label or the name of a tensor, by one of the suffixes. -/
def MadeFrom (base name : String) : Prop :=
  ∃ suffix ∈ quantizerSuffixes ++ layerSuffixes, name = base ++ suffix

/-- **A name was made from one other name only.** -/
theorem MadeFrom.unique (ha : MadeFrom a name) (hb : MadeFrom b name) : a = b := by
  obtain ⟨s, hs, rfl⟩ := ha
  obtain ⟨t, ht, heq⟩ := hb
  exact (append_suffix_inj heq hs ht).1

theorem madeFrom_of_mem_quantizerNames {input : String} (h : name ∈ quantizerNames input) :
    MadeFrom input name := by
  rw [quantizerNames_eq] at h
  obtain ⟨suffix, hsuffix, rfl⟩ := List.mem_map.mp h
  exact ⟨suffix, List.mem_append_left _ hsuffix, rfl⟩

theorem madeFrom_of_mem_layer {label : String}
    (h : name ∈ Walk.dequantName label :: layerNames label) : MadeFrom label name := by
  rw [dequantName_cons_layerNames_eq] at h
  obtain ⟨suffix, hsuffix, rfl⟩ := List.mem_map.mp h
  exact ⟨suffix, List.mem_append_right _ hsuffix, rfl⟩

theorem nodup_quantizerNames (input : String) : (quantizerNames input).Nodup := by
  rw [quantizerNames_eq]
  exact List.Nodup.map (fun _ _ h => (String.append_right_inj input).mp h) (by decide)

theorem nodup_layer (label : String) :
    (Walk.dequantName label :: layerNames label).Nodup := by
  rw [dequantName_cons_layerNames_eq]
  exact List.Nodup.map (fun _ _ h => (String.append_right_inj label).mp h) (by decide)

/-! ### What a node introduces -/

variable {graph : Graph} {types : Types} {totalBits : ℕ} {start walk walk' last : Walk}
  {block : Block} {blocks : List Block} {conversion : Conversion} {node : Node}
  {names : List (String × String)}

/-- The names of the tensors between the inserted nodes. -/
def Conversion.results (conversion : Conversion) : List String :=
  conversion.quantizer.toList.flatMap (·.outputs) ++ conversion.convolution.outputs

/-- Only a convolution introduces names; they are made from its label and from the name of its
data. -/
theorem madeFrom_of_introduced (h : name ∈ introduced names node) :
    node.operator = .conv ∧
      (MadeFrom node.label name ∨ ∃ input, node.input? 0 = some input ∧
        names.lookup input = none ∧ MadeFrom input name) := by
  unfold introduced at h
  split at h
  · next input hnode hinput =>
    refine ⟨hnode, ?_⟩
    rcases List.mem_append.mp h with hquantizer | hlayer
    · split_ifs at hquantizer with hknown
      · cases hquantizer
      · exact .inr ⟨input, hinput, Option.not_isSome_iff_eq_none.mp hknown,
          madeFrom_of_mem_quantizerNames hquantizer⟩
    · exact .inl (madeFrom_of_mem_layer hlayer)
  · cases h

/-- **What a step puts in**: the constants and the result of its layer, and those of a quantizer for
its data if that has none. -/
theorem names_of_step (hstep : Step graph types totalBits walk (.converted conversion) walk') :
    ∃ input, conversion.node.input? 0 = some input ∧
      (((walk.quantizers.lookup input).isSome = true ∧
          conversion.constants = layerNames conversion.node.label ∧
          conversion.results = [Walk.dequantName conversion.node.label]) ∨
        (walk.quantizers.lookup input = none ∧
          conversion.constants = (quantizerNames input).tail ++ layerNames conversion.node.label ∧
          conversion.results = [input ++ "_quant", Walk.dequantName conversion.node.label])) := by
  cases hstep with
  | @convert _ node analyzed source quantize _ _ _ hnode hanalyzed hsource _ _ _ =>
    refine ⟨analyzed.input, (spec_of_analyzeConv hanalyzed).input_eq, ?_⟩
    rcases Walk.source_eq_ok hsource with ⟨hknown, -, rfl⟩ | ⟨_, hnew, rfl, -, -, rfl⟩
    · exact .inl ⟨by rw [hknown]; rfl, rfl, rfl⟩
    · exact .inr ⟨hnew, rfl, rfl⟩

/-- **A step puts in the names that its node introduces**, as constants and as results. -/
theorem mem_introduced_iff (hrecords : Walk.Records names walk)
    (hstep : Step graph types totalBits walk (.converted conversion) walk') :
    name ∈ introduced names conversion.node ↔
      name ∈ conversion.constants ∨ name ∈ conversion.results := by
  have hnode := (wellFormed_of_step hstep).operator_eq
  obtain ⟨input, hinput, ⟨hknown, hconstants, hresults⟩ | ⟨hnew, hconstants, hresults⟩⟩ :=
    names_of_step hstep
  · unfold introduced
    rw [hnode, hinput, hconstants, hresults]
    dsimp only
    rw [if_pos (hrecords.isSome hknown)]
    simp [or_comm]
  · unfold introduced
    rw [hnode, hinput, hconstants, hresults]
    dsimp only
    rw [hrecords.eq_none hnew]
    simp [quantizerNames]
    tauto

/-- The two results of a step are different. -/
theorem nodup_results (hstep : Step graph types totalBits walk (.converted conversion) walk') :
    conversion.results.Nodup := by
  obtain ⟨input, -, ⟨-, -, hresults⟩ | ⟨-, -, hresults⟩⟩ := names_of_step hstep
  · rw [hresults]
    exact List.nodup_singleton _
  · rw [hresults, List.nodup_cons, List.mem_singleton]
    refine ⟨fun h => ?_, List.nodup_singleton _⟩
    exact absurd (append_suffix_inj h (by decide) (by decide)).2 (by decide)

/-- A result has one of two suffixes. -/
theorem exists_base_of_result (hstep : Step graph types totalBits walk (.converted conversion) walk')
    (hname : name ∈ conversion.results) :
    ∃ base, ∃ suffix ∈ ["_quant", "_dequant"], name = base ++ suffix := by
  obtain ⟨input, -, ⟨-, -, hresults⟩ | ⟨-, -, hresults⟩⟩ := names_of_step hstep
  · rw [hresults, List.mem_singleton] at hname
    exact ⟨_, "_dequant", by decide, hname⟩
  · rw [hresults, List.mem_cons, List.mem_singleton] at hname
    rcases hname with hquantized | hconvolved
    · exact ⟨_, "_quant", by decide, hquantized⟩
    · exact ⟨_, "_dequant", by decide, hconvolved⟩

/-- A constant has one of the others. -/
theorem exists_base_of_constant
    (hstep : Step graph types totalBits walk (.converted conversion) walk')
    (hname : name ∈ conversion.constants) :
    ∃ base, ∃ suffix ∈ quantizerSuffixes.tail ++ layerSuffixes.tail, name = base ++ suffix := by
  have hlayer : name ∈ layerNames conversion.node.label →
      ∃ base, ∃ suffix ∈ quantizerSuffixes.tail ++ layerSuffixes.tail, name = base ++ suffix := by
    intro hname
    have htail := congrArg List.tail (dequantName_cons_layerNames_eq conversion.node.label)
    rw [List.tail_cons, ← List.map_tail] at htail
    rw [htail] at hname
    obtain ⟨suffix, hsuffix, rfl⟩ := List.mem_map.mp hname
    exact ⟨_, suffix, List.mem_append_right _ hsuffix, rfl⟩
  obtain ⟨input, -, ⟨-, hconstants, -⟩ | ⟨-, hconstants, -⟩⟩ := names_of_step hstep
  · exact hlayer (hconstants ▸ hname)
  · rw [hconstants, List.mem_append, quantizerNames_eq, ← List.map_tail] at hname
    rcases hname with hquantizer | hname
    · obtain ⟨suffix, hsuffix, rfl⟩ := List.mem_map.mp hquantizer
      exact ⟨_, suffix, List.mem_append_left _ hsuffix, rfl⟩
    · exact hlayer hname

/-- A step keeps the record. -/
theorem records_of_step (h : Walk.Records names walk)
    (hstep : Step graph types totalBits walk block walk') :
    Walk.Records (record names block.source) walk' := by
  cases hstep with
  | keep hnode hkeep => exact h.keep hnode hkeep
  | convert hnode hanalyzed hsource _ _ _ =>
    have hmiddle := h.source hnode (spec_of_analyzeConv hanalyzed).input_eq hsource
    exact hmiddle

/-- **After a walk, that is on record which its nodes quantize.** -/
theorem records_of_steps (hstart : start.quantizers = [])
    (h : Steps graph types totalBits start blocks walk) :
    Walk.Records (recorded (blocks.map Block.source)) walk := by
  induction h with
  | nil =>
    intro input
    rw [hstart]
    rfl
  | snoc hsteps hstep ih =>
    rw [List.map_append, List.map_singleton, Walk.recorded_concat]
    exact records_of_step ih hstep

/-- **The names in the blocks of a walk are those that its nodes introduce.** -/
theorem exists_introduced_iff (hstart : start.quantizers = [])
    (h : Steps graph types totalBits start blocks last) :
    (∃ before node after, blocks.map Block.source = before ++ node :: after ∧
        name ∈ introduced (recorded before) node) ↔
      ∃ conversion ∈ conversions blocks,
        name ∈ conversion.constants ∨ name ∈ conversion.results := by
  constructor
  · rintro ⟨before, node, after, hsplit, hname⟩
    obtain ⟨front, rest, rfl, rfl, hrest⟩ := List.map_eq_append_iff.mp hsplit
    obtain ⟨block, back, rfl, rfl, -⟩ := List.map_eq_cons_iff.mp hrest
    obtain ⟨walk, walk', hbefore, hstep⟩ := h.at rfl
    have hblock : block.WellFormed := wellFormed_of_step hstep
    cases block with
    | kept node => exact absurd (madeFrom_of_introduced hname).1 hblock
    | converted conversion =>
      exact ⟨conversion, mem_conversions.mpr (List.mem_append_right _ List.mem_cons_self),
        (mem_introduced_iff (records_of_steps hstart hbefore) hstep).mp hname⟩
  · rintro ⟨conversion, hconversion, hname⟩
    obtain ⟨front, back, hsplit⟩ := List.append_of_mem (mem_conversions.mp hconversion)
    obtain ⟨walk, walk', hbefore, hstep⟩ := h.at hsplit
    refine ⟨front.map Block.source, conversion.node, back.map Block.source, ?_,
      (mem_introduced_iff (records_of_steps hstart hbefore) hstep).mpr hname⟩
    rw [hsplit, List.map_append]
    rfl

/-- What a walk over a fresh graph puts in does not occur in the graph. -/
theorem not_mem_occurringNames_of_put_in (hfresh : Fresh graph) (hstart : start.quantizers = [])
    (h : Steps graph types totalBits start blocks last) {after : List Node}
    (hsplit : graph.nodes = blocks.map Block.source ++ after)
    (hconversion : conversion ∈ conversions blocks)
    (hname : name ∈ conversion.constants ∨ name ∈ conversion.results) :
    name ∉ occurringNames graph := by
  obtain ⟨before, node, between, hnodes, hname⟩ :=
    (exists_introduced_iff hstart h).mpr ⟨conversion, hconversion, hname⟩
  rw [hnodes, List.append_assoc, List.cons_append] at hsplit
  exact hfresh before node _ hsplit name hname

/-- **No constant has the name of a result**, be they of the same convolution or not. -/
theorem not_constant_of_result (h : Steps graph types totalBits start blocks last)
    {other : Conversion} (hother : other ∈ conversions blocks)
    (hconversion : conversion ∈ conversions blocks) (hresult : name ∈ conversion.results) :
    name ∉ other.constants := by
  intro hconstant
  obtain ⟨front, back, hsplit⟩ := List.append_of_mem (mem_conversions.mp hconversion)
  obtain ⟨walk, walk', -, hstep⟩ := h.at hsplit
  obtain ⟨base, suffix, hsuffix, rfl⟩ := exists_base_of_result hstep hresult
  obtain ⟨front, back, hsplit⟩ := List.append_of_mem (mem_conversions.mp hother)
  obtain ⟨walk, walk', -, hstep⟩ := h.at hsplit
  obtain ⟨base', suffix', hsuffix', heq⟩ := exists_base_of_constant hstep hconstant
  have hall : ∀ s ∈ ["_quant", "_dequant"], s ∈ quantizerSuffixes ++ layerSuffixes := by decide
  have hall' : ∀ s ∈ quantizerSuffixes.tail ++ layerSuffixes.tail,
      s ∈ quantizerSuffixes ++ layerSuffixes := by decide
  have hdisjoint : ∀ s ∈ ["_quant", "_dequant"],
      s ∉ quantizerSuffixes.tail ++ layerSuffixes.tail := by decide
  obtain ⟨-, rfl⟩ := append_suffix_inj heq (hall suffix hsuffix) (hall' suffix' hsuffix')
  exact hdisjoint suffix hsuffix hsuffix'

end DyadicNet.Quantize
