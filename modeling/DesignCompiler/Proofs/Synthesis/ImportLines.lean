import DesignCompiler.Proofs.Synthesis.Depths
import DesignCompiler.Proofs.Text.Bytes

/-!
# Import lines

The import lines of a tree that was written are exact: there is one line for React and one for
each module of an entry, with the names that are imported from it, everything in ascending order
and nothing twice (`lists_importLines`). So they depend only on the set of bindings in use
(`importLines_congr`). Trees with the same nodes have the same lines, however these are ordered
and nested, and `imports_synthesize_canonical` says that of every synthesizer that allows their
height.
-/

namespace DesignCompiler

open Mapping (MappedNode MappedTree)
open Text (Ascending)

/-! ## Trees with the same nodes -/

/-- The node without what is below it. -/
def Mapping.MappedNode.alone (node : MappedNode) : MappedNode :=
  { node with children := [] }

/-- The trees have the same nodes, however these are ordered and nested. -/
def Mapping.MappedTree.Rearranges (tree tree' : MappedTree) : Prop :=
  (tree.nodes.map (·.alone)).Perm (tree'.nodes.map (·.alone))

namespace Synthesis

/-! ## Lines for bindings -/

/-- Import lines depend on the set of their bindings only. -/
theorem importLines_congr {imports imports' : List (String × String)}
    (h : ∀ i, i ∈ imports ↔ i ∈ imports') :
    importLines imports = importLines imports' := by
  have hmodules : KeyMap.distinct (imports.map (·.1)) = KeyMap.distinct (imports'.map (·.1)) := by
    refine KeyMap.distinct_congr fun module => ?_
    simp only [List.mem_map, h]
  have hbindings (module : String) : bindingsOf imports module = bindingsOf imports' module := by
    refine KeyMap.distinct_congr fun binding => ?_
    simp only [List.mem_map, List.mem_filter, h]
  unfold importLines
  rw [hmodules]
  simp only [hbindings]

theorem mem_usedBindings {nodes : List MappedNode} {module binding : String} :
    (module, binding) ∈ usedBindings nodes ↔
      ∃ node ∈ nodes, ∃ entry, node.entry = some entry ∧ entry.module = module ∧
        entry.importName = binding := by
  simp [usedBindings, List.mem_filterMap]

/-- The lines are those of the modules with their names, and these are what the entries of the
nodes need. -/
structure Lists (nodes : List MappedNode) (lines modules : List String)
    (names : String → List String) : Prop where
  lines : lines = "import React from 'react';" ::
    modules.map fun module =>
      "import \x7b " ++ ", ".intercalate (names module) ++ " \x7d from '" ++ module ++ "';"
  ascending : Ascending modules
  mem_modules : ∀ module, module ∈ modules ↔
    ∃ node ∈ nodes, ∃ entry, node.entry = some entry ∧ entry.module = module
  ascending_names : ∀ module, Ascending (names module)
  mem_names : ∀ module binding, binding ∈ names module ↔
    ∃ node ∈ nodes, ∃ entry, node.entry = some entry ∧ entry.module = module ∧
      entry.importName = binding

theorem lists_importLines (nodes : List MappedNode) :
    Lists nodes (importLines (usedBindings nodes))
      (KeyMap.distinct ((usedBindings nodes).map (·.1))) (bindingsOf (usedBindings nodes)) where
  lines := rfl
  ascending := Text.ascending_of_pairwise (KeyMap.ascending_distinct _)
  mem_modules module := by
    rw [KeyMap.mem_distinct, List.mem_map]
    constructor
    · rintro ⟨⟨_, binding⟩, hmem, rfl⟩
      obtain ⟨node, hnode, entry, hentry, hmodule, -⟩ := mem_usedBindings.1 hmem
      exact ⟨node, hnode, entry, hentry, hmodule⟩
    · rintro ⟨node, hnode, entry, hentry, hmodule⟩
      exact ⟨(module, entry.importName),
        mem_usedBindings.2 ⟨node, hnode, entry, hentry, hmodule, rfl⟩, rfl⟩
  ascending_names _ := Text.ascending_of_pairwise (KeyMap.ascending_distinct _)
  mem_names _ _ := mem_bindingsOf.trans mem_usedBindings

/-! ## Rearrangements -/

section Rearrangements

variable {options : Options} {tree tree' : MappedTree}

/-- What holds of nodes wherever they stand holds of a rearrangement of them. -/
theorem forall_nodes_of_rearranges {P : MappedNode → Prop}
    (halone : ∀ node, P node.alone ↔ P node) (h : tree.Rearranges tree') :
    (∀ node ∈ tree.nodes, P node) ↔ ∀ node ∈ tree'.nodes, P node := by
  have hmap (nodes : List MappedNode) :
      (∀ node ∈ nodes, P node) ↔ ∀ node ∈ nodes.map (·.alone), P node := by
    simp only [List.forall_mem_map, halone]
  rw [hmap tree.nodes, hmap tree'.nodes]
  exact forall_congr' fun node => by rw [h.mem_iff]

theorem isSound_alone_iff {node : MappedNode} : IsSound node.alone ↔ IsSound node :=
  ⟨fun ⟨hentry, hkeys⟩ => ⟨hentry, hkeys⟩, fun ⟨hentry, hkeys⟩ => ⟨hentry, hkeys⟩⟩

/-- A rearrangement of a tree that was written can be written as well, unless it is too high. -/
theorem writes_of_rearranges {other : Options} (h : tree'.Rearranges tree)
    (hwritten : Writes options tree) (hheight : tree'.height ≤ other.maxDepth) :
    Writes other tree' :=
  writes_iff.2 ⟨hheight,
    (forall_nodes_of_rearranges (fun _ => isSound_alone_iff) h).2 (writes_iff.1 hwritten).2⟩

theorem usedBindings_alone (nodes : List MappedNode) :
    usedBindings (nodes.map (·.alone)) = usedBindings nodes := by
  unfold usedBindings
  rw [List.filterMap_map]
  rfl

/-- Rearrangements use the same bindings. -/
theorem mem_usedBindings_of_rearranges (h : tree'.Rearranges tree) (i : String × String) :
    i ∈ usedBindings tree'.nodes ↔ i ∈ usedBindings tree.nodes := by
  rw [← usedBindings_alone tree'.nodes, ← usedBindings_alone tree.nodes]
  exact (h.filterMap _).mem_iff

end Rearrangements

/-! ## Sources -/

section Sources

variable {synthesizer : Synthesizer} {tree : MappedTree}

/-- Every output is assembled, from the bindings that it imports and what is rendered. These
bindings are in use. -/
theorem exists_synthesize_eq_assemble (synthesizer : Synthesizer) (tree : MappedTree)
    (name : String) :
    ∃ imports body diagnostics, (synthesizer.synthesize tree name).2 =
      .assemble synthesizer.options (componentIdentifier name) imports body diagnostics ∧
        ∀ i ∈ imports, i ∈ usedBindings tree.nodes := by
  cases hroot : tree.root with
  | none =>
    refine ⟨[], none, [emptyTreeWarning], ?_, List.forall_mem_nil _⟩
    unfold Synthesizer.synthesize
    rw [hroot]
    rfl
  | some root =>
    have hnodes : tree.nodes = root.preorder := by
      unfold MappedTree.nodes
      rw [hroot]
    rw [synthesize_of_root hroot, hnodes]
    unfold Output.ofDraft
    split
    · rename_i hfault
      exact ⟨_, _, _, rfl, fun i hi => imports_write root hfault ▸ hi⟩
    · exact ⟨[], _, _, rfl, List.forall_mem_nil _⟩

/-- A source begins with its import lines, an empty line and the line of its component. -/
theorem exists_sourceText_synthesize (synthesizer : Synthesizer) (tree : MappedTree)
    (name : String) :
    ∃ rest, (synthesizer.synthesize tree name).2.sourceText.toList =
      (synthesizer.synthesize tree name).2.imports.flatMap (fun i => i.toList ++ ['\n']) ++
        '\n' :: (declarationLine synthesizer.options (componentIdentifier name) ++ rest) := by
  obtain ⟨imports, body, diagnostics, houtput, -⟩ :=
    exists_synthesize_eq_assemble synthesizer tree name
  rw [houtput]
  exact ⟨_, String.toList_ofList⟩

/-- **Import lines are exact and canonical.** Of a tree that was written, whatever was written
before and with which layout and name:

* there is one line for React and then one for each module that an entry of the tree comes from,
  with the names that entries of the module are imported by; modules and names are ascending, so
  none is there twice;
* another tree that is written has the same lines if the same bindings are in use;
* a tree with the same nodes has the same lines, however these are ordered and nested, and is
  written if its height is allowed;
* the source begins with these lines, an empty line and the line of the component. -/
theorem imports_synthesize_canonical (hwritten : Writes synthesizer.options tree)
    (name : String) :
    let output := (synthesizer.synthesize tree name).2
    (∃ modules names, Lists tree.nodes output.imports modules names) ∧
      (∀ (other : Synthesizer) (tree' : MappedTree) (name' : String), Writes other.options tree' →
        (∀ i, i ∈ usedBindings tree'.nodes ↔ i ∈ usedBindings tree.nodes) →
          (other.synthesize tree' name').2.imports = output.imports) ∧
      (∀ (other : Synthesizer) (tree' : MappedTree) (name' : String), tree'.Rearranges tree →
        tree'.height ≤ other.options.maxDepth →
          Writes other.options tree' ∧
            (other.synthesize tree' name').2.imports = output.imports) ∧
      ∃ rest, output.sourceText.toList = output.imports.flatMap (fun i => i.toList ++ ['\n']) ++
        '\n' :: (declarationLine synthesizer.options (componentIdentifier name) ++ rest) := by
  intro output
  have himports : output.imports = importLines (usedBindings tree.nodes) :=
    imports_synthesize hwritten
  have hcongr (other : Synthesizer) (tree' : MappedTree) (name' : String)
      (hwritten' : Writes other.options tree')
      (h : ∀ i, i ∈ usedBindings tree'.nodes ↔ i ∈ usedBindings tree.nodes) :
      (other.synthesize tree' name').2.imports = output.imports := by
    rw [himports, imports_synthesize hwritten', importLines_congr h]
  refine ⟨?_, hcongr, ?_, exists_sourceText_synthesize synthesizer tree name⟩
  · rw [himports]
    exact ⟨_, _, lists_importLines tree.nodes⟩
  · intro other tree' name' hrearranges hheight
    have hwritten' := writes_of_rearranges hrearranges hwritten hheight
    exact ⟨hwritten', hcongr other tree' name' hwritten'
      (mem_usedBindings_of_rearranges hrearranges)⟩

end Sources

/-- A node of a component that comes from the module. -/
def nodeOf (component module : String) (children : List MappedNode) : MappedNode where
  nodeId := "1:1"
  nodeName := component
  component
  entry := Catalog.Entry.ofDefinition? component ⟨none, none, some module, [], []⟩
  confidence := 100
  props := ∅
  style := none
  text := none
  children

/-- A row with a title, a form item and a text. -/
def welcome : MappedTree :=
  ⟨some (nodeOf "Flex" "antd"
    [nodeOf "Typography.Title" "antd" [], nodeOf "Form.Item" "@design/forms" [],
      nodeOf "Typography.Text" "antd" []]), []⟩

/-- The same nodes, each one inside of the one before it, with the row in the middle. -/
def welcomeInside : MappedTree :=
  ⟨some (nodeOf "Typography.Title" "antd"
    [nodeOf "Form.Item" "@design/forms"
      [nodeOf "Flex" "antd" [nodeOf "Typography.Text" "antd" []]]]), []⟩

theorem writes_welcome : Writes .default welcome := by
  rintro root ⟨⟩
  decide +kernel

theorem rearranges_welcomeInside : welcomeInside.Rearranges welcome := by
  have hinside : welcomeInside.nodes.map (·.alone) =
      [nodeOf "Typography.Title" "antd" [], nodeOf "Form.Item" "@design/forms" [],
        nodeOf "Flex" "antd" [], nodeOf "Typography.Text" "antd" []] := rfl
  have houtside : welcome.nodes.map (·.alone) =
      [nodeOf "Flex" "antd" [], nodeOf "Typography.Title" "antd" [],
        nodeOf "Form.Item" "@design/forms" [], nodeOf "Typography.Text" "antd" []] := rfl
  unfold MappedTree.Rearranges
  rw [hinside, houtside]
  exact ((List.Perm.swap _ _ _).cons _).trans (List.Perm.swap _ _ _)

theorem imports_synthesize_canonical_welcome :
    Writes .default welcomeInside ∧
      ((Synthesizer.ofOptions .default).synthesize welcomeInside "inside").2.imports =
        ((Synthesizer.ofOptions .default).synthesize welcome "welcome card").2.imports := by
  obtain ⟨-, -, hrearranged, -⟩ :=
    @imports_synthesize_canonical (Synthesizer.ofOptions .default) welcome writes_welcome
      "welcome card"
  exact hrearranged (.ofOptions .default) welcomeInside "inside" rearranges_welcomeInside
    (by decide)

example : ((Synthesizer.ofOptions .default).synthesize welcome "welcome card").2.imports =
    ["import React from 'react';", "import \x7b Form \x7d from '@design/forms';",
      "import \x7b Flex, Typography \x7d from 'antd';"] := by decide +kernel

end Synthesis

end DesignCompiler
