import DesignCompiler.Catalog.Builtin
import DesignCompiler.Proofs.Catalog.Lookups
import DesignCompiler.Proofs.Markup.Clauses
import DesignCompiler.Proofs.Synthesis.Imports
import Mathlib.Data.List.Nodup
import Mathlib.Data.List.Pairwise

/-!
# Identifiers of a module

A component module binds React, the names on its import lines, and its component. Nothing keeps
the name of the component apart from the others, nor bindings of different modules from each
other, so an identifier can be bound twice; `nodup_boundNames_iff` says exactly when it is not.
-/

namespace DesignCompiler.Synthesis

open Mapping (MappedNode MappedTree)

/-! ## Names on import lines -/

/-- The names that an import line lists between its braces. -/
def listedNames (importLine : String) : List String :=
  match Text.splitFirst '\x7b' importLine.toList with
  | some (_, rest) => (Markup.commaPieces (rest.takeWhile (· != '\x7d'))).map String.ofList
  | none => []

/-- The identifiers that a module binds: React, the names that its import lines list, and its
component. -/
def Output.boundNames (o : Output) : List String :=
  "React" :: (o.imports.flatMap listedNames ++ [o.componentName])

theorem listedNames_reactLine : listedNames reactLine = [] := by decide

/-- The names on an import line are read back, whatever the module. -/
theorem listedNames_importLine {names : List String}
    (hnames : ∀ name ∈ names, name ≠ "" ∧ ∀ c ∈ name.toList, c.isAlphanum = true)
    (module : String) :
    listedNames (Catalog.importLine (", ".intercalate names) module) = names := by
  have hclose : ∀ c ∈ ' ' :: ((", ".intercalate names).toList ++ [' ']),
      (c != '\x7d') = true := by
    intro c hc
    refine bne_iff_ne.2 ?_
    rintro rfl
    simp only [List.mem_cons, List.mem_append, List.not_mem_nil, or_false] at hc
    rcases hc with hspace | hc | hspace
    · exact absurd hspace (by decide)
    · rcases mem_toList_intercalate hc with hcomma | hspace | ⟨name, hname, hmem⟩
      · exact absurd hcomma (by decide)
      · exact absurd hspace (by decide)
      · exact absurd ((hnames name hname).2 _ hmem) (by decide)
    · exact absurd hspace (by decide)
  unfold listedNames
  rw [toList_importLine, List.cons_append, List.append_assoc, Text.splitFirst_append (by decide)]
  simp only
  rw [List.singleton_append, List.takeWhile_append_of_pos hclose, List.takeWhile_cons]
  simp only [bne_self_eq_false]
  rw [if_neg Bool.false_ne_true, List.append_nil, Markup.commaPieces_names _ hnames, List.map_map]
  simp

/-! ## Outputs -/

section Outputs

variable {synthesizer : Synthesizer} {tree : MappedTree} {name : String}

theorem componentName_synthesize :
    (synthesizer.synthesize tree name).2.componentName = componentIdentifier name := by
  unfold Synthesizer.synthesize
  cases tree.root with
  | none => rfl
  | some root =>
    simp only [Output.ofDraft]
    split <;> rfl

/-- The imports of a tree that was written are the bindings of its nodes. -/
theorem imports_synthesize (hwritten : Writes synthesizer.options tree) :
    (synthesizer.synthesize tree name).2.imports = importLines (usedBindings tree.nodes) := by
  unfold MappedTree.nodes
  cases hroot : tree.root with
  | none =>
    unfold Synthesizer.synthesize
    rw [hroot]
    rfl
  | some root =>
    have hfault := hwritten root hroot
    rw [synthesize_of_root hroot, ofDraft_of_fault_eq_none hfault]
    simp only [Output.assemble]
    rw [imports_write root hfault]

end Outputs

/-! ## Distinct identifiers -/

/-- The names that the import lines list are those in use, module by module. -/
theorem flatMap_listedNames_importLines {imports : List (String × String)}
    (himports : ∀ i ∈ imports, i.2 ≠ "" ∧ ∀ c ∈ i.2.toList, c.isAlphanum = true) :
    (importLines imports).flatMap listedNames =
      (KeyMap.distinct (imports.map (·.1))).flatMap (bindingsOf imports) := by
  unfold importLines
  rw [List.flatMap_cons, listedNames_reactLine, List.nil_append, List.flatMap_map]
  refine List.flatMap_congr fun module _ => listedNames_importLine ?_ module
  intro name hname
  exact himports _ (mem_bindingsOf.1 hname)

/-- Bindings are listed once if none is imported from two modules. -/
theorem nodup_flatMap_bindingsOf {imports : List (String × String)} :
    ((KeyMap.distinct (imports.map (·.1))).flatMap (bindingsOf imports)).Nodup ↔
      ∀ i ∈ imports, ∀ j ∈ imports, i.2 = j.2 → i.1 = j.1 := by
  rw [List.nodup_flatMap]
  constructor
  · rintro ⟨-, hpairs⟩ ⟨m, b⟩ hi ⟨m', b'⟩ hj (rfl : b = b')
    by_contra hne
    have hm : m ∈ KeyMap.distinct (imports.map (·.1)) :=
      KeyMap.mem_distinct.2 (List.mem_map_of_mem hi)
    have hm' : m' ∈ KeyMap.distinct (imports.map (·.1)) :=
      KeyMap.mem_distinct.2 (List.mem_map_of_mem hj)
    have hsymm : Std.Symm (Function.onFun List.Disjoint (bindingsOf imports)) :=
      ⟨fun _ _ => List.disjoint_symm⟩
    have hdisjoint := hpairs.forall hm hm' hne
    exact hdisjoint (mem_bindingsOf.2 hi) (mem_bindingsOf.2 hj)
  · intro h
    refine ⟨fun module _ => KeyMap.nodup_distinct _,
      (KeyMap.nodup_distinct _).imp fun {m m'} hne b hb hb' => ?_⟩
    exact hne (h (m, b) (mem_bindingsOf.1 hb) (m', b) (mem_bindingsOf.1 hb') rfl)

theorem mem_flatMap_bindingsOf {imports : List (String × String)} {binding : String} :
    binding ∈ (KeyMap.distinct (imports.map (·.1))).flatMap (bindingsOf imports) ↔
      ∃ i ∈ imports, i.2 = binding := by
  rw [List.mem_flatMap]
  constructor
  · rintro ⟨module, -, hmem⟩
    exact ⟨_, mem_bindingsOf.1 hmem, rfl⟩
  · rintro ⟨⟨module, _⟩, hmem, rfl⟩
    exact ⟨module, KeyMap.mem_distinct.2 (List.mem_map_of_mem hmem), mem_bindingsOf.2 hmem⟩

/-- The binding of an entry that was built from a definition is a name. -/
theorem importName_of_ofDefinition? {name : String} {d : Catalog.Definition}
    {entry : Catalog.Entry} (h : Catalog.Entry.ofDefinition? name d = some entry) :
    entry.importName ≠ "" ∧ ∀ c ∈ entry.importName.toList, c.isAlphanum = true := by
  unfold Catalog.Entry.ofDefinition? at h
  split at h
  · rename_i hname
    cases h
    obtain ⟨c, rest, hroot, -, halnum⟩ :=
      Catalog.isNameSegment_eq_true (Catalog.isNameSegment_rootSegment hname)
    refine ⟨?_, halnum⟩
    intro hempty
    simp only at hempty
    rw [hempty] at hroot
    cases hroot
  · cases h

/-- **When the identifiers of a module are distinct.** For a tree of catalog entries that was
written, whatever its component is called and whatever the options are: exactly when the component
is called neither like React nor like a binding, no binding is called like React, and no binding
comes from two modules. -/
theorem nodup_boundNames_iff {synthesizer : Synthesizer} {tree : MappedTree}
    (hentries : ∀ node ∈ tree.nodes, ∀ entry, node.entry = some entry →
      ∃ component d, Catalog.Entry.ofDefinition? component d = some entry)
    (hwritten : Writes synthesizer.options tree) (name : String) :
    (synthesizer.synthesize tree name).2.boundNames.Nodup ↔
      componentIdentifier name ≠ "React" ∧
        (∀ i ∈ usedBindings tree.nodes, i.2 ≠ "React" ∧ i.2 ≠ componentIdentifier name) ∧
        ∀ i ∈ usedBindings tree.nodes, ∀ j ∈ usedBindings tree.nodes, i.2 = j.2 → i.1 = j.1 := by
  have himports : ∀ i ∈ usedBindings tree.nodes,
      i.2 ≠ "" ∧ ∀ c ∈ i.2.toList, c.isAlphanum = true := by
    intro i hi
    obtain ⟨node, hnode, himport⟩ := List.mem_filterMap.1 hi
    obtain ⟨entry, hentry, rfl⟩ := Option.map_eq_some_iff.1 himport
    obtain ⟨component, d, hbuilt⟩ := hentries node hnode entry hentry
    exact importName_of_ofDefinition? hbuilt
  unfold Output.boundNames
  rw [imports_synthesize hwritten, componentName_synthesize,
    flatMap_listedNames_importLines himports, List.nodup_cons, List.mem_append,
    List.mem_singleton, not_or, List.nodup_append, nodup_flatMap_bindingsOf,
    mem_flatMap_bindingsOf]
  simp only [List.mem_singleton, mem_flatMap_bindingsOf]
  constructor
  · rintro ⟨⟨hreact, hname⟩, hmodules, -, hcomponent⟩
    refine ⟨Ne.symm hname, fun i hi => ⟨fun h => hreact ⟨i, hi, h⟩, ?_⟩, hmodules⟩
    exact hcomponent i.2 ⟨i, hi, rfl⟩ _ rfl
  · rintro ⟨hname, hbindings, hmodules⟩
    refine ⟨⟨?_, Ne.symm hname⟩, hmodules, List.nodup_singleton _, ?_⟩
    · rintro ⟨i, hi, h⟩
      exact (hbindings i hi).1 h
    · rintro _ ⟨i, hi, rfl⟩ _ rfl
      exact (hbindings i hi).2

/-- A button of the library. -/
def button : MappedNode :=
  { nodeId := "1:1", nodeName := "Button", component := "Button",
    entry := Catalog.builtinSource.entry? "Button"
    confidence := 100, props := ∅, style := none, text := some "Submit", children := [] }

/-- A button and nothing else. -/
def buttonTree : MappedTree :=
  ⟨some button, []⟩

theorem ofDefinition?_of_mem_buttonTree :
    ∀ node ∈ buttonTree.nodes, ∀ entry, node.entry = some entry →
      ∃ component d, Catalog.Entry.ofDefinition? component d = some entry := by
  intro node hnode entry hentry
  have hsingle : buttonTree.nodes = [button] := rfl
  rw [hsingle, List.mem_singleton] at hnode
  subst hnode
  have hsource : Catalog.builtinSource.entry? "Button" = some entry := hentry
  obtain ⟨d, -, hbuilt⟩ := Option.bind_eq_some_iff.1 hsource
  exact ⟨"Button", d, hbuilt⟩

theorem writes_buttonTree : Writes .default buttonTree := by
  rintro root ⟨⟩
  decide +kernel

theorem nodup_boundNames_iff_buttonTree :
    ((Synthesizer.ofOptions .default).synthesize buttonTree
      "primary button").2.boundNames.Nodup :=
  (nodup_boundNames_iff ofDefinition?_of_mem_buttonTree writes_buttonTree "primary button").2
    (by decide +kernel)

/-- A button that is called like its component: the binding and the component share a name. -/
theorem not_nodup_boundNames_buttonTree :
    (∀ node ∈ buttonTree.nodes, ∀ entry, node.entry = some entry →
      ∃ component d, Catalog.Entry.ofDefinition? component d = some entry) ∧
      Writes .default buttonTree ∧
      ¬ ((Synthesizer.ofOptions .default).synthesize buttonTree "Button").2.boundNames.Nodup :=
  ⟨ofDefinition?_of_mem_buttonTree, writes_buttonTree, by decide +kernel⟩

end DesignCompiler.Synthesis
