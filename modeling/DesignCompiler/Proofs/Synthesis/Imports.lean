import DesignCompiler.Proofs.KeyMap
import DesignCompiler.Proofs.Mapping.Trees
import DesignCompiler.Proofs.Synthesis.Elements
import DesignCompiler.Synthesis.Source

/-!
# Imports of written trees

A tree that was written imports the bindings of its entries, in the order of its nodes. Import
lines are passed over by a scan when their modules stand between quotes as they are and their
bindings are plain identifiers.
-/

namespace DesignCompiler.Synthesis

open Mapping (MappedNode MappedTree)
open Markup (Passable Enclosed isInert)

/-! ## Bindings in use -/

/-- The bindings of nodes with the modules that they come from. -/
def usedBindings (nodes : List MappedNode) : List (String × String) :=
  nodes.filterMap fun node => node.entry.map fun entry => (entry.module, entry.importName)

theorem usedBindings_append (a b : List MappedNode) :
    usedBindings (a ++ b) = usedBindings a ++ usedBindings b :=
  List.filterMap_append

section Drafts

variable {options : Options}

mutual

/-- A tree that was written imports the bindings of its nodes. -/
theorem imports_write : (node : MappedNode) → ∀ {depth}, (write options depth node).fault = none →
    (write options depth node).imports = usedBindings node.preorder
  | ⟨id, name, component, own, confidence, props, style, text, children⟩, depth, h => by
    obtain ⟨entry, hentry, hchildren, -, himports⟩ := write_of_fault_eq_none h
    obtain ⟨-, hnode, -, -⟩ := writableEntry_eq_ok hentry
    rw [himports, imports_writeAll children hchildren, MappedNode.preorder_eq]
    simp only at hnode
    simp [usedBindings, hnode]

theorem imports_writeAll :
    (nodes : List MappedNode) → ∀ {depth}, (writeAll options depth nodes).fault = none →
    (writeAll options depth nodes).imports = usedBindings (MappedNode.preorderAll nodes)
  | [], depth, _ => by
    rw [writeAll]
    rfl
  | node :: rest, depth, h => by
    rw [writeAll] at h ⊢
    obtain ⟨hfirst, hrest⟩ := Draft.fault_append_eq_none.1 h
    rw [Draft.imports_append hfirst, imports_write node hfirst, imports_writeAll rest hrest,
      ← usedBindings_append, MappedNode.preorderAll]

end

end Drafts

/-! ## Outputs -/

/-- The synthesis does not fall back: every node of the tree can be written. -/
def Writes (options : Options) (tree : MappedTree) : Prop :=
  ∀ root, tree.root = some root → (write options 0 root).fault = none

theorem exists_fault_of_not_writes {options : Options} {tree : MappedTree}
    (h : ¬ Writes options tree) :
    ∃ root fault, tree.root = some root ∧ (write options 0 root).fault = some fault := by
  unfold Writes at h
  push Not at h
  obtain ⟨root, hroot, hne⟩ := h
  obtain ⟨fault, hfault⟩ := Option.ne_none_iff_exists'.1 hne
  exact ⟨root, fault, hroot, hfault⟩

section Outputs

variable {options : Options} {name : String}

/-- What a synthesizer makes of a tree with a root; nothing of what it wrote before is left. -/
theorem synthesize_of_root {synthesizer : Synthesizer} {tree : MappedTree} {root : MappedNode}
    (hroot : tree.root = some root) (name : String) :
    (synthesizer.synthesize tree name).2 =
      .ofDraft synthesizer.options (componentIdentifier name)
        (write synthesizer.options 0 root) := by
  unfold Synthesizer.synthesize
  rw [hroot]
  simp only [Synthesizer.cleared, Synthesizer.written, List.nil_append]

/-- An output without a warning is that of a draft without a fault. -/
theorem fault_eq_none_of_ofDraft {draft : Draft}
    (h : (Output.ofDraft options name draft).diagnostics = []) :
    draft.fault = none := by
  unfold Output.ofDraft at h
  cases hfault : draft.fault with
  | none => rfl
  | some fault =>
    rw [hfault] at h
    cases h

theorem ofDraft_of_fault_eq_none {draft : Draft} (h : draft.fault = none) :
    Output.ofDraft options name draft =
      .assemble options name draft.imports (some draft.text) [] := by
  unfold Output.ofDraft
  rw [h]

end Outputs

/-! ## Import lines -/

/-- A module name stands between single quotes as it is. -/
def IsModuleName (module : String) : Prop :=
  ∀ c ∈ module.toList, c ≠ '\x27' ∧ c ≠ '\\' ∧ c ≠ '\n'

/-- A module and a binding that can stand on an import line. -/
structure IsImportable (i : String × String) : Prop where
  module : IsModuleName i.1
  binding : ∀ c ∈ i.2.toList, c.isAlphanum = true

theorem toList_importLine (binding module : String) :
    (Catalog.importLine binding module).toList =
      "import ".toList ++ ('\x7b' :: (' ' :: (binding.toList ++ [' ']) ++ ['\x7d']) ++
        (" from ".toList ++ ('\x27' :: (module.toList ++ ['\x27']) ++ [';']))) := by
  simp [Catalog.importLine, String.toList_append]

theorem passable_importLine {binding module : String}
    (hbinding : ∀ c ∈ binding.toList, isInert c = true) (hmodule : IsModuleName module) :
    Passable (Catalog.importLine binding module).toList := by
  rw [toList_importLine]
  have hinside : Passable (' ' :: (binding.toList ++ [' '])) :=
    Markup.passable_cons (by decide)
      ((Markup.passable_of_inert hbinding).append (Markup.passable_of_inert (by decide)))
  have hquoted : Passable ('\x27' :: (module.toList ++ ['\x27'])) :=
    Markup.passable_quoted (by decide) (Markup.enclosed_of_plain hmodule)
  exact (Markup.passable_of_inert (by decide)).append
    (hinside.braces.append ((Markup.passable_of_inert (by decide)).append
      (hquoted.append (Markup.passable_of_inert (by decide)))))

/-- The characters of names with commas between them. -/
theorem mem_toList_intercalate {names : List String} {c : Char}
    (hc : c ∈ (", ".intercalate names).toList) :
    c = ',' ∨ c = ' ' ∨ ∃ name ∈ names, c ∈ name.toList := by
  rw [Text.toList_intercalate] at hc
  rcases Text.mem_joinWith hc with hseparator | ⟨piece, hpiece, hmem⟩
  · have hchars : c = ',' ∨ c = ' ' := by simpa using hseparator
    exact hchars.imp_right .inl
  · obtain ⟨name, hname, rfl⟩ := List.mem_map.1 hpiece
    exact .inr (.inr ⟨name, hname, hmem⟩)

theorem mem_bindingsOf {imports : List (String × String)} {module binding : String} :
    binding ∈ bindingsOf imports module ↔ (module, binding) ∈ imports := by
  unfold bindingsOf
  simp only [KeyMap.mem_distinct, List.mem_map, List.mem_filter, beq_iff_eq]
  constructor
  · rintro ⟨⟨m, b⟩, ⟨hmem, rfl⟩, rfl⟩
    exact hmem
  · intro hmem
    exact ⟨(module, binding), ⟨hmem, rfl⟩, rfl⟩

/-- The import lines of bindings that can be imported are passed over. -/
theorem passable_importLines {imports : List (String × String)}
    (h : ∀ i ∈ imports, IsImportable i) :
    ∀ importLine ∈ importLines imports, Passable importLine.toList := by
  intro importLine hline
  rcases List.mem_cons.1 hline with rfl | hline
  · have hreact : reactLine.toList =
        "import React from ".toList ++ ('\x27' :: ("react".toList ++ ['\x27']) ++ [';']) :=
      rfl
    rw [hreact]
    exact (Markup.passable_of_inert (by decide)).append
      ((Markup.passable_quoted (by decide) (Markup.enclosed_of_plain (by decide))).append
        (Markup.passable_of_inert (by decide)))
  · obtain ⟨module, hmodule, rfl⟩ := List.mem_map.1 hline
    rw [KeyMap.mem_distinct, List.mem_map] at hmodule
    obtain ⟨⟨m, b⟩, hmem, rfl⟩ := hmodule
    refine passable_importLine ?_ (h _ hmem).module
    intro c hc
    rcases mem_toList_intercalate hc with rfl | rfl | ⟨name, hname, hmem'⟩
    · decide
    · decide
    · exact Markup.isInert_of_isAlphanum ((h _ (mem_bindingsOf.1 hname)).binding c hmem')

end DesignCompiler.Synthesis
