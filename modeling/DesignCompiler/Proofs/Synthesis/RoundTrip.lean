import DesignCompiler.Catalog.Builtin
import DesignCompiler.Proofs.Catalog.Lookups
import DesignCompiler.Proofs.Synthesis.Sources

/-!
# Component sources taken apart again

What is made from a mapped tree is read back as the tree. `isRead_synthesize` says so of any tree
that was written and whose bindings can be imported; `ofText_synthesize_mapTree` of the trees that
the mapping makes with any catalog, where only the module names of the catalog are left to ask
for.

The scan starts at the first node, so its opening tag must not read like type parameters:
`Rule.Gives` excludes the one property name with which it would.
-/

namespace DesignCompiler.Synthesis

open Markup (Cursor Element IsRead SpelledAttribute Structure)
open Mapping (Engine MappedNode MappedTree)
open Text (isBlank isNameChar)

/-! ## The first node -/

section FirstNode

variable {options : Options} {depth : Nat} {node : MappedNode} {entry : Catalog.Entry}

/-- Behind the opening tag of a node its end is the first thing that is not blank. -/
theorem exists_insideText_eq (options : Options) (depth : Nat) (entry : Catalog.Entry)
    (node : MappedNode) :
    ∃ gap ch more, insideText options depth entry node = gap ++ ch :: more ∧
      (∀ d ∈ gap, isBlank d = true) ∧ (ch = '>' ∨ ch = '/') := by
  unfold insideText
  split
  · split
    · exact ⟨[], '>', _, rfl, by simp, .inl rfl⟩
    · exact ⟨[' '], '/', ['>'], rfl, by decide, .inr rfl⟩
  · exact ⟨[], '>', _, rfl, by simp, .inl rfl⟩

theorem exists_key_of_mem_spelledAttributes {a : SpelledAttribute}
    (ha : a ∈ spelledAttributes node) :
    a.name ∈ node.props.keys ∨ a.name = "style" := by
  rcases List.mem_append.1 ha with ha | ha
  · obtain ⟨p, hp, hspelling⟩ := List.mem_filterMap.1 ha
    obtain ⟨spelling, -, rfl⟩ := Option.map_eq_some_iff.1 hspelling
    exact .inl (List.mem_map_of_mem hp)
  · split at ha
    · split at ha
      · cases ha
      · rw [List.mem_singleton.1 ha]
        exact .inr rfl
    · cases ha

/-- In place of an operand the opening tag of a node starts an element. -/
theorem step_openingText (hentry : writableEntry options depth node = .ok entry)
    (hwords : ∀ name ∈ node.props.keys, ¬ "extends".toList <+: name.toList) {before : List Char}
    (hbefore : Markup.operandMayFollow before = true) (rest : List Char) (line : Nat) :
    (Cursor.mk before (openingText entry node ++ insideText options depth entry node ++ rest)
      line).step =
      .element := by
  obtain ⟨-, -, hname, hkeys⟩ := writableEntry_eq_ok hentry
  obtain ⟨gap, ch, more, hinside, hgap, hch⟩ := exists_insideText_eq options depth entry node
  obtain ⟨first, segment, hroot, hupper, -⟩ :=
    Catalog.isNameSegment_eq_true (Catalog.isNameSegment_rootSegment hname)
  have htext : openingText entry node ++ insideText options depth entry node ++ rest =
      '<' :: (entry.name.toList ++
        (Markup.attributeText (spelledAttributes node) ++ (gap ++ ch :: (more ++ rest)))) := by
    rw [hinside, List.append_assoc, openingText_eq, Markup.tagStart]
    simp
  rw [htext]
  have hattributes : ∀ a ∈ spelledAttributes node, ¬ "extends".toList <+: a.name.toList := by
    intro a ha
    rcases exists_key_of_mem_spelledAttributes ha with hkey | hstyle
    · exact hwords a.name hkey
    · rw [hstyle]
      decide
  refine Markup.step_element line ?_ ?_
  · have halpha : Text.isAlphabetic first = true :=
      Text.isAlphabetic_of_isAlpha (Text.isAlpha_of_isUpper hupper)
    rw [Catalog.toList_eq_rootSegment_append entry.name, hroot]
    simp [Markup.elementMayStart, halpha, hbefore]
  · exact Markup.startsTypeParameters_openingTag (Catalog.isTag_of_isComponentName hname).2
      (fun a ha => (readable_spelledAttributes hkeys a ha).tag)
      (fun _ a ha hword =>
        hattributes a (List.mem_of_mem_head? ha) (hword ▸ List.takeWhile_prefix _)) hgap hch _

end FirstNode

/-! ## Trees -/

/-- The source of a tree that was written is read back as the tree. -/
theorem isRead_synthesize {synthesizer : Synthesizer} {tree : MappedTree} {root : MappedNode}
    {name : String} (hroot : tree.root = some root)
    (hdepth : synthesizer.options.maxDepth ≤ Markup.maxNesting)
    (himports : ∀ i ∈ usedBindings root.preorder, IsImportable i)
    (hwords : ∀ key ∈ root.props.keys, ¬ "extends".toList <+: key.toList)
    (houtput : (synthesizer.synthesize tree name).2.diagnostics = []) :
    IsRead (synthesizer.synthesize tree name).2.sourceText.toList (shown [] root) := by
  rw [synthesize_of_root hroot] at houtput ⊢
  have hwritten := fault_eq_none_of_ofDraft houtput
  obtain ⟨entry, hentry, hchildren, htext, -⟩ := write_of_fault_eq_none hwritten
  rw [ofDraft_of_fault_eq_none hwritten]
  simp only [Output.assemble, String.toList_ofList]
  rw [htext, imports_write root hwritten]
  refine isRead_sourceText _ (isNameSegment_componentIdentifier name)
    (passable_importLines himports) ?_ ?_
  · intro before rest line hbefore
    exact step_openingText hentry hwords hbefore rest line
  · intro c rest hc
    refine reads_node [] (readsAll_children root) hentry hchildren (by omega) ?_
    rw [hc, List.append_assoc]

/-! ## Mapped trees -/

section Mapped

variable {source : Catalog.Source} {lookups : List String} {engine : Engine}
  {node : Semantic.Node} {root : MappedNode}

/-- What a mapped tree imports can be imported when the modules of its catalog have usable
names. -/
theorem isImportable_of_mem_usedBindings
    (hcatalog : engine.catalog = (Catalog.Index.ofSource source).afterLookups lookups)
    (hmodules : ∀ component d, source.definition? component = some d →
      IsModuleName (d.module.getD Catalog.libraryModule))
    (hroot : (engine.mapTree node).root = some root) :
    ∀ i ∈ usedBindings root.preorder, IsImportable i := by
  intro i hi
  obtain ⟨m, hm, himport⟩ := List.mem_filterMap.1 hi
  obtain ⟨entry, hentry, rfl⟩ := Option.map_eq_some_iff.1 himport
  obtain ⟨context, semantic, c, children, hbest, rfl, -⟩ := Engine.makes_of_mem_mapTree hroot m hm
  cases hentry
  obtain ⟨-, hfound⟩ := Engine.best?_eq_some hbest
  rw [hcatalog, Catalog.Index.entry?_afterLookups] at hfound
  obtain ⟨d, hd, hname, -, hmodule, hbinding, -⟩ := Catalog.Source.entry?_eq_some hfound
  refine ⟨hmodule ▸ hmodules _ d hd, ?_⟩
  obtain ⟨_, _, _, _, halnum⟩ :=
    Catalog.isNameSegment_eq_true (Catalog.isNameSegment_rootSegment hname)
  rw [hbinding]
  exact halnum

/-- **The source of a mapped tree is taken apart into the tree.** Whatever the rules, the
configuration and the semantic tree, whatever was looked up in the catalog before, and whatever
name and layout are chosen: unless the synthesis falls back, all tags pair and the elements are
those that the tree shows. -/
theorem ofText_synthesize_mapTree
    (hcatalog : engine.catalog = (Catalog.Index.ofSource source).afterLookups lookups)
    (hmodules : ∀ component d, source.definition? component = some d →
      IsModuleName (d.module.getD Catalog.libraryModule))
    (hroot : (engine.mapTree node).root = some root) {synthesizer : Synthesizer}
    (hdepth : synthesizer.options.maxDepth ≤ Markup.maxNesting) {name : String}
    (houtput : (synthesizer.synthesize (engine.mapTree node) name).2.diagnostics = []) :
    ∃ s, Structure.ofText (synthesizer.synthesize (engine.mapTree node) name).2.sourceText =
      .ok s ∧
      s.unclosed = [] ∧ s.unexpectedClosings = [] ∧
      s.elements.map Element.unplaced = shown [] root := by
  have himports := isImportable_of_mem_usedBindings hcatalog hmodules hroot
  have hwords : ∀ key ∈ root.props.keys, ¬ "extends".toList <+: key.toList := by
    intro key hkey
    obtain ⟨e, he, rfl⟩ := List.mem_map.1 hkey
    obtain ⟨rule, -, entry, -, -, hgives, -⟩ :=
      (Engine.makes_of_mem_mapTree hroot root root.self_mem_preorder).props he
    exact hgives.not_extends
  obtain ⟨s, hs, -, -, hunclosed, hclosings, hshown⟩ :=
    isRead_synthesize hroot hdepth himports hwords houtput
  rw [String.ofList_toList] at hs
  exact ⟨s, hs, hunclosed, hclosings, hshown⟩

end Mapped

/-! ## A form item inside a form item -/

namespace NestedItems

/-- A source with form items only. -/
def source : Catalog.Source where
  names := ["Form.Item"]
  definition? name :=
    if name = "Form.Item" then
      some ⟨none, none, some "@design/forms", [Catalog.plain "label" "ReactNode"], []⟩ else none

/-- A plain node of a kind. -/
def plainNode (id : String) (kind : Design.NodeKind) (content : Option Semantic.Content)
    (children : List Semantic.Node) : Semantic.Node :=
  ⟨id, "field", kind, ⟨⟨0.0, 0.0, 0.0, 0.0⟩, false, none, none, none, none⟩,
    ⟨none, none, none, none, 1.0, [], []⟩, content, ⟨true, false, none⟩, children⟩

/-- A text node. -/
def textNode (id text : String) : Semantic.Node :=
  plainNode id .text (some ⟨text, none, none, none, none, none⟩) []

/-- A frame with a label. -/
def inner : Semantic.Node :=
  plainNode "1:3" .frame none [textNode "1:4" "Name"]

/-- A frame around another one, with a label that cannot stand between quotes. -/
def outer : Semantic.Node :=
  plainNode "1:1" .frame none [textNode "1:2" "Say \"hi\"", inner]

def engine : Engine :=
  .ofCatalog ((Catalog.Index.ofSource source).afterLookups ["Form.Item", "Button"]) .default

/-- The only rule whose component is in the source. -/
def candidate : Mapping.Candidate where
  index := 6
  rule := Mapping.libraryRules[6]
  entry :=
    { name := "Form.Item", displayName := "Form Item", category := .dataEntry
      properties := [Catalog.plain "label" "ReactNode"], module := "@design/forms",
      importName := "Form"
      importStatement := "import \x7b Form \x7d from '@design/forms';",
      examples := ["<Form.Item />"] }
  confidence := 45

/-- One form item inside another one; the labels are no nodes of their own. -/
def mapped : MappedNode :=
  Mapping.mappedWith .default candidate outer [Mapping.mappedWith .default candidate inner []]

theorem entry?_eq_none : ∀ r ∈ Mapping.libraryRules.take 6 ++ Mapping.libraryRules.drop 7,
    engine.catalog.entry? r.target = none := by
  intro r hr
  have hothers : ∀ r ∈ Mapping.libraryRules.take 6 ++ Mapping.libraryRules.drop 7,
      r.target ≠ "Form.Item" := by decide
  unfold engine Engine.ofCatalog
  rw [Catalog.Index.entry?_afterLookups]
  simp [source, Catalog.Source.entry?, hothers r hr]

theorem mapTree_outer : engine.mapTree outer = ⟨some mapped, []⟩ := by
  have hrules : engine.rules =
      Mapping.libraryRules.take 6 ++ Mapping.libraryRules[6] :: Mapping.libraryRules.drop 7 := rfl
  have hbest (node : Semantic.Node) (context : Option String) :
      engine.best? node context = engine.candidate? node context (Mapping.libraryRules[6], 6) :=
    Engine.best?_of_single hrules entry?_eq_none
  unfold Engine.mapTree outer inner textNode plainNode
  simp only [Engine.mapNode, Engine.mapChildren, hbest]
  rfl

end NestedItems

theorem ofText_synthesize_mapTree_nestedItems :
    ∃ s, Structure.ofText ((Synthesizer.ofOptions .default).synthesize
        (NestedItems.engine.mapTree NestedItems.outer) "Sign up").2.sourceText = .ok s ∧
      s.unclosed = [] ∧ s.unexpectedClosings = [] ∧
      s.elements.map Element.unplaced = shown [] NestedItems.mapped := by
  have hcatalog : NestedItems.engine.catalog =
      (Catalog.Index.ofSource NestedItems.source).afterLookups ["Form.Item", "Button"] := rfl
  refine ofText_synthesize_mapTree hcatalog ?_ ?_ (by decide) ?_
  · intro component d hd
    simp only [NestedItems.source] at hd
    split at hd
    · cases hd
      unfold IsModuleName
      decide
    · cases hd
  · rw [NestedItems.mapTree_outer]
  · rw [NestedItems.mapTree_outer]
    decide +kernel

end DesignCompiler.Synthesis
