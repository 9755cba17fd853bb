import DesignCompiler.Catalog.Builtin
import DesignCompiler.Proofs.Catalog.Lookups
import DesignCompiler.Proofs.Validation.Rules

/-!
# Trees of library components

What is special about trees that are mapped by the rules for the component library with the
built-in components. The facts about the two tables are decided row by row; everything behind them
is about all nodes of all trees.

* `isLegible_of_nodes`: the sources of such trees are taken apart.
* `conforms_of_nodes`: they give the checks no cause.
* `messages_shownTree` and `exists_orphan_iff`: what is left to report about them, read off the
  tree.
-/

namespace DesignCompiler

open Catalog (builtinSource)
open Mapping (Engine MappedNode MappedTree PropRule Rule libraryRules)
open Markup (Attribute Element)
open Synthesis (shownElement shownTree shownValue tagOf usedBindings)
open Validation (literalOf? valueFindings)

/-! ## The tables -/

section Tables

/-- The values that the library allows for a property of a component; an empty list allows all of
them. -/
def allowedValues (component name : String) : List String :=
  (((builtinSource.entry? component).bind (·.property? name)).map (·.allowedValues)).getD []

theorem atomic_of_textRole :
    ∀ rule ∈ libraryRules, rule.textRole = .children → rule.atomic = true := by
  decide

theorem atomic_button : ∀ rule ∈ libraryRules, rule.target = "Button" → rule.atomic = true := by
  decide

theorem target_not_mem :
    ∀ rule ∈ libraryRules, rule.target ∉ ["Col", "Tabs.TabPane", "img", "a", "button"] := by
  decide

theorem image_props : ∀ rule ∈ libraryRules, rule.target = "Image" ∨ rule.target = "Avatar" →
    PropRule.avatarShape ∈ rule.props ∨ PropRule.imageAttributes ∈ rule.props := by
  decide

theorem accepts_alt : ∀ rule ∈ libraryRules,
    PropRule.avatarShape ∈ rule.props ∨ PropRule.imageAttributes ∈ rule.props →
    ∀ entry ∈ builtinSource.entry? rule.target, entry.accepts "alt" = true := by
  decide

theorem property?_style : ∀ rule ∈ libraryRules, ∀ entry ∈ builtinSource.entry? rule.target,
    entry.property? "style" = none := by
  decide

/-- The properties that take any value. -/
theorem allowedValues_open : ∀ rule ∈ libraryRules,
    (PropRule.gapFromSpacing ∈ rule.props → allowedValues rule.target "gap" = []) ∧
    (PropRule.avatarShape ∈ rule.props →
      ∀ name ∈ ["size", "src", "alt"], allowedValues rule.target name = []) ∧
    (PropRule.imageAttributes ∈ rule.props →
      ∀ name ∈ ["src", "alt", "width", "height"], allowedValues rule.target name = []) ∧
    (PropRule.tagColor ∈ rule.props → allowedValues rule.target "color" = []) ∧
    (rule.textRole = .placeholder → allowedValues rule.target "placeholder" = []) ∧
    (rule.textRole = .label → allowedValues rule.target "label" = []) := by
  decide +kernel

/-- The values that are derived for properties that take only some. -/
theorem allowedValues_closed : ∀ rule ∈ libraryRules,
    (PropRule.sizeFromHeight ∈ rule.props →
      ∀ value ∈ ["small", "middle", "large"], value ∈ allowedValues rule.target "size") ∧
    (PropRule.titleLevel ∈ rule.props →
      ∀ value ∈ ["1", "2", "3", "4", "5"], value ∈ allowedValues rule.target "level") ∧
    (PropRule.dividerOrientation ∈ rule.props → "vertical" ∈ allowedValues rule.target "type") ∧
    (PropRule.avatarShape ∈ rule.props → "square" ∈ allowedValues rule.target "shape") ∧
    (PropRule.formLayout ∈ rule.props →
      ∀ value ∈ ["inline", "vertical"], value ∈ allowedValues rule.target "layout") := by
  decide +kernel

theorem isModuleName_library :
    Synthesis.IsModuleName Catalog.libraryModule ∧ Catalog.libraryModule.toList ≠ [] ∧
    '"' ∉ Catalog.libraryModule.toList := by
  unfold Synthesis.IsModuleName
  decide

theorem module_of_definition? {component : String} {d : Catalog.Definition}
    (h : builtinSource.definition? component = some d) :
    d.module = some Catalog.libraryModule := by
  obtain ⟨p, -, rfl⟩ := Option.map_eq_some_iff.1 h
  rfl

end Tables

/-! ## Nodes -/

/-- A mapped node of a library component, with its rule and its entry. -/
structure IsLibraryNode (m : MappedNode) (rule : Rule) (entry : Catalog.Entry) : Prop where
  rule_mem : rule ∈ libraryRules
  found : builtinSource.entry? rule.target = some entry
  entry_eq : m.entry = some entry
  component : m.component = rule.target
  gives : ∀ e ∈ m.props.entries, rule.Gives e.1 e.2
  atomic : rule.atomic = true → m.children = []
  text : ∀ text, m.text = some text → rule.textRole = .children
  alt : PropRule.avatarShape ∈ rule.props ∨ PropRule.imageAttributes ∈ rule.props →
    "alt" ∈ m.props.keys

/-- An engine that maps with the rules for the library and the built-in components, whatever was
looked up in them. -/
structure IsLibraryEngine (engine : Engine) : Prop where
  rules : engine.rules = libraryRules
  catalog : ∃ lookups, engine.catalog =
    (Catalog.Index.ofSource builtinSource).afterLookups lookups

section Nodes

variable {engine : Engine} {m : MappedNode} {rule : Rule} {entry : Catalog.Entry}
  {tree : MappedTree}

theorem IsLibraryEngine.entry?_eq (h : IsLibraryEngine engine) (name : String) :
    engine.catalog.entry? name = builtinSource.entry? name := by
  obtain ⟨lookups, hcatalog⟩ := h.catalog
  rw [hcatalog, Catalog.Index.entry?_afterLookups]

/-- Images and avatars always get their name as an alternative text. -/
theorem alt_mem_derive {config : Mapping.Config} {node : Semantic.Node}
    (h : PropRule.avatarShape ∈ rule.props ∨ PropRule.imageAttributes ∈ rule.props) :
    "alt" ∈ (rule.props.flatMap fun p => p.derive config node).map (·.1) := by
  have hmem : ∃ p ∈ rule.props, ("alt", Json.str node.name) ∈ p.derive config node := by
    rcases h with h | h
    · refine ⟨_, h, ?_⟩
      unfold PropRule.derive
      simp
    · refine ⟨_, h, ?_⟩
      unfold PropRule.derive
      simp
  obtain ⟨p, hp, hderived⟩ := hmem
  exact List.mem_map.2 ⟨_, List.mem_flatMap.2 ⟨p, hp, hderived⟩, rfl⟩

theorem IsLibraryEngine.exists_isLibraryNode (h : IsLibraryEngine engine)
    (hmakes : engine.Makes m) :
    ∃ rule entry, IsLibraryNode m rule entry := by
  obtain ⟨context, node, c, children, hbest, rfl, hatomic⟩ := hmakes
  obtain ⟨hrule, hfound⟩ := Engine.best?_eq_some hbest
  rw [h.rules] at hrule
  rw [h.entry?_eq] at hfound
  obtain ⟨-, -, -, hname, -, -, -⟩ := Catalog.Source.entry?_eq_some hfound
  refine ⟨c.rule, c.entry, hrule, hfound, rfl, hname, ?_, hatomic, ?_, ?_⟩
  · intro e he
    exact (Mapping.gives_of_mem_propsOf he).1
  · intro text htext
    have htext : c.rule.inlineText node = some text := htext
    unfold Rule.inlineText at htext
    split at htext
    · rename_i hrole
      exact beq_iff_eq.1 hrole
    · cases htext
  · intro himage
    show "alt" ∈ (Mapping.propsOf engine.config c node).keys
    have haccepts := accepts_alt c.rule hrule himage c.entry hfound
    have hkey :
        "alt" ∈ (KeyMap.ofList ((c.rule.props.flatMap fun p => p.derive engine.config node) ++
          c.rule.textProps node)).keys := by
      rw [KeyMap.mem_keys_ofList, List.map_append]
      exact List.mem_append_left _ (alt_mem_derive himage)
    obtain ⟨e, he, hname⟩ := List.mem_map.1 hkey
    exact List.mem_map.2 ⟨e, KeyMap.mem_filterKeys.2 ⟨he, hname ▸ haccepts⟩, hname⟩

theorem IsLibraryEngine.nodes (h : IsLibraryEngine engine) (node : Semantic.Node) :
    ∀ m ∈ (engine.mapTree node).nodes, ∃ rule entry, IsLibraryNode m rule entry := by
  intro m hm
  unfold MappedTree.nodes at hm
  cases hroot : (engine.mapTree node).root with
  | none =>
    rw [hroot] at hm
    cases hm
  | some root =>
    rw [hroot] at hm
    exact h.exists_isLibraryNode (Engine.makes_of_mem_mapTree hroot m hm)

/-- The entry of a library node: its name, its module and its binding. -/
theorem IsLibraryNode.entry_spec (h : IsLibraryNode m rule entry) :
    Catalog.isComponentName entry.name = true ∧ entry.name = m.component ∧
      entry.module = Catalog.libraryModule ∧
      entry.importName = Catalog.rootSegment m.component := by
  obtain ⟨d, hd, hname, heq, hmodule, hbinding, -⟩ := Catalog.Source.entry?_eq_some h.found
  rw [h.component]
  refine ⟨heq ▸ hname, heq, ?_, hbinding⟩
  rw [hmodule, module_of_definition? hd]
  rfl

theorem IsLibraryNode.tagOf_eq (h : IsLibraryNode m rule entry) : tagOf m = m.component := by
  unfold tagOf
  rw [h.entry_eq]
  exact h.entry_spec.2.1

end Nodes

/-! ## Sources of library trees -/

section Legible

variable {tree : MappedTree}

/-- The sources of trees of library components are taken apart. -/
theorem isLegible_of_nodes (h : ∀ m ∈ tree.nodes, ∃ rule entry, IsLibraryNode m rule entry) :
    Synthesis.IsLegible tree where
  readable i hi := by
    obtain ⟨m, hm, himport⟩ := List.mem_filterMap.1 hi
    obtain ⟨rule, entry, hnode⟩ := h m hm
    obtain ⟨hname, hcomponent, hmodule, hbinding⟩ := hnode.entry_spec
    rw [hnode.entry_eq] at himport
    cases himport
    rw [hcomponent] at hname
    have hsegment := Catalog.isNameSegment_rootSegment hname
    obtain ⟨_, _, _, _, halnum⟩ := Catalog.isNameSegment_eq_true hsegment
    show Synthesis.IsReadable (entry.module, entry.importName)
    rw [hmodule, hbinding]
    exact ⟨⟨isModuleName_library.1, halnum⟩, isModuleName_library.2.1, isModuleName_library.2.2,
      hsegment⟩
  tidy m hm := by
    obtain ⟨rule, entry, hnode⟩ := h m hm
    cases htext : m.text with
    | none => exact .inl htext
    | some text =>
      exact .inr (hnode.atomic (atomic_of_textRole rule hnode.rule_mem (hnode.text text htext)))
  keys m hm key hkey := by
    obtain ⟨rule, entry, hnode⟩ := h m hm
    obtain ⟨e, he, rfl⟩ := List.mem_map.1 hkey
    exact (hnode.gives e he).not_extends

end Legible

/-! ## Attributes of library nodes -/

section Attributes

variable {rule : Rule} {entry : Catalog.Entry} {m : MappedNode} {name : String} {v : Json}
  {a : Attribute}

/-- The names of the properties that the rules give. -/
def givenNames : List String :=
  ["size", "danger", "disabled", "level", "strong", "vertical", "gap", "type", "shape", "src",
    "alt", "width", "height", "color", "layout", "placeholder", "label"]

theorem mem_givenNames (h : rule.Gives name v) : name ∈ givenNames := by
  rcases h with ⟨-, hv⟩ | ⟨-, s⟩ | ⟨-, s⟩
  · cases hv <;> decide
  · decide
  · decide

/-- What the rules give is written. -/
theorem exists_shownValue (h : rule.Gives name v) : ∃ value, shownValue v = some value := by
  rcases h with ⟨-, hv⟩ | ⟨-, s⟩ | ⟨-, s⟩
  · cases hv <;> exact ⟨_, rfl⟩
  · exact ⟨_, rfl⟩
  · exact ⟨_, rfl⟩

/-- The attributes of a library node come from its rule, apart from its style. -/
theorem IsLibraryNode.mem_shownAttributes (h : IsLibraryNode m rule entry)
    (ha : a ∈ Synthesis.shownAttributes m) :
    (∃ v, rule.Gives a.name v ∧ shownValue v = some a.value) ∨ a.name = "style" := by
  rcases List.mem_append.1 ha with ha | ha
  · obtain ⟨e, he, hshown⟩ := List.mem_filterMap.1 ha
    obtain ⟨value, hvalue, rfl⟩ := Option.map_eq_some_iff.1 hshown
    exact .inl ⟨e.2, h.gives e he, hvalue⟩
  · split at ha
    · split at ha
      · cases ha
      · rw [List.mem_singleton.1 ha]
        exact .inr rfl
    · cases ha

theorem IsLibraryNode.name_mem (h : IsLibraryNode m rule entry)
    (ha : a ∈ Synthesis.shownAttributes m) :
    a.name ∈ "style" :: givenNames := by
  rcases h.mem_shownAttributes ha with ⟨v, hgives, -⟩ | hstyle
  · exact List.mem_cons_of_mem _ (mem_givenNames hgives)
  · rw [hstyle]
    exact List.mem_cons_self

/-- An attribute is not found fault with when its property takes any value, or takes the value
that is written. -/
theorem valueFindings_eq_nil {component tag : String}
    (hentry : builtinSource.entry? component = some entry)
    (h : allowedValues component a.name = [] ∨
      ∀ value, literalOf? a.value = some value → value ∈ allowedValues component a.name) :
    valueFindings entry tag a = [] := by
  unfold valueFindings
  cases hproperty : entry.property? a.name with
  | none => rfl
  | some p =>
    have hallowed : allowedValues component a.name = p.allowedValues := by
      unfold allowedValues
      rw [hentry, Option.bind_some, hproperty]
      rfl
    rw [hallowed] at h
    simp only
    cases hliteral : literalOf? a.value with
    | none => rfl
    | some value =>
      have hpass : (p.allowedValues.isEmpty || p.allowedValues.contains value) = true := by
        rcases h with hopen | hclosed
        · rw [hopen]
          rfl
        · rw [Bool.or_eq_true]
          exact .inr (List.contains_iff_mem.2 (hclosed value hliteral))
      simp only [hpass, if_true]

/-- A level is written as its digit. -/
theorem literalOf?_level : ∀ n ∈ [1, 2, 3, 4, 5], ∀ value ∈ shownValue (.ofNat n),
    ∀ literal ∈ literalOf? value, literal ∈ ["1", "2", "3", "4", "5"] := by
  decide

/-- A word that is written as it is, is a value that the property takes. -/
theorem allowed_text {component name s : String} (hwritten : shownValue (.str s) = some (.text s))
    (hmem : s ∈ allowedValues component name) :
    ∀ value, shownValue (.str s) = some value → ∀ literal, literalOf? value = some literal →
      literal ∈ allowedValues component name := by
  intro value hvalue literal hliteral
  rw [hwritten] at hvalue
  cases hvalue
  cases hliteral
  exact hmem

/-- What the rules give is allowed by the components that they are for. -/
theorem allowed_of_gives (hrule : rule ∈ libraryRules) (hgives : rule.Gives name v) :
    allowedValues rule.target name = [] ∨
      ∀ value, shownValue v = some value → ∀ literal, literalOf? value = some literal →
        literal ∈ allowedValues rule.target name := by
  obtain ⟨hgap, havatar, himage, hcolor, hplaceholder, hlabel⟩ := allowedValues_open rule hrule
  obtain ⟨hsize, hlevel, horientation, hshape, hlayout⟩ := allowedValues_closed rule hrule
  have hflag : ∀ value, shownValue (.bool true) = some value →
      ∀ literal, literalOf? value = some literal → literal ∈ allowedValues rule.target name := by
    rintro value ⟨⟩ literal ⟨⟩
  rcases hgives with ⟨hp, hv⟩ | ⟨hrole, s⟩ | ⟨hrole, s⟩
  · cases hv with
    | size tier =>
      have hword : tier.word ∈ ["small", "middle", "large"] := by cases tier <;> decide
      have hwritten : shownValue (.str tier.word) = some (.text tier.word) := by
        cases tier <;> rfl
      exact .inr (allowed_text hwritten (hsize hp tier.word hword))
    | danger => exact .inr hflag
    | disabled => exact .inr hflag
    | level hlow hhigh =>
      rename_i n
      have hmem : n ∈ [1, 2, 3, 4, 5] := by
        simp only [List.mem_cons, List.not_mem_nil, or_false]
        omega
      refine .inr fun value hvalue literal hliteral => hlevel hp literal ?_
      exact literalOf?_level n hmem value hvalue literal hliteral
    | strong => exact .inr hflag
    | vertical => exact .inr hflag
    | gap n => exact .inl (hgap hp)
    | orientation => exact .inr (allowed_text rfl (horientation hp))
    | square => exact .inr (allowed_text rfl (hshape hp))
    | avatarSize n => exact .inl (havatar hp _ (by decide))
    | avatarSource s => exact .inl (havatar hp _ (by decide))
    | avatarName s => exact .inl (havatar hp _ (by decide))
    | imageSource s => exact .inl (himage hp _ (by decide))
    | imageName s => exact .inl (himage hp _ (by decide))
    | imageWidth n => exact .inl (himage hp _ (by decide))
    | imageHeight n => exact .inl (himage hp _ (by decide))
    | color s => exact .inl (hcolor hp)
    | inline => exact .inr (allowed_text rfl (hlayout hp _ (by decide)))
    | column => exact .inr (allowed_text rfl (hlayout hp _ (by decide)))
  · exact .inl (hplaceholder hrole)
  · exact .inl (hlabel hrole)

end Attributes

/-! ## Elements of library trees -/

section Elements

variable {rule : Rule} {entry : Catalog.Entry} {m : MappedNode} {tree : MappedTree}

mutual

/-- The elements of a tree are those of its nodes in their places. -/
theorem shown_eq_map_placed (around : List String) : (node : MappedNode) →
    (∀ m ∈ node.preorder, tagOf m = m.component) →
    Synthesis.shown around node = (node.placed around).map fun p => shownElement p.1 p.2
  | ⟨id, name, component, entry, confidence, props, style, text, children⟩, h => by
    have hnode := h _ (MappedNode.self_mem_preorder _)
    rw [MappedNode.preorder_eq] at h
    have hchildren := shownAll_eq_map_placedAll (around ++ [component]) children
      fun m hm => h m (List.mem_cons_of_mem _ hm)
    rw [Synthesis.shown_eq, MappedNode.placed_eq, hnode, List.map_cons, hchildren]

theorem shownAll_eq_map_placedAll (around : List String) : (nodes : List MappedNode) →
    (∀ m ∈ MappedNode.preorderAll nodes, tagOf m = m.component) →
    Synthesis.shownAll around nodes =
      (MappedNode.placedAll around nodes).map fun p => shownElement p.1 p.2
  | [], _ => by rw [Synthesis.shownAll, MappedNode.placedAll, List.map_nil]
  | node :: rest, h => by
    rw [MappedNode.preorderAll] at h
    rw [Synthesis.shownAll, MappedNode.placedAll, List.map_append,
      shown_eq_map_placed around node fun m hm => h m (List.mem_append_left _ hm),
      shownAll_eq_map_placedAll around rest fun m hm => h m (List.mem_append_right _ hm)]

end

theorem shownTree_eq_map_placed (h : ∀ m ∈ tree.nodes, ∃ rule entry, IsLibraryNode m rule entry) :
    shownTree tree = tree.placed.map fun p => shownElement p.1 p.2 := by
  unfold MappedTree.nodes at h
  unfold shownTree MappedTree.placed
  cases hroot : tree.root with
  | none => rfl
  | some root =>
    rw [hroot] at h
    refine shown_eq_map_placed [] root fun m hm => ?_
    obtain ⟨rule, entry, hnode⟩ := h m hm
    exact hnode.tagOf_eq

/-- An element of a library tree is that of a node of a library component in its place. -/
theorem exists_node_of_mem_shownTree
    (h : ∀ m ∈ tree.nodes, ∃ rule entry, IsLibraryNode m rule entry) {e : Element}
    (he : e ∈ shownTree tree) :
    ∃ around m rule entry, (around, m) ∈ tree.placed ∧ m ∈ tree.nodes ∧
      IsLibraryNode m rule entry ∧ e = shownElement around m ∧ e.tag = rule.target := by
  rw [shownTree_eq_map_placed h] at he
  obtain ⟨⟨around, m⟩, hplaced, rfl⟩ := List.mem_map.1 he
  have hm : m ∈ tree.nodes := by
    rw [← tree.map_snd_placed]
    exact List.mem_map_of_mem hplaced
  obtain ⟨rule, entry, hnode⟩ := h m hm
  exact ⟨around, m, rule, entry, hplaced, hm, hnode, rfl, hnode.tagOf_eq.trans hnode.component⟩

/-- A library node is bound by the import of its entry. -/
theorem IsLibraryNode.mem_usedBindings (h : IsLibraryNode m rule entry) (hm : m ∈ tree.nodes)
    (around : List String) :
    (Catalog.libraryModule, (shownElement around m).rootBinding) ∈ usedBindings tree.nodes := by
  obtain ⟨-, hcomponent, hmodule, hbinding⟩ := h.entry_spec
  have hroot : (shownElement around m).rootBinding = Catalog.rootSegment m.component := by
    show Markup.rootOfTag (tagOf m) = _
    rw [h.tagOf_eq]
    rfl
  rw [hroot, ← hbinding, ← hmodule]
  refine List.mem_filterMap.2 ⟨m, hm, ?_⟩
  rw [h.entry_eq]
  rfl

theorem IsLibraryNode.hasAttribute_alt (h : IsLibraryNode m rule entry)
    (himage : rule.target = "Image" ∨ rule.target = "Avatar")
    (around : List String) : (shownElement around m).hasAttribute "alt" = true := by
  obtain ⟨e, he, hname⟩ := List.mem_map.1 (h.alt (image_props rule h.rule_mem himage))
  obtain ⟨value, hvalue⟩ := exists_shownValue (h.gives e he)
  have hmem : (⟨e.1, value, 0⟩ : Attribute) ∈ Synthesis.shownAttributes m := by
    refine List.mem_append_left _ (List.mem_filterMap.2 ⟨e, he, ?_⟩)
    rw [hvalue]
    rfl
  unfold Element.hasAttribute Element.attribute?
  rw [List.find?_isSome]
  exact ⟨_, hmem, by simpa using hname⟩

/-- Trees of library components give the checks no cause. -/
theorem conforms_of_nodes {catalog : Catalog.Index}
    (hcatalog : ∀ name, catalog.entry? name = builtinSource.entry? name)
    (h : ∀ m ∈ tree.nodes, ∃ rule entry, IsLibraryNode m rule entry) :
    Validation.Conforms catalog (usedBindings tree.nodes) (shownTree tree) where
  bound e he _ := by
    obtain ⟨around, m, rule, entry, -, hm, hnode, rfl, -⟩ := exists_node_of_mem_shownTree h he
    exact ⟨_, hnode.mem_usedBindings hm around, rfl⟩
  used i hi := by
    obtain ⟨m, hm, himport⟩ := List.mem_filterMap.1 hi
    obtain ⟨rule, entry, hnode⟩ := h m hm
    have hplace : ∃ around, (around, m) ∈ tree.placed := by
      rw [← tree.map_snd_placed] at hm
      obtain ⟨p, hplaced, rfl⟩ := List.mem_map.1 hm
      exact ⟨p.1, hplaced⟩
    obtain ⟨around, hplaced⟩ := hplace
    refine ⟨shownElement around m, ?_, ?_⟩
    · rw [shownTree_eq_map_placed h]
      exact List.mem_map.2 ⟨_, hplaced, rfl⟩
    · rw [hnode.entry_eq] at himport
      obtain rfl : (entry.module, entry.importName) = i := Option.some.inj himport
      show Markup.rootOfTag (tagOf m) = entry.importName
      rw [hnode.tagOf_eq, hnode.entry_spec.2.2.2]
      rfl
  current e he := by
    obtain ⟨around, m, rule, entry, -, -, hnode, -, htag⟩ := exists_node_of_mem_shownTree h he
    have hother := target_not_mem rule hnode.rule_mem
    rw [htag]
    simp only [List.mem_cons, not_or] at hother
    exact ⟨hother.1, hother.2.1⟩
  values e he entry' hentry a ha := by
    obtain ⟨around, m, rule, entry, -, -, hnode, rfl, htag⟩ := exists_node_of_mem_shownTree h he
    rw [hcatalog, htag, hnode.found] at hentry
    cases hentry
    rcases hnode.mem_shownAttributes ha with ⟨v, hgives, hvalue⟩ | hstyle
    · refine valueFindings_eq_nil hnode.found ?_
      exact (allowed_of_gives hnode.rule_mem hgives).imp_right
        fun hclosed => hclosed a.value hvalue
    · unfold valueFindings
      rw [hstyle, property?_style rule hnode.rule_mem _ hnode.found]
  images e he himage := by
    obtain ⟨around, m, rule, entry, -, -, hnode, rfl, htag⟩ := exists_node_of_mem_shownTree h he
    refine hnode.hasAttribute_alt ?_ around
    have hother := target_not_mem rule hnode.rule_mem
    unfold Validation.isImageLike Validation.imageTags at himage
    rw [htag] at himage
    simp only [List.mem_cons, not_or] at hother
    simp only [Bool.or_eq_true, Bool.and_eq_true, beq_iff_eq, List.contains_iff_mem,
      List.mem_cons, List.not_mem_nil, or_false] at himage
    rcases himage with (himg | himage) | ⟨havatar, -⟩
    · exact absurd himg hother.2.2.1
    · exact .inl himage
    · exact .inr havatar
  spreads e he a ha := by
    obtain ⟨around, m, rule, entry, -, -, hnode, rfl, -⟩ := exists_node_of_mem_shownTree h he
    have hnames : ∀ name ∈ "style" :: givenNames, (name == Attribute.spreadName) = false := by
      decide
    exact hnames a.name (hnode.name_mem ha)
  handlers e he a ha := by
    obtain ⟨around, m, rule, entry, -, -, hnode, rfl, -⟩ := exists_node_of_mem_shownTree h he
    have hnames : ∀ name ∈ "style" :: givenNames, Validation.isEventName name = false := by decide
    exact hnames a.name (hnode.name_mem ha)

end Elements

/-! ## Elements that say nothing -/

section Labels

variable {rule : Rule} {entry : Catalog.Entry} {m : MappedNode} {tree : MappedTree}

/-- A text between two tags shows: as an expression, or as its words. -/
theorem hasTextContent_shownElement {text : String} (htext : m.text = some text)
    (around : List String) :
    (shownElement around m).hasTextContent = true := by
  unfold Element.hasTextContent Synthesis.shownElement
  rw [htext]
  simp only [Option.map_some, Option.getD_some]
  cases hneeds : Synthesis.needsExpression text.toList with
  | true => rw [Bool.or_true]
  | false =>
    have hplain : Synthesis.plainText text = text.toList := by
      unfold Synthesis.plainText
      rw [hneeds]
      rfl
    obtain ⟨c, hmem, hc⟩ := Synthesis.exists_mem_of_not_needsExpression hneeds
    rw [hplain, Bool.or_false, Bool.not_eq_true']
    have hwords := Text.joinWith_words_ne_nil hmem hc
    simpa [Markup.collapse, String.isEmpty_iff] using hwords

/-- The attributes of library nodes are no labels. -/
theorem IsLibraryNode.hasAttribute_label (h : IsLibraryNode m rule entry) (around : List String) :
    Validation.labelAttributes.any (shownElement around m).hasAttribute = false := by
  have hnames : ∀ name ∈ "style" :: givenNames, name ∉ Validation.labelAttributes := by decide
  rw [List.any_eq_false]
  intro label hlabel hhas
  unfold Element.hasAttribute Element.attribute? at hhas
  obtain ⟨a, ha, hname⟩ := List.find?_isSome.1 hhas
  exact hnames a.name (h.name_mem ha) (by rwa [beq_iff_eq.1 hname])

/-- What is reported about a button that says nothing. -/
def silentButton : String :=
  "<Button> has no text content or accessible label"

theorem IsLibraryNode.messages_labelFindings (h : IsLibraryNode m rule entry)
    (around : List String) :
    (Validation.labelFindings (shownElement around m)).map (·.message) =
      if m.component == "Button" && m.text.isNone then [silentButton] else [] := by
  have htag : (shownElement around m).tag = m.component := h.tagOf_eq
  have hother := target_not_mem rule h.rule_mem
  rw [← h.component] at hother
  simp only [List.mem_cons, not_or] at hother
  have hinteractive : Validation.interactiveTags.contains m.component =
      (m.component == "Button") := by
    rw [Bool.eq_iff_iff]
    simp [Validation.interactiveTags, hother.2.2.2.1, hother.2.2.2.2]
  have hcontent : m.component = "Button" →
      (shownElement around m).hasContent = m.text.isSome := by
    intro hbutton
    have hchildren := h.atomic (atomic_button rule h.rule_mem (h.component ▸ hbutton))
    cases htext : m.text with
    | none =>
      simp [Element.hasContent, Element.hasTextContent, Synthesis.shownElement, htext, hchildren]
    | some text =>
      unfold Element.hasContent
      rw [hasTextContent_shownElement htext]
      rfl
  unfold Validation.labelFindings
  rw [htag, hinteractive, h.hasAttribute_label, Bool.not_false, Bool.and_true]
  by_cases hbutton : m.component = "Button"
  · rw [hcontent hbutton, hbutton]
    cases m.text <;> rfl
  · simp [hbutton]

/-- One finding for each button without a text. -/
theorem messages_shownTree (h : ∀ m ∈ tree.nodes, ∃ rule entry, IsLibraryNode m rule entry) :
    ((shownTree tree).flatMap fun e => (Validation.labelFindings e).map (·.message)) =
      (tree.nodes.filter fun m => m.component == "Button" && m.text.isNone).map
        fun _ => silentButton := by
  have hnodes : ∀ p ∈ tree.placed,
      (Validation.labelFindings (shownElement p.1 p.2)).map (·.message) =
        if p.2.component == "Button" && p.2.text.isNone then [silentButton] else [] := by
    intro p hp
    obtain ⟨rule, entry, hnode⟩ :=
      h p.2 (by rw [← tree.map_snd_placed]; exact List.mem_map_of_mem hp)
    exact hnode.messages_labelFindings p.1
  rw [shownTree_eq_map_placed h, List.flatMap_map, List.flatMap_congr hnodes,
    ← tree.map_snd_placed]
  induction tree.placed with
  | nil => rfl
  | cons p placed ih =>
    rw [List.flatMap_cons, List.map_cons, List.filter_cons, ih]
    split <;> rfl

/-- A form item outside of forms is an element outside of them. -/
theorem exists_orphan_iff (h : ∀ m ∈ tree.nodes, ∃ rule entry, IsLibraryNode m rule entry) :
    (∃ e ∈ shownTree tree, e.tag = "Form.Item" ∧ "Form" ∉ e.ancestors) ↔
      ∃ p ∈ tree.placed, p.2.component = "Form.Item" ∧ "Form" ∉ p.1 := by
  rw [shownTree_eq_map_placed h]
  simp only [List.mem_map, exists_exists_and_eq_and]
  refine exists_congr fun p => and_congr_right fun hp => ?_
  obtain ⟨rule, entry, hnode⟩ :=
    h p.2 (by rw [← tree.map_snd_placed]; exact List.mem_map_of_mem hp)
  have htag : (shownElement p.1 p.2).tag = p.2.component := hnode.tagOf_eq
  rw [htag]
  rfl

end Labels

end DesignCompiler
