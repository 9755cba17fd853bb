import DesignCompiler.Proofs.Synthesis.Bindings
import DesignCompiler.Proofs.Synthesis.Faults
import DesignCompiler.Proofs.Synthesis.RoundTrip

/-!
# Levels of mapped trees

A tree can be written exactly when it is not higher than the options allow and its nodes are
sound, which means that nothing is wrong with them wherever they stand (`writes_iff`). The nodes
of a tree that was mapped are sound:

* every node has an entry, and the catalog has entries for valid names only;
* every property comes from a rule or takes a text, and all their names are attribute names.

So a synthesis gives a mapped tree up exactly when the tree is too high, which
`synthesize_mapTree_fallsBack_iff` says of every engine, tree and synthesizer.
-/

namespace DesignCompiler

/-! ## Heights -/

namespace Mapping

mutual

/-- The number of levels of the tree; a node alone has one. -/
def MappedNode.height : MappedNode → Nat
  | ⟨_, _, _, _, _, _, _, _, children⟩ => MappedNode.heightAll children + 1

/-- The number of levels of the highest of the trees. -/
def MappedNode.heightAll : List MappedNode → Nat
  | [] => 0
  | child :: rest => max (MappedNode.height child) (MappedNode.heightAll rest)

end

/-- The number of levels of a mapped tree; there are none without a root. -/
def MappedTree.height (t : MappedTree) : Nat :=
  (t.root.map (·.height)).getD 0

mutual

/-- There is a node so deep exactly if the tree has a level below. -/
theorem MappedNode.exists_deep_iff (limit : Nat) : (node : MappedNode) → ∀ around : List String,
    (∃ p ∈ node.placed around, limit ≤ p.1.length) ↔ limit < around.length + node.height
  | ⟨id, name, component, entry, confidence, props, style, text, children⟩, around => by
    have hchildren := MappedNode.existsAll_deep_iff limit children (around ++ [component])
    rw [List.length_append, List.length_singleton] at hchildren
    rw [placed, height, ← Nat.add_assoc, Nat.add_right_comm, ← hchildren]
    simp only [List.mem_cons, exists_eq_or_imp]
    exact or_congr_left Nat.lt_succ_iff.symm

/-- The trees stand one level below what is around them. -/
theorem MappedNode.existsAll_deep_iff (limit : Nat) :
    (nodes : List MappedNode) → ∀ around : List String,
    (limit < around.length ∨ ∃ p ∈ placedAll around nodes, limit ≤ p.1.length) ↔
      limit < around.length + heightAll nodes
  | [], around => by simp [placedAll, heightAll]
  | node :: rest, around => by
    have hnode := MappedNode.exists_deep_iff limit node around
    have hrest := MappedNode.existsAll_deep_iff limit rest around
    have hmax : limit < around.length + max node.height (heightAll rest) ↔
        limit < around.length + node.height ∨ limit < around.length + heightAll rest := by omega
    rw [placedAll, heightAll, hmax, ← hnode, ← hrest]
    simp only [List.mem_append, or_and_right, exists_or]
    exact or_left_comm

end

/-- The nodes of a mapped tree are made by the engine. -/
theorem Engine.makes_of_mem_nodes (engine : Engine) (node : Semantic.Node) :
    ∀ m ∈ (engine.mapTree node).nodes, engine.Makes m := by
  intro m hm
  unfold MappedTree.nodes at hm
  cases hroot : (engine.mapTree node).root with
  | none =>
    rw [hroot] at hm
    cases hm
  | some root =>
    rw [hroot] at hm
    exact makes_of_mem_mapTree hroot m hm

/-- Every property that a rule can give has the name of an attribute. -/
theorem Rule.Gives.isAttributeName {rule : Rule} {name : String} {v : Json}
    (h : rule.Gives name v) :
    Synthesis.isAttributeName name = true := by
  rcases h with ⟨-, hv⟩ | ⟨-, s⟩ | ⟨-, s⟩
  · cases hv <;> decide
  · decide
  · decide

/-- A mapped node has an entry of the catalog, and its properties have names of attributes. -/
theorem Engine.Makes.writable {engine : Engine} {m : MappedNode} (h : engine.Makes m) :
    (∃ entry target, m.entry = some entry ∧ engine.catalog.entry? target = some entry) ∧
      ∀ key ∈ m.props.keys, Synthesis.isAttributeName key = true := by
  constructor
  · obtain ⟨context, node, c, children, hbest, rfl, -⟩ := h
    exact ⟨c.entry, c.rule.target, rfl, (Engine.best?_eq_some hbest).2⟩
  · intro key hkey
    obtain ⟨e, he, rfl⟩ := List.mem_map.1 hkey
    obtain ⟨rule, -, entry, -, -, hgives, -⟩ := h.props he
    exact hgives.isAttributeName

end Mapping

namespace Synthesis

open Mapping (Config Engine MappedNode MappedTree Rule)

/-! ## Sound nodes -/

/-- Nothing is wrong with the node, wherever it stands. -/
structure IsSound (node : MappedNode) : Prop where
  entry : ∃ entry, node.entry = some entry ∧ Catalog.isComponentName entry.name = true
  keys : ∀ key ∈ node.props.keys, isAttributeName key = true

section Sound

variable {options : Options} {depth : Nat} {m root : MappedNode} {tree : MappedTree}

/-- A node can be written if it is sound and not too deep. -/
theorem not_isFaulty_iff : ¬ IsFaulty options depth m ↔ depth < options.maxDepth ∧ IsSound m := by
  constructor
  · intro hnot
    unfold IsFaulty at hnot
    push Not at hnot
    obtain ⟨hdepth, hentry, hname, hkeys⟩ := hnot
    obtain ⟨entry, hsome⟩ := Option.ne_none_iff_exists'.1 hentry
    refine ⟨hdepth, ⟨entry, hsome, ?_⟩, fun key hkey => ?_⟩
    · simpa using hname entry hsome
    · simpa using hkeys key hkey
  · rintro ⟨hdepth, ⟨entry, hentry, hname⟩, hkeys⟩
    exact not_isFaulty_of_entry hdepth hentry hname hkeys

/-- A tree can be written exactly if it is not too high and its nodes are sound. -/
theorem writes_iff : Writes options tree ↔
  tree.height ≤ options.maxDepth ∧ ∀ m ∈ tree.nodes, IsSound m := by
  unfold MappedTree.height MappedTree.nodes Writes
  cases tree.root with
  | none => simp
  | some root =>
    have hfirst : (write options 0 root).fault = firstFault? options (root.placed []) :=
      fault_write root []
    have hwrites : (∀ r, some root = some r → (write options 0 r).fault = none) ↔
        ∀ p ∈ root.placed [], p.1.length < options.maxDepth ∧ IsSound p.2 := by
      simp only [Option.some.injEq, forall_eq', hfirst, firstFault?_eq_none_iff, not_isFaulty_iff]
    have hheight : root.height ≤ options.maxDepth ↔
        ∀ p ∈ root.placed [], p.1.length < options.maxDepth := by
      have hdeep := MappedNode.exists_deep_iff options.maxDepth root []
      rw [List.length_nil, Nat.zero_add] at hdeep
      rw [← Nat.not_lt, ← hdeep]
      push Not
      rfl
    have hnodes : (∀ m ∈ root.preorder, IsSound m) ↔ ∀ p ∈ root.placed [], IsSound p.2 := by
      rw [← root.map_snd_placed [], List.forall_mem_map]
    rw [hwrites, Option.map_some, Option.getD_some, hheight, hnodes]
    exact forall₂_and

/-- Sound nodes have one fault only, which is that they are too deep. -/
theorem eq_tooDeep_of_isSound {fault : Fault} (hsound : ∀ m ∈ root.preorder, IsSound m)
    (h : (write options 0 root).fault = some fault) : fault = .tooDeep options.maxDepth := by
  have hfirst : (write options 0 root).fault = firstFault? options (root.placed []) :=
    fault_write root []
  obtain ⟨before, p, after, hplaced, -, hstrikes⟩ := firstFault?_eq_some (hfirst.symm.trans h)
  have hmem : p.2 ∈ root.preorder := by
    rw [← root.map_snd_placed [], hplaced]
    exact List.mem_map_of_mem (List.mem_append_right _ List.mem_cons_self)
  obtain ⟨⟨entry, hentry, hname⟩, hkeys⟩ := hsound p.2 hmem
  cases hstrikes with
  | tooDeep => rfl
  | missingEntry _ hnone =>
    rw [hentry] at hnone
    cases hnone
  | invalidTag _ hother hinvalid =>
    rw [hentry] at hother
    obtain rfl := Option.some.inj hother
    rw [hname] at hinvalid
    cases hinvalid
  | @invalidAttribute _ _ _ key _ _ _ hsplit _ hinvalid =>
    rw [hkeys key (hsplit ▸ List.mem_append_right _ List.mem_cons_self)] at hinvalid
    cases hinvalid

end Sound

/-! ## Nodes that were mapped -/

section Makes

variable {source : Catalog.Source} {engine : Engine} {m : MappedNode}
  (hcatalog : ∀ target, engine.catalog.entry? target = source.entry? target)

include hcatalog

/-- The entry of a mapped node is one of the source of the catalog. -/
theorem exists_source_entry (h : engine.Makes m) :
    ∃ entry, m.entry = some entry ∧ source.entry? entry.name = some entry := by
  obtain ⟨⟨entry, target, hentry, hfound⟩, -⟩ := h.writable
  rw [hcatalog] at hfound
  obtain ⟨-, -, -, hname, -⟩ := Catalog.Source.entry?_eq_some hfound
  exact ⟨entry, hentry, hname ▸ hfound⟩

/-- Nothing is wrong with a mapped node by itself. -/
theorem isSound_of_makes (h : engine.Makes m) : IsSound m := by
  obtain ⟨entry, hentry, hfound⟩ := exists_source_entry hcatalog h
  obtain ⟨-, -, hname, -⟩ := Catalog.Source.entry?_eq_some hfound
  exact ⟨⟨entry, hentry, hname⟩, h.writable.2⟩

end Makes

/-! ## Outputs of mapped trees -/

/-- The output stands in for a tree that was given up for the fault. -/
def Output.StandsIn (options : Options) (name : String) (fault : Fault) (o : Output) : Prop :=
  o = .assemble options (componentIdentifier name) []
    (some (fallbackText options (faultMessage fault))) [.warning .synthesis (faultMessage fault)]

/-- A tree without nodes is not one that was given up. -/
theorem emptyTreeWarning_ne (fault : Fault) :
    emptyTreeWarning ≠ .warning .synthesis (faultMessage fault) := by
  intro h
  have hmessage : "No components found to render; the generated component returns null" =
      "Code generation failed: " ++ fault.message := congrArg Diagnostic.message h
  have hfirst := congrArg (fun s => s.toList.head?) hmessage
  simp [String.toList_append] at hfirst

section Outputs

variable {synthesizer : Synthesizer} {tree : MappedTree} {fault : Fault}

/-- The fault of a draft is what the output stands in for. -/
theorem standsIn_of_fault {root : MappedNode} (hroot : tree.root = some root)
    (hfault : (write synthesizer.options 0 root).fault = some fault) (name : String) :
    (synthesizer.synthesize tree name).2.StandsIn synthesizer.options name fault := by
  unfold Output.StandsIn
  rw [synthesize_of_root hroot]
  exact ofDraft_of_fault hfault

/-- A synthesis falls back on the trees that cannot be written. -/
theorem standsIn_iff (name : String) :
    (∃ fault, (synthesizer.synthesize tree name).2.StandsIn synthesizer.options name fault) ↔
      ¬ Writes synthesizer.options tree := by
  constructor
  · rintro ⟨fault, houtput⟩ hwritten
    have hdiagnostics : (synthesizer.synthesize tree name).2.diagnostics =
        [.warning .synthesis (faultMessage fault)] := congrArg Output.diagnostics houtput
    cases hroot : tree.root with
    | none =>
      unfold Synthesizer.synthesize at hdiagnostics
      rw [hroot] at hdiagnostics
      exact absurd (List.cons.inj hdiagnostics).1 (emptyTreeWarning_ne fault)
    | some root =>
      rw [synthesize_of_root hroot,
        ofDraft_of_fault_eq_none (hwritten root hroot)] at hdiagnostics
      cases hdiagnostics
  · intro hgiven
    obtain ⟨root, fault, hroot, hfault⟩ := exists_fault_of_not_writes hgiven
    exact ⟨fault, standsIn_of_fault hroot hfault name⟩

end Outputs

section Mapped

variable {source : Catalog.Source} {engine : Engine} {node : Semantic.Node}
  {synthesizer : Synthesizer}
  (hcatalog : ∀ target, engine.catalog.entry? target = source.entry? target)

include hcatalog

/-- The bindings of mapped nodes are the first segments of their tags. -/
theorem eq_rootSegment_of_mem_usedBindings {i : String × String}
    (hi : i ∈ usedBindings (engine.mapTree node).nodes) :
    ∃ m ∈ (engine.mapTree node).nodes, i.2 = Catalog.rootSegment (tagOf m) ∧
      Catalog.isNameSegment i.2.toList = true := by
  obtain ⟨m, hm, himport⟩ := List.mem_filterMap.1 hi
  obtain ⟨entry, hentry, hfound⟩ :=
    exists_source_entry hcatalog (engine.makes_of_mem_nodes node m hm)
  obtain ⟨-, -, hname, -, -, hbinding, -⟩ := Catalog.Source.entry?_eq_some hfound
  have htag : tagOf m = entry.name := by
    unfold tagOf
    rw [hentry]
    rfl
  rw [hentry, Option.map_some] at himport
  obtain rfl := Option.some.inj himport
  refine ⟨m, hm, ?_, ?_⟩
  · rw [htag]
    exact hbinding
  · simp only [hbinding]
    exact Catalog.isNameSegment_rootSegment hname

/-- A mapped tree can be written exactly if it is not too high. -/
theorem writes_mapTree_iff (options : Options) :
    Writes options (engine.mapTree node) ↔ (engine.mapTree node).height ≤ options.maxDepth := by
  rw [writes_iff]
  exact and_iff_left fun m hm => isSound_of_makes hcatalog (engine.makes_of_mem_nodes node m hm)

/-- The fault of a mapped tree is that it is too deep, if it has one. -/
theorem eq_tooDeep_of_fault_mapTree {options : Options} {root : MappedNode} {fault : Fault}
    (hroot : (engine.mapTree node).root = some root)
    (h : (write options 0 root).fault = some fault) :
    fault = .tooDeep options.maxDepth :=
  eq_tooDeep_of_isSound (fun m hm =>
    isSound_of_makes hcatalog (Engine.makes_of_mem_mapTree hroot m hm)) h

/-- The names on the import lines are the first segments of tags, whether the tree is written or
given up. -/
theorem eq_rootSegment_of_mem_listedNames {name binding : String}
    (h : binding ∈ (synthesizer.synthesize (engine.mapTree node) name).2.imports.flatMap
      listedNames) :
    ∃ m ∈ (engine.mapTree node).nodes, binding = Catalog.rootSegment (tagOf m) := by
  by_cases hwritten : Writes synthesizer.options (engine.mapTree node)
  · have hnames : ∀ i ∈ usedBindings (engine.mapTree node).nodes, i.2 ≠ "" ∧
        ∀ c ∈ i.2.toList, c.isAlphanum = true := by
      intro i hi
      obtain ⟨m, -, -, hsegment⟩ := eq_rootSegment_of_mem_usedBindings hcatalog hi
      obtain ⟨c, rest, hchars, -, halnum⟩ := Catalog.isNameSegment_eq_true hsegment
      refine ⟨?_, halnum⟩
      intro hempty
      rw [hempty] at hchars
      cases hchars
    rw [imports_synthesize hwritten, flatMap_listedNames_importLines hnames,
      mem_flatMap_bindingsOf] at h
    obtain ⟨i, hi, rfl⟩ := h
    obtain ⟨m, hm, hsegment, -⟩ := eq_rootSegment_of_mem_usedBindings hcatalog hi
    exact ⟨m, hm, hsegment⟩
  · obtain ⟨fault, hout⟩ := (standsIn_iff name).2 hwritten
    have himports : (synthesizer.synthesize (engine.mapTree node) name).2.imports = [reactLine] :=
      congrArg Output.imports hout
    rw [himports, List.flatMap_singleton, listedNames_reactLine] at h
    cases h

end Mapped

/-- **Only its levels give a mapped tree up.** Whatever the source of the catalog is and what was
looked up in it before, whatever the rules, the configuration and the semantic tree are, and
whatever was written before and with which layout and name: the synthesis of the mapped tree falls
back exactly if the tree has more levels than are allowed. The fault is then that the tree is too
deep, and no mapped tree has another one. Every name that the import lines list is the first
segment of the tag of a node. -/
theorem synthesize_mapTree_fallsBack_iff (source : Catalog.Source) (lookups : List String)
    (rules : List Rule) (config : Config) (node : Semantic.Node) (synthesizer : Synthesizer)
    (name : String) :
    let engine : Engine := ⟨(Catalog.Index.ofSource source).afterLookups lookups, rules, config⟩
    let tree := engine.mapTree node
    let output := (synthesizer.synthesize tree name).2
    ((∃ fault, output.StandsIn synthesizer.options name fault) ↔
      synthesizer.options.maxDepth < tree.height) ∧
      (synthesizer.options.maxDepth < tree.height →
        output.StandsIn synthesizer.options name (.tooDeep synthesizer.options.maxDepth)) ∧
      (∀ root fault, tree.root = some root →
        (write synthesizer.options 0 root).fault = some fault →
        fault = .tooDeep synthesizer.options.maxDepth) ∧
      ∀ binding ∈ output.imports.flatMap listedNames,
        ∃ m ∈ tree.nodes, binding = Catalog.rootSegment (tagOf m) := by
  intro engine tree output
  have hcatalog : ∀ target, engine.catalog.entry? target = source.entry? target :=
    Catalog.Index.entry?_afterLookups source lookups
  refine ⟨?_, ?_, fun root fault hroot hfault =>
    eq_tooDeep_of_fault_mapTree hcatalog hroot hfault,
    fun binding hbinding => eq_rootSegment_of_mem_listedNames hcatalog hbinding⟩
  · rw [standsIn_iff, writes_mapTree_iff hcatalog, Nat.not_le]
  · intro hdeep
    have hgiven : ¬ Writes synthesizer.options tree := by
      rw [writes_mapTree_iff hcatalog, Nat.not_le]
      exact hdeep
    obtain ⟨root, fault, hroot, hfault⟩ := exists_fault_of_not_writes hgiven
    obtain rfl := eq_tooDeep_of_fault_mapTree hcatalog hroot hfault
    exact standsIn_of_fault hroot hfault name

/-- One form item inside another one is too much for a single level, and not for the usual number
of levels. -/
theorem synthesize_mapTree_fallsBack_nestedItems :
    (∃ fault, ((Synthesizer.ofOptions { Options.default with maxDepth := 1 }).synthesize
      (NestedItems.engine.mapTree NestedItems.outer) "Sign up").2.StandsIn
        { Options.default with maxDepth := 1 } "Sign up" fault) ∧
      ¬ ∃ fault, ((Synthesizer.ofOptions .default).synthesize
        (NestedItems.engine.mapTree NestedItems.outer) "Sign up").2.StandsIn .default "Sign up"
        fault := by
  have hheight : (NestedItems.engine.mapTree NestedItems.outer).height = 2 := by
    rw [NestedItems.mapTree_outer]
    rfl
  have hwhen (options : Options) :=
    (synthesize_mapTree_fallsBack_iff NestedItems.source ["Form.Item", "Button"]
      Mapping.libraryRules .default NestedItems.outer (.ofOptions options) "Sign up").1
  constructor
  · refine (hwhen _).2 ?_
    show 1 < (NestedItems.engine.mapTree NestedItems.outer).height
    omega
  · intro hfallsBack
    have hdeep : 64 < (NestedItems.engine.mapTree NestedItems.outer).height :=
      (hwhen .default).1 hfallsBack
    omega

end Synthesis

end DesignCompiler
