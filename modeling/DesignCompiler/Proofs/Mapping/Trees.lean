import DesignCompiler.Mapping.Tree
import DesignCompiler.Proofs.KeyMap

/-!
# Nodes of mapped trees

Every node of a mapped tree was made from a node of the semantic tree and its best candidate.
`Engine.Makes` says so of one node, and `makes_of_mem_mapTree` of all nodes of a tree. What a
candidate's rule and entry are, which properties can be derived, and where texts come from are
read off it.
-/

namespace DesignCompiler.Mapping

open Semantic (Node)

/-! ## Nodes in order -/

mutual

/-- The nodes of the tree, a node before its children. -/
def MappedNode.preorder : MappedNode → List MappedNode
  | node@⟨_, _, _, _, _, _, _, _, children⟩ => node :: MappedNode.preorderAll children

/-- The nodes of the trees in order. -/
def MappedNode.preorderAll : List MappedNode → List MappedNode
  | [] => []
  | child :: rest => MappedNode.preorder child ++ MappedNode.preorderAll rest

end

theorem MappedNode.preorder_eq (node : MappedNode) :
    node.preorder = node :: preorderAll node.children := by
  cases node
  rw [preorder]

theorem MappedNode.self_mem_preorder (node : MappedNode) : node ∈ node.preorder := by
  rw [preorder_eq]
  exact List.mem_cons_self

theorem MappedNode.preorderAll_append (nodes nodes' : List MappedNode) :
    preorderAll (nodes ++ nodes') = preorderAll nodes ++ preorderAll nodes' := by
  induction nodes with
  | nil => rfl
  | cons node rest ih => rw [List.cons_append, preorderAll, preorderAll, ih, List.append_assoc]

/-- The nodes of a mapped tree; there are none without a root. -/
def MappedTree.nodes (t : MappedTree) : List MappedNode :=
  match t.root with
  | some root => root.preorder
  | none => []

mutual

/-- The nodes of the tree with the components around them, outermost first, a node before its
children. -/
def MappedNode.placed (around : List String) : MappedNode → List (List String × MappedNode)
  | node@⟨_, _, component, _, _, _, _, _, children⟩ =>
    (around, node) :: MappedNode.placedAll (around ++ [component]) children

/-- The nodes of the trees with the components around them in order. -/
def MappedNode.placedAll (around : List String) :
    List MappedNode → List (List String × MappedNode)
  | [] => []
  | child :: rest => MappedNode.placed around child ++ MappedNode.placedAll around rest

end

/-- The nodes of a mapped tree with the components around them. -/
def MappedTree.placed (t : MappedTree) : List (List String × MappedNode) :=
  match t.root with
  | some root => root.placed []
  | none => []

theorem MappedNode.placed_eq (around : List String) (node : MappedNode) :
    node.placed around = (around, node) ::
      placedAll (around ++ [node.component]) node.children := by
  cases node
  rw [placed]

mutual

/-- The places aside, these are the nodes in order. -/
theorem MappedNode.map_snd_placed (around : List String) : (node : MappedNode) →
    (node.placed around).map (·.2) = node.preorder
  | ⟨id, name, component, entry, confidence, props, style, text, children⟩ => by
    rw [placed, preorder, List.map_cons, map_snd_placedAll _ children]

theorem MappedNode.map_snd_placedAll (around : List String) : (nodes : List MappedNode) →
    (placedAll around nodes).map (·.2) = preorderAll nodes
  | [] => by rw [placedAll, preorderAll, List.map_nil]
  | node :: rest => by
    rw [placedAll, preorderAll, List.map_append, map_snd_placed around node,
      map_snd_placedAll around rest]

end

theorem MappedTree.map_snd_placed (t : MappedTree) : t.placed.map (·.2) = t.nodes := by
  unfold placed nodes
  cases t.root with
  | none => rfl
  | some root => exact root.map_snd_placed []

/-! ## Candidates -/

section Candidates

variable {engine : Engine} {node : Node} {context : Option String} {c : Candidate}

/-- A candidate has a rule of the engine, and the entry that the catalog has for the rule. -/
theorem Engine.best?_eq_some (h : engine.best? node context = some c) :
    c.rule ∈ engine.rules ∧ engine.catalog.entry? c.rule.target = some c.entry := by
  have hmem : c ∈ engine.candidates node context := List.mem_of_mem_head? h
  unfold Engine.candidates at hmem
  rw [List.mem_mergeSort, List.mem_filterMap] at hmem
  obtain ⟨⟨rule, index⟩, hrule, hcandidate⟩ := hmem
  unfold Engine.candidate? at hcandidate
  simp only at hcandidate
  split at hcandidate
  · cases hcandidate
  · obtain ⟨entry, hentry, rfl⟩ := Option.map_eq_some_iff.1 hcandidate
    exact ⟨List.fst_mem_of_mem_zipIdx hrule, hentry⟩

end Candidates

section Single

variable {engine : Engine} {node : Node} {context : Option String}

theorem Engine.candidate?_eq_none {p : Rule × Nat} (h : engine.catalog.entry? p.1.target = none) :
    engine.candidate? node context p = none := by
  unfold candidate?
  rw [h]
  simp

/-- Where only one rule has its component in the catalog, no other rule makes a candidate. -/
theorem Engine.best?_of_single {before after : List Rule} {rule : Rule}
    (hrules : engine.rules = before ++ rule :: after)
    (hothers : ∀ r ∈ before ++ after, engine.catalog.entry? r.target = none) :
    engine.best? node context = engine.candidate? node context (rule, before.length) := by
  have hnone (rules : List Rule) (n : Nat)
      (h : ∀ r ∈ rules, engine.catalog.entry? r.target = none) :
      (rules.zipIdx n).filterMap (engine.candidate? node context) = [] := by
    rw [List.filterMap_eq_nil_iff]
    intro p hp
    exact candidate?_eq_none (h p.1 (List.fst_mem_of_mem_zipIdx hp))
  have hbefore := hnone before 0 fun r hr => hothers r (List.mem_append_left _ hr)
  have hafter :=
    hnone after (before.length + 1) fun r hr => hothers r (List.mem_append_right _ hr)
  unfold best? candidates
  rw [hrules, List.zipIdx_append, List.filterMap_append, hbefore, List.zipIdx_cons, Nat.zero_add,
    List.nil_append, List.filterMap_cons, hafter]
  cases engine.candidate? node context (rule, before.length) <;> simp

end Single

/-- The engine makes such a node: from a semantic node and its best candidate, and without
children if the rule is atomic. -/
def Engine.Makes (engine : Engine) (mapped : MappedNode) : Prop :=
  ∃ context node c children, engine.best? node context = some c ∧
    mapped = mappedWith engine.config c node children ∧ (c.rule.atomic = true → children = [])

mutual

theorem Engine.makes_of_mem_mapNode (engine : Engine) :
    (node : Node) → ∀ {context mapped warnings},
    engine.mapNode context node = some (mapped, warnings) → ∀ m ∈ mapped.preorder, engine.Makes m
  | ⟨id, name, kind, layout, styling, content, properties, children⟩, context, mapped, warnings,
    h, m, hm => by
      rw [mapNode] at h
      cases hbest : engine.best? ⟨id, name, kind, layout, styling, content, properties, children⟩
        context with
      | none =>
        rw [hbest] at h
        cases h
      | some c =>
        rw [hbest] at h
        simp only at h
        split at h
        · cases h
          rw [MappedNode.preorder_eq] at hm
          rcases List.mem_cons.1 hm with rfl | hm
          · exact ⟨context, _, c, [], hbest, rfl, fun _ => rfl⟩
          · cases hm
        · rename_i hatomic
          cases h
          rw [MappedNode.preorder_eq] at hm
          rcases List.mem_cons.1 hm with rfl | hm
          · exact ⟨context, _, c, _, hbest, rfl, fun h => absurd h hatomic⟩
          · exact Engine.makes_of_mem_mapChildren engine children m hm

theorem Engine.makes_of_mem_mapChildren (engine : Engine) :
    (nodes : List Node) → ∀ {context label},
    ∀ m ∈ MappedNode.preorderAll (engine.mapChildren context label nodes).1, engine.Makes m
  | [], context, label, m, hm => by
    rw [mapChildren] at hm
    cases hm
  | child :: rest, context, label, m, hm => by
    rw [mapChildren] at hm
    split at hm
    · exact Engine.makes_of_mem_mapChildren engine rest m hm
    · cases hchild : engine.mapNode (some context) child with
      | none =>
        rw [hchild] at hm
        exact Engine.makes_of_mem_mapChildren engine rest m hm
      | some result =>
        rw [hchild] at hm
        simp only [MappedNode.preorderAll] at hm
        rcases List.mem_append.1 hm with hm | hm
        · exact Engine.makes_of_mem_mapNode engine child hchild m hm
        · exact Engine.makes_of_mem_mapChildren engine rest m hm

end

/-- Every node of a mapped tree is made by the engine. -/
theorem Engine.makes_of_mem_mapTree {engine : Engine} {node : Node} {root : MappedNode}
    (h : (engine.mapTree node).root = some root) : ∀ m ∈ root.preorder, engine.Makes m := by
  unfold mapTree at h
  cases hmap : engine.mapNode none node with
  | none =>
    rw [hmap] at h
    cases h
  | some result =>
    rw [hmap] at h
    cases h
    exact engine.makes_of_mem_mapNode node hmap

/-! ## Properties -/

/-- The properties that a rule can derive, over all nodes. -/
inductive PropRule.Derives : PropRule → String → Json → Prop where
  | size (tier : SizeTier) : Derives .sizeFromHeight "size" (.str tier.word)
  | danger : Derives .dangerFromName "danger" (.bool true)
  | disabled : Derives .disabledFromOpacity "disabled" (.bool true)
  | level {n : Nat} (hlow : 1 ≤ n) (hhigh : n ≤ 5) : Derives .titleLevel "level" (.ofNat n)
  | strong : Derives .strongFromWeight "strong" (.bool true)
  | vertical : Derives .flexDirection "vertical" (.bool true)
  | gap (n : Int) : Derives .gapFromSpacing "gap" (.int n)
  | orientation : Derives .dividerOrientation "type" (.str "vertical")
  | square : Derives .avatarShape "shape" (.str "square")
  | avatarSize (n : Int) : Derives .avatarShape "size" (.int n)
  | avatarSource (s : String) : Derives .avatarShape "src" (.str s)
  | avatarName (s : String) : Derives .avatarShape "alt" (.str s)
  | imageSource (s : String) : Derives .imageAttributes "src" (.str s)
  | imageName (s : String) : Derives .imageAttributes "alt" (.str s)
  | imageWidth (n : Int) : Derives .imageAttributes "width" (.int n)
  | imageHeight (n : Int) : Derives .imageAttributes "height" (.int n)
  | color (s : String) : Derives .tagColor "color" (.str s)
  | inline : Derives .formLayout "layout" (.str "inline")
  | column : Derives .formLayout "layout" (.str "vertical")

theorem titleLevel_bounds (size : Float) : 1 ≤ titleLevel size ∧ titleLevel size ≤ 5 := by
  unfold titleLevel
  split
  · omega
  · split
    · omega
    · split
      · omega
      · split <;> omega

theorem eq_of_mem_sourceProp {node : Node} {e : String × Json} (he : e ∈ sourceProp node) :
    ∃ s, e = ("src", .str s) := by
  unfold sourceProp at he
  split at he
  · exact ⟨_, List.mem_singleton.1 he⟩
  · cases he

theorem eq_of_mem_ite {α : Type} {p : Prop} [Decidable p] {x y : α}
    (h : x ∈ if p then [y] else []) : x = y :=
  List.mem_singleton.1 (List.mem_ite_nil_right.1 h).2

/-- A rule derives only such properties from a node. -/
theorem PropRule.derives_of_mem_derive {rule : PropRule} {config : Config} {node : Node}
    {e : String × Json} (he : e ∈ rule.derive config node) : rule.Derives e.1 e.2 := by
  cases rule with
  | sizeFromHeight =>
    rw [eq_of_mem_ite he]
    exact .size _
  | dangerFromName =>
    rw [eq_of_mem_ite he]
    exact .danger
  | disabledFromOpacity =>
    rw [eq_of_mem_ite he]
    exact .disabled
  | titleLevel =>
    rw [List.mem_singleton.1 he]
    exact .level (titleLevel_bounds _).1 (titleLevel_bounds _).2
  | strongFromWeight =>
    rw [eq_of_mem_ite he]
    exact .strong
  | flexDirection =>
    rw [eq_of_mem_ite he]
    exact .vertical
  | gapFromSpacing =>
    simp only [derive] at he
    split at he
    · rw [List.mem_singleton.1 he]
      exact .gap _
    · cases he
  | dividerOrientation =>
    rw [eq_of_mem_ite he]
    exact .orientation
  | avatarShape =>
    simp only [derive, List.mem_append, List.mem_ite_nil_left, List.mem_ite_nil_right,
      List.mem_singleton] at he
    rcases he with ((⟨-, rfl⟩ | ⟨-, rfl⟩) | he) | rfl
    · exact .square
    · exact .avatarSize _
    · obtain ⟨s, rfl⟩ := eq_of_mem_sourceProp he
      exact .avatarSource s
    · exact .avatarName _
  | imageAttributes =>
    simp only [derive, List.mem_append, List.mem_ite_nil_right, List.mem_cons, List.not_mem_nil,
      or_false] at he
    rcases he with (he | rfl) | ⟨-, rfl | rfl⟩
    · obtain ⟨s, rfl⟩ := eq_of_mem_sourceProp he
      exact .imageSource s
    · exact .imageName _
    · exact .imageWidth _
    · exact .imageHeight _
  | tagColor =>
    simp only [derive] at he
    split at he
    · rw [List.mem_singleton.1 he]
      exact .color _
    · cases he
  | formLayout =>
    rw [List.mem_singleton.1 he]
    simp only
    split
    · exact .inline
    · exact .column

/-- The properties that a rule gives a node, apart from what the component accepts. -/
inductive Rule.Gives (rule : Rule) : String → Json → Prop where
  | derived {p : PropRule} {name : String} {v : Json} (hp : p ∈ rule.props)
      (hv : p.Derives name v) :
      Gives rule name v
  | placeholder (hrole : rule.textRole = .placeholder) (s : String) :
      Gives rule "placeholder" (.str s)
  | label (hrole : rule.textRole = .label) (s : String) : Gives rule "label" (.str s)

theorem Rule.gives_of_mem_textProps {rule : Rule} {node : Node} {e : String × Json}
    (he : e ∈ rule.textProps node) :
    rule.Gives e.1 e.2 := by
  unfold textProps at he
  split at he
  · rename_i hrole
    split at he
    · rw [List.mem_singleton.1 he]
      exact .placeholder hrole _
    · cases he
  · rename_i hrole
    split at he
    · rw [List.mem_singleton.1 he]
      exact .label hrole _
    · cases he
  · cases he

/-- The properties of a mapped node are given by its rule, and its component accepts them. -/
theorem gives_of_mem_propsOf {config : Config} {c : Candidate} {node : Node} {e : String × Json}
    (he : e ∈ (propsOf config c node).entries) :
    c.rule.Gives e.1 e.2 ∧ c.entry.accepts e.1 = true := by
  unfold propsOf at he
  obtain ⟨hmem, haccepts⟩ := KeyMap.mem_filterKeys.1 he
  refine ⟨?_, haccepts⟩
  rcases List.mem_append.1 (KeyMap.mem_of_mem_ofList hmem) with hmem | hmem
  · obtain ⟨p, hp, hderive⟩ := List.mem_flatMap.1 hmem
    exact .derived hp (PropRule.derives_of_mem_derive hderive)
  · exact Rule.gives_of_mem_textProps hmem

/-- No rule gives a property whose name reads like the bound of a type parameter. -/
theorem Rule.Gives.not_extends {rule : Rule} {name : String} {v : Json} (h : rule.Gives name v) :
    ¬ "extends".toList <+: name.toList := by
  rcases h with ⟨-, hv⟩ | ⟨-, s⟩ | ⟨-, s⟩
  · cases hv <;> decide
  · decide
  · decide

/-! ## Entries -/

section Entries

variable {source : Catalog.Source} {lookups : List String} {engine : Engine} {mapped : MappedNode}

/-- The properties of a mapped node are given by a rule of the engine, and the entry of the node
accepts them. -/
theorem Engine.Makes.props (h : engine.Makes mapped) {e : String × Json}
    (he : e ∈ mapped.props.entries) :
    ∃ rule ∈ engine.rules, ∃ entry,
      mapped.entry = some entry ∧ engine.catalog.entry? rule.target = some entry ∧
        rule.Gives e.1 e.2 ∧ entry.accepts e.1 = true := by
  obtain ⟨context, node, c, children, hbest, rfl, -⟩ := h
  obtain ⟨hrule, hentry⟩ := Engine.best?_eq_some hbest
  obtain ⟨hgives, haccepts⟩ := gives_of_mem_propsOf he
  exact ⟨c.rule, hrule, c.entry, rfl, hentry, hgives, haccepts⟩

end Entries

end DesignCompiler.Mapping
