import DesignCompiler.Proofs.Mapping.Outcomes

/-!
# Every node is accounted for

The nodes of a semantic tree are all found in its outcome, among those that take a candidate or in
one of the trees that are dropped, are labels or are absorbed by an atomic component.
`Outcome.tally` adds them up, and `Engine.Settles.tally_eq` says that the sum is the whole tree.
`Engine.mapTree_accounts` states it of mapped trees, with their order and their warnings.
-/

namespace DesignCompiler

/-! ## Nodes in order -/

namespace Semantic.Node

theorem preorder_eq (node : Node) : node.preorder = node :: preorderAll node.children := by
  cases node
  rw [preorder]

theorem count_eq (node : Node) : node.count = countAll node.children + 1 := by
  cases node
  rw [count]

theorem countAll_append (nodes nodes' : List Node) :
    countAll (nodes ++ nodes') = countAll nodes + countAll nodes' := by
  induction nodes with
  | nil => simp [countAll]
  | cons node rest ih => rw [List.cons_append, countAll, countAll, ih, Nat.add_assoc]

end Semantic.Node

namespace Mapping

open Semantic (Node)

mutual

theorem MappedNode.length_preorder : (node : MappedNode) → node.preorder.length = node.count
  | ⟨_, _, _, _, _, _, _, _, children⟩ => by
    rw [preorder, count, List.length_cons, MappedNode.length_preorderAll children]

theorem MappedNode.length_preorderAll :
    (nodes : List MappedNode) → (preorderAll nodes).length = countAll nodes
  | [] => rfl
  | node :: rest => by
    rw [preorderAll, countAll, List.length_append, MappedNode.length_preorder node,
      MappedNode.length_preorderAll rest]

end

namespace Outcome

/-- The nodes of the mapped tree are those that take a candidate. -/
theorem map_nodeId_mapped? (config : Config) (o : Outcome) :
    (MappedNode.preorderAll (o.mapped? config).toList).map (·.nodeId) =
      (o.preorder.filterMap taken?).map (·.id) := by
  have hone (o : Outcome) : (o.mapped? config).map (·.nodeId) = o.taken?.map (·.id) := by
    cases o <;> rfl
  rw [preorderAll_mapped?, List.map_filterMap, List.map_filterMap]
  exact congrArg (o.preorder.filterMap ·) (funext hone)

/-- The nodes that the outcomes find by themselves: those that take a candidate, and the trees
that are dropped, are labels or are absorbed. -/
def tally (outcomes : List Outcome) : Nat :=
  (outcomes.filterMap taken?).length + Node.countAll (outcomes.filterMap dropped?) +
    Node.countAll (outcomes.filterMap label?) + Node.countAll (outcomes.flatMap absorbed)

theorem tally_append (outcomes outcomes' : List Outcome) :
    tally (outcomes ++ outcomes') = tally outcomes + tally outcomes' := by
  unfold tally
  simp only [List.filterMap_append, List.flatMap_append, List.length_append, Node.countAll_append]
  omega

theorem tally_dropped (node : Node) : tally [dropped node] = node.count := by
  simp [tally, List.filterMap_cons, taken?, dropped?, label?, absorbed, Node.countAll]

theorem tally_label (node : Node) : tally [label node] = node.count := by
  simp [tally, List.filterMap_cons, taken?, dropped?, label?, absorbed, Node.countAll]

theorem tally_taken (node : Node) (c : Candidate) (children : List Outcome) :
    tally [taken node c children] =
      1 + Node.countAll (if c.rule.atomic then node.children else []) := by
  simp [tally, List.filterMap_cons, taken?, dropped?, label?, absorbed, Node.countAll]

/-- Outcomes that find all nodes of their trees do so together. -/
theorem tally_preorderAll {outcomes : List Outcome}
    (h : ∀ o ∈ outcomes, tally o.preorder = o.node.count) :
    tally (preorderAll outcomes) = Node.countAll (outcomes.map node) := by
  induction outcomes with
  | nil => rfl
  | cons o rest ih =>
    rw [preorderAll, tally_append, h o List.mem_cons_self,
      ih fun o ho => h o (List.mem_cons_of_mem _ ho), List.map_cons, Node.countAll]

/-- The nodes that take a candidate are nodes of the tree, in its order. -/
def TakesInOrder (o : Outcome) : Prop :=
  (o.preorder.filterMap taken?).Sublist o.node.preorder

theorem sublist_of_takesInOrder {outcomes : List Outcome} (h : ∀ o ∈ outcomes, o.TakesInOrder) :
    ((preorderAll outcomes).filterMap taken?).Sublist (Node.preorderAll (outcomes.map node)) := by
  induction outcomes with
  | nil => exact .slnil
  | cons o rest ih =>
    rw [preorderAll, List.filterMap_append, List.map_cons, Node.preorderAll]
    exact (h o List.mem_cons_self).append (ih fun o ho => h o (List.mem_cons_of_mem _ ho))

end Outcome

namespace Engine.Settles

variable {engine : Engine} {context : Option String} {o : Outcome}

theorem takesInOrder (h : engine.Settles context o) : o.TakesInOrder := by
  refine h.induct ?_ ?_ ?_ ?_
  · intro node
    exact List.nil_sublist _
  · intro node
    exact List.nil_sublist _
  · intro node c _
    unfold Outcome.TakesInOrder
    rw [Node.preorder_eq]
    exact (List.nil_sublist _).cons_cons _
  · intro node c children _ hnodes hchildren
    unfold Outcome.TakesInOrder
    rw [Node.preorder_eq]
    show List.Sublist (node :: (Outcome.preorderAll children).filterMap Outcome.taken?)
      (node :: Node.preorderAll node.children)
    rw [← hnodes]
    exact (Outcome.sublist_of_takesInOrder hchildren).cons_cons _

/-- A settled outcome finds every node of its tree. -/
theorem tally_eq (h : engine.Settles context o) : Outcome.tally o.preorder = o.node.count := by
  refine h.induct (P := fun o => Outcome.tally o.preorder = o.node.count) ?_ ?_ ?_ ?_
  · intro node
    rw [Outcome.preorder, Outcome.tally_dropped, Outcome.node]
  · intro node
    rw [Outcome.preorder, Outcome.tally_label, Outcome.node]
  · intro node c hatomic
    rw [Outcome.preorder, Outcome.preorderAll, Outcome.tally_taken, if_pos hatomic, Outcome.node,
      Node.count_eq]
    omega
  · intro node c children hatomic hnodes hchildren
    have hall := Outcome.tally_preorderAll hchildren
    rw [Outcome.preorder, ← List.singleton_append, Outcome.tally_append, Outcome.tally_taken,
      hall, hnodes, if_neg (by simp [hatomic]), Outcome.node, Node.count_eq, Node.countAll]
    omega

end Engine.Settles

/-! ## Mapped trees -/

theorem Outcome.filter_warnings (outcomes : List Outcome) :
    (warnings outcomes).filter (·.kind == .mapping) = warnings outcomes := by
  unfold warnings
  rw [List.filter_eq_self]
  intro d hd
  obtain ⟨node, -, rfl⟩ := List.mem_map.1 hd
  rfl

namespace Engine

/-- **Every node is accounted for exactly once.** A mapped tree has one outcome, and it settles
every child of every container: the child is mapped in its place, or it is dropped with one
warning, or it is the one label; below an atomic component there is nothing. So the mapped nodes
are in the order of the document, there is one warning for each dropped child and no other, and
the mapped nodes, the dropped trees, the labels and what is absorbed by atomic components add up
to the whole tree. A root that is not mapped leaves no warnings. -/
theorem mapTree_accounts (engine : Engine) (root : Node) :
    ((engine.mapTree root).root = none → (engine.mapTree root).diagnostics = []) ∧
    ∀ mapped, (engine.mapTree root).root = some mapped →
      ∃ o, engine.Settles none o ∧ (∀ o', engine.Settles none o' → o'.node = root → o' = o) ∧
        o.node = root ∧ o.mapped? engine.config = some mapped ∧
        (engine.mapTree root).diagnostics =
          (o.preorder.filterMap Outcome.dropped?).map (fun child =>
            .warning .mapping
              ("Node '" ++ child.name ++ "' (" ++ child.id ++
                ") matched no catalog component and was dropped")) ∧
        ((engine.mapTree root).diagnostics.filter (·.kind == .mapping)).length =
          (o.preorder.filterMap Outcome.dropped?).length ∧
        (mapped.preorder.map (·.nodeId)).Sublist (root.preorder.map (·.id)) ∧
        root.count = (engine.mapTree root).count +
          Node.countAll (o.preorder.filterMap Outcome.dropped?) +
          Node.countAll (o.preorder.filterMap Outcome.label?) +
          Node.countAll (o.preorder.flatMap Outcome.absorbed) := by
  obtain ⟨o, hsettles, rfl, hmap⟩ := engine.exists_mapTree_eq root
  rw [hmap]
  constructor
  · intro hnone
    simp_all
  · intro mapped hmapped
    have hmapped : o.mapped? engine.config = some mapped := hmapped
    have hids := o.map_nodeId_mapped? engine.config
    rw [hmapped] at hids ⊢
    simp only [Option.toList_some, MappedNode.preorderAll, List.append_nil] at hids
    have hlength : mapped.count = (o.preorder.filterMap Outcome.taken?).length := by
      rw [← MappedNode.length_preorder, ← List.length_map, hids, List.length_map]
    refine ⟨o, hsettles, fun o' h' hnode => h'.unique hsettles hnode, rfl, hmapped, rfl, ?_,
      ?_, ?_⟩
    · simp only [Option.isSome_some, if_true, Outcome.filter_warnings]
      rw [Outcome.warnings, List.length_map]
    · rw [hids]
      exact hsettles.takesInOrder.map _
    · rw [← hsettles.tally_eq, MappedTree.count, Option.map_some, Option.getD_some, hlength]
      rfl

end Engine

/-! ## A form item, a button and a line -/

namespace FormSheet

/-- A source with form items and buttons. -/
def source : Catalog.Source where
  names := ["Button", "Form.Item"]
  definition? name :=
    if name = "Form.Item" ∨ name = "Button" then some ⟨none, none, none, [], []⟩ else none

/-- Frames become form items, and components become buttons. -/
def rules : List Rule := [
  { target := "Form.Item", kinds := [.frame], namePatterns := [], textRole := .label,
    atomic := false },
  { target := "Button", kinds := [.component], namePatterns := [], textRole := .children }]

def engine : Engine :=
  ⟨.ofSource source, rules, { Config.default with typeWeight := 30 }⟩

/-- A node of a kind without a box. -/
def plainNode (id : String) (kind : Design.NodeKind) (content : Option Semantic.Content)
    (children : List Node) :
    Node :=
  ⟨id, "node", kind, ⟨⟨0.0, 0.0, 0.0, 0.0⟩, false, none, none, none, none⟩,
    ⟨none, none, none, none, 1.0, [], []⟩, content, ⟨true, false, none⟩, children⟩

/-- A text. -/
def textNode (id text : String) : Node :=
  plainNode id .text (some ⟨text, none, none, none, none, none⟩) []

/-- A frame with a label, a button with a text in it, and a group that nothing fits. -/
def sheet : Node :=
  plainNode "1" .frame none
    [textNode "2" "Name", plainNode "3" .component none [textNode "4" "Go"],
      plainNode "5" .group none [textNode "6" "lost"]]

end FormSheet

/-- Of six nodes two are mapped and one is a label, one is absorbed and two are dropped with one
warning. -/
theorem mapTree_accounts_formSheet :
    (FormSheet.engine.mapTree FormSheet.sheet).root.isSome = true ∧
      (FormSheet.engine.mapTree FormSheet.sheet).diagnostics.map (·.message) =
        ["Node 'node' (5) matched no catalog component and was dropped"] ∧
      ∃ o, FormSheet.engine.Settles none o ∧ o.node = FormSheet.sheet ∧
        6 = 2 + Node.countAll (o.preorder.filterMap Outcome.dropped?) +
          Node.countAll (o.preorder.filterMap Outcome.label?) +
          Node.countAll (o.preorder.flatMap Outcome.absorbed) := by
  have hsome : (FormSheet.engine.mapTree FormSheet.sheet).root.isSome = true := by decide +kernel
  have hcount : (FormSheet.engine.mapTree FormSheet.sheet).count = 2 := by decide +kernel
  obtain ⟨mapped, hmapped⟩ := Option.isSome_iff_exists.1 hsome
  obtain ⟨o, hsettles, -, hnode, -, -, -, -, htotal⟩ :=
    (FormSheet.engine.mapTree_accounts FormSheet.sheet).2 mapped hmapped
  rw [hcount] at htotal
  exact ⟨hsome, by decide +kernel, o, hsettles, hnode, htotal⟩

end Mapping

end DesignCompiler
