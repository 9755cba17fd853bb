import DesignCompiler.Design.Export

/-!
# Selected nodes

Which node of a tree is selected by an identifier. Identifiers may be repeated in a tree and below
one another; `Node.find?_eq` says that the search comes to the first of the nodes in the order of
the tree, whatever their depth is. A selected node selects itself, so a tree that was narrowed
once may be narrowed again.
-/

namespace DesignCompiler.Design

mutual

/-- The nodes of a tree, a node before its children and these in order. -/
def Node.preorder : Node → List Node
  | node@⟨_, _, _, _, _, _, _, _, _, _, _, _, _, _, _, _, _, _, _, _, _, _, children⟩ =>
    node :: Node.preorderAll children

/-- The nodes of trees in order. -/
def Node.preorderAll : List Node → List Node
  | [] => []
  | child :: rest => child.preorder ++ Node.preorderAll rest

end

/-- The first node of a tree with an identifier. -/
def Node.first? (id : String) (root : Node) : Option Node :=
  root.preorder.find? fun node => node.id == id

section Search

variable {id : String} {root node : Node}

mutual

/-- A search comes to the first node in the order of the tree. -/
theorem Node.find?_eq (id : String) : (root : Node) → root.find? id = root.first? id
  | ⟨own, _, _, _, _, _, _, _, _, _, _, _, _, _, _, _, _, _, _, _, _, _, children⟩ => by
    unfold Node.first?
    rw [Node.find?, Node.preorder, List.find?_cons]
    by_cases hown : own = id
    · rw [if_pos hown]
      simp only [hown, BEq.rfl]
    · rw [if_neg hown, Node.findAmong?_eq id children]
      simp only [beq_false_of_ne hown]

theorem Node.findAmong?_eq (id : String) : (children : List Node) →
    Node.findAmong? id children = (Node.preorderAll children).find? fun node => node.id == id
  | [] => rfl
  | child :: rest => by
    rw [Node.findAmong?, Node.preorderAll, List.find?_append, Node.find?_eq id child,
      Node.findAmong?_eq id rest, Node.first?]
    cases child.preorder.find? fun node => node.id == id <;> rfl

end

/-- What is selected in a tree: its first node with the identifier, or none. -/
theorem selectNode_some (root : Node) (id : String) :
    selectNode root (some id) = ((root.first? id).map .ok).getD (.error (.nodeNotFound id)) := by
  unfold selectNode
  simp only [Node.find?_eq]
  cases root.first? id <;> rfl

theorem id_of_first? (h : root.first? id = some node) : node.id = id :=
  beq_iff_eq.1 (List.find?_some (p := fun node : Node => node.id == id) h)

theorem first?_self (node : Node) : node.first? node.id = some node := by
  cases node
  rw [Node.first?, Node.preorder]
  exact List.find?_cons_of_pos BEq.rfl

/-- A node that was selected by an identifier is what the identifier selects in it. -/
theorem first?_of_first? (h : root.first? id = some node) : node.first? id = some node :=
  id_of_first? h ▸ first?_self node

end Search

end DesignCompiler.Design
