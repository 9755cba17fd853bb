import DesignCompiler.Proofs.Conversion.Selections
import Mathlib.Data.List.Forall2

/-!
# Sessions of a builder

One builder builds one tree after the other. Its counters change at every node, and they start
again with every call, also with one that fails:

* `Mirrors` says that a tree has the shape of a document, and `mirrors_build` that the tree of a
  document has it.
* `Builder.build_fst` is what a build adds to the counters, whatever they were before: the nodes
  of the tree that it makes, and those of them without geometry.
* `Builder.serves_ingest` is one call, and `Builder.session_serves` any calls one after the other.
-/

namespace DesignCompiler.Semantic

/-! ## Shapes -/

/-- The tree is the document node by node: the same identifiers, names and kinds at the same
positions, and the children in the same order. A node shows a text exactly if it is a text node
with these characters and has any, and it has geometry exactly if the document gave its bounds. -/
inductive Mirrors : Design.Node → Node → Prop where
  | intro {raw : Design.Node} {node : Node} (id : node.id = raw.id) (name : node.name = raw.name)
      (kind : node.kind = raw.kind)
      (content : ∀ text, (∃ c, node.content = some c ∧ c.text = text) ↔
        raw.kind = .text ∧ raw.characters = some text ∧ text ≠ "")
      (geometry : node.layout.hasGeometry = raw.bounds.isSome)
      (children : List.Forall₂ Mirrors raw.children node.children) : Mirrors raw node

theorem contentOf?_iff (raw : Design.Node) (text : String) :
    (∃ c, contentOf? raw = some c ∧ c.text = text) ↔
      raw.kind = .text ∧ raw.characters = some text ∧ text ≠ "" := by
  unfold contentOf?
  split
  · rename_i shown hkind hcharacters
    rw [hkind, hcharacters]
    by_cases hempty : shown = ""
    · simp [hempty]
    · simp only [String.isEmpty_iff, hempty, if_false, Option.some.injEq, exists_eq_left',
        true_and]
      constructor
      · intro htext
        exact ⟨htext, htext ▸ hempty⟩
      · intro h
        exact h.1
  · rename_i hother
    constructor
    · intro ⟨c, hc, _⟩
      cases hc
    · intro ⟨hkind, hcharacters, _⟩
      exact absurd hcharacters (hother text hkind)

/-- A node keeps the shape of its document if its children do. -/
theorem mirrors_nodeWith {raw : Design.Node} {children : List Node}
    (h : List.Forall₂ Mirrors raw.children children) : Mirrors raw (nodeWith raw children) :=
  .intro rfl rfl rfl (contentOf?_iff raw) rfl h

/-- Whether a node has no geometry. -/
def Node.isBare (node : Node) : Bool :=
  !node.layout.hasGeometry

/-- The number of nodes of the tree without geometry. -/
def Node.countBare (node : Node) : Nat :=
  node.preorder.countP isBare

namespace Builder

/-! ## One build -/

/-- The counters after a tree with so many nodes, and so many of them without geometry. -/
def plus (b : Builder) (nodes bare : Nat) : Builder :=
  ⟨b.nodesBuilt + nodes, b.missingGeometry + bare⟩

theorem build_eq (b : Builder) (raw : Design.Node) :
    b.build raw =
      (((b.countNode raw).buildAll raw.children).1,
        nodeWith raw ((b.countNode raw).buildAll raw.children).2) := by
  cases raw
  rw [build]

mutual

/-- The tree of a document has its shape. -/
theorem mirrors_build (b : Builder) : (raw : Design.Node) → Mirrors raw (b.build raw).2
  | ⟨_, _, _, _, _, _, _, _, _, _, _, _, _, _, _, _, _, _, _, _, _, _, children⟩ => by
    rw [build_eq]
    exact mirrors_nodeWith (mirrors_buildAll _ children)

theorem mirrors_buildAll (b : Builder) :
    (raws : List Design.Node) → List.Forall₂ Mirrors raws (b.buildAll raws).2
  | [] => by
    rw [buildAll]
    exact .nil
  | raw :: rest => by
    rw [buildAll]
    exact .cons (mirrors_build b raw) (mirrors_buildAll _ rest)

end

/-- A node counts as one, and once more if it has no geometry. -/
theorem countNode_plus (b : Builder) (raw : Design.Node) (children : List Node) :
    (b.countNode raw).plus (Node.countAll children)
      ((Node.preorderAll children).countP Node.isBare) =
      b.plus (nodeWith raw children).count (nodeWith raw children).countBare := by
  unfold Node.countBare nodeWith
  rw [Node.count, Node.preorder, List.countP_cons]
  unfold countNode plus layoutOf Node.isBare
  cases raw.bounds with
  | none => simp; omega
  | some bounds => simp; omega

mutual

/-- A build adds to the counters what is in the tree that it makes. -/
theorem build_fst (b : Builder) : (raw : Design.Node) →
    (b.build raw).1 = b.plus (b.build raw).2.count (b.build raw).2.countBare
  | ⟨_, _, _, _, _, _, _, _, _, _, _, _, _, _, _, _, _, _, _, _, _, _, children⟩ => by
    rw [build_eq]
    exact (buildAll_fst _ children).trans (countNode_plus b _ _)

theorem buildAll_fst (b : Builder) : (raws : List Design.Node) →
    (b.buildAll raws).1 =
      b.plus (Node.countAll (b.buildAll raws).2)
        ((Node.preorderAll (b.buildAll raws).2).countP Node.isBare)
  | [] => by
    rw [buildAll, Node.countAll, Node.preorderAll]
    rfl
  | raw :: rest => by
    rw [buildAll, Node.countAll, Node.preorderAll, List.countP_append]
    show ((b.build raw).1.buildAll rest).1 = _
    rw [buildAll_fst (b.build raw).1 rest, build_fst b raw]
    unfold plus Node.countBare
    simp [Nat.add_assoc]

end

/-! ## One call -/

/-- The tree is that of the node, and the counters are those of the tree. -/
structure Built (start : Design.Node) (b : Builder) (tree : Node) : Prop where
  mirrors : Mirrors start tree
  nodesBuilt : b.nodesBuilt = tree.count
  missingGeometry : b.missingGeometry = tree.countBare

/-- What a call for a document, or for a node in it, leaves behind and answers. -/
inductive Serves (root : Design.Node) : Option String → Builder × Except Failure Node → Prop where
  /-- Without an identifier the tree is that of the whole document. -/
  | whole {b : Builder} {tree : Node} (built : Built root b tree) : Serves root none (b, .ok tree)
  /-- The tree is that of the first node with the identifier, in the order of the document. -/
  | found {id : String} {start : Design.Node} {b : Builder} {tree : Node}
      (first : root.preorder.find? (fun node => node.id == id) = some start)
      (built : Built start b tree) : Serves root (some id) (b, .ok tree)
  /-- No node has the identifier. -/
  | absent {id : String} (absent : ∀ node ∈ root.preorder, node.id ≠ id) :
      Serves root (some id) (⟨0, 0⟩, .error (.nodeNotFound id))

theorem built_fresh (start : Design.Node) :
    Built start (build .fresh start).1 (build .fresh start).2 := by
  refine ⟨mirrors_build .fresh start, ?_, ?_⟩
  · rw [build_fst]
    exact Nat.zero_add _
  · rw [build_fst]
    exact Nat.zero_add _

/-- A call comes to what it has to, whatever the counters were before. -/
theorem serves_ingest (b : Builder) (root : Design.Node) (id : Option String) :
    Serves root id (b.ingest root id) := by
  cases id with
  | none => exact .whole (built_fresh root)
  | some id =>
    cases hfirst : root.first? id with
    | some start =>
      rw [ingest_of_first? b hfirst]
      exact .found hfirst (built_fresh start)
    | none =>
      rw [ingest_of_first?_none b hfirst]
      refine .absent ?_
      intro node hnode hid
      exact List.find?_eq_none.1 hfirst node hnode (beq_iff_eq.2 hid)

/-! ## Sessions -/

/-- What calls leave behind and answer that are made one after the other. -/
def session (b : Builder) :
    List (Design.Node × Option String) → List (Builder × Except Failure Node)
  | [] => []
  | (root, id) :: later => b.ingest root id :: session (b.ingest root id).1 later

/-- **Every call of a session is served exactly, whatever the calls before it were.**

A call with an identifier that no node has says so and leaves both counters at zero. Every other
call comes to a tree. It has the shape of the whole document, or of the first node with the
identifier, and the counters are the number of its nodes and the number of its nodes without
geometry. Each call leaves behind and answers what it does on a builder of its own. -/
theorem session_serves (b : Builder) (calls : List (Design.Node × Option String)) :
    List.Forall₂ (fun call run => Serves call.1 call.2 run) calls (b.session calls) ∧
      b.session calls = calls.map fun call => Builder.fresh.ingest call.1 call.2 := by
  induction calls generalizing b with
  | nil => exact ⟨.nil, rfl⟩
  | cons call later ih =>
    obtain ⟨hserves, hfresh⟩ := ih (b.ingest call.1 call.2).1
    constructor
    · exact .cons (serves_ingest b call.1 call.2) hserves
    · rw [List.map_cons, ← hfresh]
      rfl

/-- A frame with bounds that holds a text without them. -/
def captionedFrame : Design.Node :=
  { (default : Design.Node) with
    id := "1:1", kind := .frame, bounds := some ⟨0.0, 0.0, 120.0, 40.0⟩
    children :=
      [{ (default : Design.Node) with id := "1:2", kind := .text, characters := some "Submit" }] }

/-- A call that fails in between leaves nothing behind for the next one. -/
example :
    (fresh.session [(captionedFrame, none), (captionedFrame, some "9:9"),
      (captionedFrame, some "1:2")]).map
      (·.1) = [⟨2, 1⟩, ⟨0, 0⟩, ⟨1, 1⟩] := by
  decide

end Builder

end DesignCompiler.Semantic
