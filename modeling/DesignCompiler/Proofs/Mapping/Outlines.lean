import DesignCompiler.Proofs.Mapping.Outcomes

/-!
# Outlines and mapped trees

The outline of a tree lists the candidates of every node by itself, with its own account of the
components around the node. A position is the way to a node from the root, as the places of the
children that it goes through; it means the same in a semantic tree, in its outcome and in its
outline. `Engine.outline_agrees` compares the outline with the mapped tree at every position. The
invariant of the induction is the context: at the position of a settled outcome the outline scores
the node in the context that the outcome is settled in (`Engine.Settles.outlineAt?_eq`).
-/

namespace DesignCompiler

/-! ## Positions -/

/-- The node at a position. -/
def Semantic.Node.at? (node : Node) : List Nat → Option Node
  | [] => some node
  | i :: position => node.children[i]?.bind fun child => child.at? position

/-- A child is smaller than its node. -/
theorem Semantic.Node.sizeOf_child_lt {node child : Node} {i : Nat}
    (h : node.children[i]? = some child) :
    sizeOf child < sizeOf node := by
  have hchild := List.sizeOf_lt_of_mem (List.mem_of_getElem? h)
  cases node
  simp only [Node.mk.sizeOf_spec] at hchild ⊢
  omega

namespace Mapping

open Semantic (Node)

/-- The outcome at a position. -/
def Outcome.at? (o : Outcome) : List Nat → Option Outcome
  | [] => some o
  | i :: position => o.children[i]?.bind fun child => child.at? position

/-- The part of an outline at a position. -/
def outlineAt? (outline : Json) : List Nat → Option Json
  | [] => some outline
  | i :: position =>
    match outline.field? "children" with
    | some (.arr children) => children[i]?.bind fun child => outlineAt? child position
    | _ => none

/-- A candidate as an outline shows it. -/
def shownCandidate (component : String) (confidence : Nat) : Json :=
  .obj [("component", .str component), ("confidence", .ofNat confidence)]

namespace Outcome

mutual

/-- Every outcome below another one is at a position of it. -/
theorem exists_at?_of_mem :
    (o : Outcome) → ∀ child ∈ o.preorder, ∃ position, o.at? position = some child
  | dropped node, child, hchild => ⟨[], congrArg some (List.mem_singleton.1 hchild).symm⟩
  | label node, child, hchild => ⟨[], congrArg some (List.mem_singleton.1 hchild).symm⟩
  | taken node c children, child, hchild => by
    rw [preorder] at hchild
    rcases List.mem_cons.1 hchild with rfl | hchild
    · exact ⟨[], rfl⟩
    · obtain ⟨i, o, position, ho, hat⟩ := exists_at?_of_mem_all children child hchild
      refine ⟨i :: position, ?_⟩
      rw [at?, Outcome.children, ho, Option.bind_some, hat]

theorem exists_at?_of_mem_all : (outcomes : List Outcome) → ∀ child ∈ preorderAll outcomes,
    ∃ (i : Nat) (o : Outcome) (position : List Nat),
      outcomes[i]? = some o ∧ o.at? position = some child
  | [], child, hchild => by cases hchild
  | o :: rest, child, hchild => by
    rw [preorderAll] at hchild
    rcases List.mem_append.1 hchild with hchild | hchild
    · obtain ⟨position, hat⟩ := exists_at?_of_mem o child hchild
      exact ⟨0, o, position, rfl, hat⟩
    · obtain ⟨i, o', position, ho', hat⟩ := exists_at?_of_mem_all rest child hchild
      exact ⟨i + 1, o', position, ho', hat⟩

end

end Outcome

/-! ## The outline at a position -/

namespace Engine

variable {engine : Engine} {context : Option String} {node : Node}

/-- The context of the children in an outline. -/
def insideBest (engine : Engine) (context : Option String) (node : Node) : Option String :=
  match engine.best? node context with
  | some c => some (contextInside context c.entry.name)
  | none => context

theorem outlines_eq (engine : Engine) (context : Option String) (nodes : List Node) :
    engine.outlines context nodes = nodes.map (engine.outline context) := by
  induction nodes with
  | nil => rfl
  | cons node rest ih => rw [outlines, ih, List.map_cons]

theorem children_outline (engine : Engine) (context : Option String) (node : Node) :
    (engine.outline context node).field? "children" =
      some (.arr (node.children.map (engine.outline (engine.insideBest context node)))) := by
  cases node
  rw [← outlines_eq, outline]
  rfl

theorem candidates_outline (engine : Engine) (context : Option String) (node : Node) :
    (engine.outline context node).field? "candidates" =
      some (.arr ((engine.candidates node context).map
        fun c => shownCandidate c.entry.name c.confidence)) := by
  cases node
  rw [outline]
  rfl

theorem id_outline (engine : Engine) (context : Option String) (node : Node) :
    (engine.outline context node).field? "id" = some (.str node.id) := by
  cases node
  rw [outline]
  rfl

theorem outlineAt?_cons (engine : Engine) (context : Option String) (node : Node) (i : Nat)
    (position : List Nat) :
    outlineAt? (engine.outline context node) (i :: position) =
      node.children[i]?.bind fun child =>
        outlineAt? (engine.outline (engine.insideBest context node) child) position := by
  rw [outlineAt?, children_outline]
  simp only [List.getElem?_map]
  cases node.children[i]? <;> rfl

/-- Only a node whose rule is not atomic has settled children. -/
theorem Settles.exists_inside {o child : Outcome} {i : Nat} (h : engine.Settles context o)
    (hchild : o.children[i]? = some child) :
    ∃ c, engine.best? o.node context = some c ∧ c.rule.atomic = false ∧
      LabelAt ((c.rule.labelChild? o.node).map (·.1)) o.children ∧
      o.node.children[i]? = some child.node ∧
      (child.isLabel = false →
        engine.Settles (some (contextInside context c.entry.name)) child) := by
  cases h with
  | dropped _ => cases hchild
  | atomic _ _ => cases hchild
  | @container _ node c children hbest hatomic hnodes hlabel hsettled =>
    have hnode : node.children[i]? = some child.node := by
      rw [← hnodes, List.getElem?_map, show children[i]? = some child from hchild,
        Option.map_some]
    exact ⟨c, hbest, hatomic, hlabel, hnode, hsettled child (List.mem_of_getElem? hchild)⟩

/-- At the position of a settled outcome the outline scores the node in the context of the
outcome. -/
theorem Settles.outlineAt?_eq {o child : Outcome} {position : List Nat}
    (h : engine.Settles context o) (hchild : o.at? position = some child) :
    o.node.at? position = some child.node ∧ ∃ context',
      outlineAt? (engine.outline context o.node) position =
        some (engine.outline context' child.node) ∧
        (child.isLabel = false → engine.Settles context' child) := by
  induction position generalizing context o with
  | nil =>
    obtain rfl := Option.some.inj hchild
    exact ⟨rfl, context, rfl, fun _ => h⟩
  | cons i position ih =>
    obtain ⟨o', ho', hat⟩ := Option.bind_eq_some_iff.1 hchild
    obtain ⟨c, hbest, -, -, hnode, hsettled⟩ := h.exists_inside ho'
    have hinside : engine.insideBest context o.node =
        some (contextInside context c.entry.name) := by
      rw [insideBest, hbest]
    rw [outlineAt?_cons, hinside, Node.at?, hnode]
    cases hkind : o'.isLabel with
    | false => exact ih (hsettled hkind) hat
    | true =>
      -- Nothing is settled below a label, so the position ends there.
      obtain ⟨n, rfl⟩ := Outcome.eq_label_of_isLabel hkind
      cases position with
      | nil =>
        obtain rfl := Option.some.inj hat
        exact ⟨rfl, _, rfl, fun hnot => by cases hnot⟩
      | cons j position => cases hat

/-- The first candidate in the outline of a settled node is the one that the node takes. -/
theorem Settles.candidates_outline {o : Outcome} (h : engine.Settles context o) :
    ∃ later, (engine.outline context o.node).field? "candidates" =
      some (.arr ((o.candidate?.map fun c =>
        shownCandidate c.entry.name c.confidence).toList ++ later)) ∧
      (o.candidate? = none → later = []) := by
  have hbest := h.best?_eq
  rw [Engine.candidates_outline]
  unfold best? at hbest
  cases hcandidates : engine.candidates o.node context with
  | nil =>
    rw [hcandidates] at hbest
    exact ⟨[], by rw [← hbest]; rfl, fun _ => rfl⟩
  | cons c rest =>
    rw [hcandidates] at hbest
    refine ⟨rest.map fun c => shownCandidate c.entry.name c.confidence, by rw [← hbest]; rfl, ?_⟩
    intro hnone
    rw [hnone] at hbest
    cases hbest

/-- **The outline and the mapping agree.** The mapped nodes and the warnings of a tree are those
of its outcome, and every part of the outcome is at a position of the tree. Where a node was
mapped the outline lists its component first, with its confidence, and where a node was dropped
the outline has no candidates. -/
theorem outline_agrees (engine : Engine) (root : Node) :
    ∃ o, engine.Settles none o ∧ o.node = root ∧
      (engine.mapTree root).root = o.mapped? engine.config ∧
      (∀ mapped, (engine.mapTree root).root = some mapped →
        (engine.mapTree root).diagnostics =
          (o.preorder.filterMap Outcome.dropped?).map droppedWarning) ∧
      (engine.mapTree root).nodes = o.preorder.filterMap (Outcome.mapped? engine.config) ∧
      (∀ child ∈ o.preorder, ∃ position, o.at? position = some child) ∧
      ∀ position child, o.at? position = some child → root.at? position = some child.node ∧
        ∃ shown, outlineAt? (engine.outline none root) position = some shown ∧
          shown.field? "id" = some (.str child.node.id) ∧
          (∀ m, child.mapped? engine.config = some m → ∃ later,
            shown.field? "candidates" =
              some (.arr (shownCandidate m.component m.confidence :: later))) ∧
          (∀ node, child = .dropped node → shown.field? "candidates" = some (.arr [])) := by
  obtain ⟨o, hsettles, rfl, hmap⟩ := engine.exists_mapTree_eq root
  rw [hmap]
  refine ⟨o, hsettles, rfl, rfl, ?_, ?_, o.exists_at?_of_mem, ?_⟩
  · intro mapped hmapped
    have hmapped : o.mapped? engine.config = some mapped := hmapped
    rw [hmapped]
    rfl
  · rw [← Outcome.preorderAll_mapped?, MappedTree.nodes]
    cases o.mapped? engine.config with
    | none => rfl
    | some mapped => simp [MappedNode.preorderAll]
  · intro position child hchild
    obtain ⟨hnode, context, hshown, hsettled⟩ := hsettles.outlineAt?_eq hchild
    refine ⟨hnode, _, hshown, id_outline engine context child.node, ?_, ?_⟩
    · intro m hm
      cases child with
      | dropped node => cases hm
      | label node => cases hm
      | taken node c children =>
        rw [Outcome.mapped?] at hm
        obtain rfl := Option.some.inj hm
        obtain ⟨later, hlater, -⟩ := (hsettled rfl).candidates_outline
        exact ⟨later, hlater⟩
    · intro node hdropped
      subst hdropped
      obtain ⟨later, hlater, hempty⟩ := (hsettled rfl).candidates_outline
      rw [hempty rfl] at hlater
      exact hlater

end Engine

end Mapping

end DesignCompiler
