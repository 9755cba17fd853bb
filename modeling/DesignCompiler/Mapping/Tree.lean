import DesignCompiler.Design.Format
import DesignCompiler.Diagnostic
import DesignCompiler.Mapping.Candidate
import DesignCompiler.Mapping.Props

/-!
# Mapped trees

Mapping a semantic tree onto components. Every node takes its best candidate. A child without a
candidate is dropped with a warning and its siblings stay; an atomic component takes the place of
everything below its node; a child whose text became the label of its parent is not mapped again.
A root without a candidate leaves no tree, and no warnings either.
-/

namespace DesignCompiler.Mapping

open Semantic (Node)

/-- A node that was mapped to a component. -/
structure MappedNode where
  nodeId : String
  nodeName : String
  component : String
  entry : Option Catalog.Entry
  confidence : Nat
  props : KeyMap Json
  style : Option (KeyMap Json)
  /-- The text between the tags. -/
  text : Option String
  children : List MappedNode
deriving Inhabited

/-- The result of mapping a tree. -/
structure MappedTree where
  root : Option MappedNode
  diagnostics : List Diagnostic
deriving Inhabited

mutual

/-- The number of nodes in the tree. -/
def MappedNode.count : MappedNode → Nat
  | ⟨_, _, _, _, _, _, _, _, children⟩ => MappedNode.countAll children + 1

/-- The number of nodes in the trees. -/
def MappedNode.countAll : List MappedNode → Nat
  | [] => 0
  | child :: rest => MappedNode.count child + MappedNode.countAll rest

end

/-- The number of mapped nodes. -/
def MappedTree.count (t : MappedTree) : Nat :=
  (t.root.map (·.count)).getD 0

/-- The place of the first child that shows a text, and the text. -/
def labelChild? (children : List Node) : Option (Nat × String) :=
  (children.zipIdx.findSome? fun (child, i) => child.content.map fun c => (i, c.text))

/-- The child that gives its text as a label, if the rule takes a label. -/
def Rule.labelChild? (rule : Rule) (node : Node) : Option (Nat × String) :=
  if rule.textRole == .label then Mapping.labelChild? node.children else none

/-- The property that takes the text of a node. -/
def Rule.textProps (rule : Rule) (node : Node) : List (String × Json) :=
  match rule.textRole with
  | .placeholder =>
    match node.firstText? with
    | some content => [("placeholder", .str content.text)]
    | none => []
  | .label =>
    match rule.labelChild? node with
    | some (_, text) => [("label", .str text)]
    | none => []
  | _ => []

/-- The text that stands between the tags. -/
def Rule.inlineText (rule : Rule) (node : Node) : Option String :=
  if rule.textRole == .children then node.firstText?.map (·.text) else none

/-- The properties of a node that its component accepts. -/
def propsOf (config : Config) (c : Candidate) (node : Node) : KeyMap Json :=
  (KeyMap.ofList ((c.rule.props.flatMap fun p => p.derive config node) ++
    c.rule.textProps node)).filterKeys
    c.entry.accepts

/-- The mapped node of a node with the given children. -/
def mappedWith (config : Config) (c : Candidate) (node : Node) (children : List MappedNode) :
    MappedNode :=
  { nodeId := node.id, nodeName := node.name, component := c.entry.name, entry := some c.entry
    confidence := c.confidence, props := propsOf config c node, style := styleOf c.rule.style node
    text := c.rule.inlineText node, children }

/-- The warning about a child that was dropped. -/
def droppedWarning (child : Node) : Diagnostic :=
  .warning .mapping
    ("Node '" ++ child.name ++ "' (" ++ child.id ++
      ") matched no catalog component and was dropped")

namespace Engine

mutual

/-- Maps the tree of a node, with the warnings about dropped nodes below it. -/
def mapNode (engine : Engine) (context : Option String) :
    Node → Option (MappedNode × List Diagnostic)
  | node@⟨_, _, _, _, _, _, _, children⟩ =>
    match engine.best? node context with
    | none => none
    | some c =>
      if c.rule.atomic then some (mappedWith engine.config c node [], [])
      else
        let (mapped, warnings) :=
          mapChildren engine (contextInside context c.entry.name)
            ((c.rule.labelChild? node).map (·.1)) children
        some (mappedWith engine.config c node mapped, warnings)

/-- Maps children one after the other, passing over the one at the place `label`. -/
def mapChildren (engine : Engine) (context : String) (label : Option Nat) :
    List Node → List MappedNode × List Diagnostic
  | [] => ([], [])
  | child :: rest =>
    if label = some 0 then mapChildren engine context none rest
    else
      let (mapped, warnings) := mapChildren engine context (label.map (· - 1)) rest
      match mapNode engine (some context) child with
      | some (first, inner) => (first :: mapped, inner ++ warnings)
      | none => (mapped, droppedWarning child :: warnings)

end

/-- Maps a whole tree. -/
def mapTree (engine : Engine) (root : Node) : MappedTree :=
  match engine.mapNode none root with
  | some (mapped, warnings) => ⟨some mapped, warnings⟩
  | none => ⟨none, []⟩

mutual

/-- The names that are looked up in the catalog while a tree is mapped. -/
def treeLookups (engine : Engine) (context : Option String) : Node → List String
  | node@⟨_, _, _, _, _, _, _, children⟩ =>
    engine.lookups node context ++
      match engine.best? node context with
      | none => []
      | some c =>
        if c.rule.atomic then []
        else childLookups engine (contextInside context c.entry.name)
          ((c.rule.labelChild? node).map (·.1)) children

/-- The names that are looked up while children are mapped. -/
def childLookups (engine : Engine) (context : String) (label : Option Nat) :
    List Node → List String
  | [] => []
  | child :: rest =>
    if label = some 0 then childLookups engine context none rest
    else treeLookups engine (some context) child ++
      childLookups engine context (label.map (· - 1)) rest

end

end Engine

/-! ## JSON form -/

mutual

/-- A mapped node as a value; its catalog entry is not written. -/
def MappedNode.toJson : MappedNode → Json
  | ⟨nodeId, nodeName, component, _, confidence, props, style, text, children⟩ =>
    .obj [("node_id", .str nodeId), ("node_name", .str nodeName), ("component", .str component),
      ("confidence", .ofNat confidence), ("props", .ofKeyMap props),
      ("style", .ofOption .ofKeyMap style), ("text", .ofOption .str text),
      ("children", .arr (MappedNode.listToJson children))]

/-- Mapped nodes as values. -/
def MappedNode.listToJson : List MappedNode → List Json
  | [] => []
  | node :: rest => MappedNode.toJson node :: MappedNode.listToJson rest

end

/-- A mapped tree as a value. -/
def MappedTree.toJson (t : MappedTree) : Json :=
  .obj [("root", .ofOption MappedNode.toJson t.root),
    ("diagnostics", .ofList Diagnostic.toJson t.diagnostics)]

/-! ## Outline of candidates -/

mutual

/-- The outline of a tree with all candidates of every node. The children of a node are scored as
if its best candidate had been chosen. -/
def Engine.outline (engine : Engine) (context : Option String) : Node → Json
  | node@⟨id, name, kind, _, _, _, _, children⟩ =>
    let candidates := engine.candidates node context
    let inside := match candidates.head? with
      | some c => some (contextInside context c.entry.name)
      | none => context
    .obj [("candidates", .ofList (fun (c : Candidate) =>
        .obj [("component", .str c.entry.name), ("confidence", .ofNat c.confidence)]) candidates),
      ("children", .arr (Engine.outlines engine inside children)),
      ("id", .str id), ("kind", .str kind.word), ("name", .str name)]

/-- The outlines of trees. -/
def Engine.outlines (engine : Engine) (context : Option String) : List Node → List Json
  | [] => []
  | node :: rest => Engine.outline engine context node :: Engine.outlines engine context rest

end

end DesignCompiler.Mapping
