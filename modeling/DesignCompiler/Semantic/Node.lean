import DesignCompiler.Semantic.Color

/-!
# Semantic trees

The tree that components are chosen for. It has the shape of the design document; every node has a
box, its main axis, cleaned styling, and the text that it shows.
-/

namespace DesignCompiler.Semantic

/-- The direction in which the children of a node follow each other. -/
inductive Axis where
  | row
  | column
deriving DecidableEq, Repr, Inhabited

/-- Distances between the edges of a node and its children. -/
structure Padding where
  top : Float
  right : Float
  bottom : Float
  left : Float
deriving Repr, Inhabited

/-- Where a node is and how its children are placed. -/
structure Layout where
  bounds : Design.Rect
  /-- Whether the document gave the bounds; they are zero otherwise. -/
  hasGeometry : Bool
  constraints : Option Design.Constraints
  axis : Option Axis
  itemSpacing : Option Float
  padding : Option Padding
deriving Repr, Inhabited

/-- What fills the area of a node. -/
inductive Fill where
  | solid (color : String) (opacity : Float)
  | gradient (kind : String)
  | image (reference : Option String)
deriving Repr, Inhabited

/-- How a node looks. -/
structure Styling where
  backgroundColor : Option String
  borderColor : Option String
  borderWidth : Option Float
  borderRadius : Option Float
  opacity : Float
  shadows : List Shadow
  fills : List Fill
deriving Repr, Inhabited

/-- The text of a node and how it is set. -/
structure Content where
  text : String
  fontFamily : Option String
  fontSize : Option Float
  fontWeight : Option Float
  alignment : Option Design.TextAlign
  color : Option String
deriving Repr, Inhabited

/-- What else a document says about a node. -/
structure Properties where
  visible : Bool
  locked : Bool
  sizing : Option Design.SizingMode
deriving DecidableEq, Repr, Inhabited

/-- A node of a semantic tree. -/
structure Node where
  id : String
  name : String
  kind : Design.NodeKind
  layout : Layout
  styling : Styling
  content : Option Content
  properties : Properties
  children : List Node
deriving Repr, Inhabited

/-- Whether one of the fills is an image. -/
def Styling.hasImageFill (s : Styling) : Bool :=
  s.fills.any fun
    | .image _ => true
    | _ => false

/-- Whether there is a border of positive width. -/
def Styling.hasBorder (s : Styling) : Bool :=
  s.borderColor.isSome && 0.0 < s.borderWidth.getD 0.0

namespace Node

/-- The height of a node's box. -/
def height (node : Node) : Float :=
  node.layout.bounds.height

/-- The width of a node's box. -/
def width (node : Node) : Float :=
  node.layout.bounds.width

mutual

/-- The first text in the tree, that of a node before those of its children. -/
def firstText? : Node → Option Content
  | ⟨_, _, _, _, _, some content, _, _⟩ => some content
  | ⟨_, _, _, _, _, none, _, children⟩ => firstTextAmong? children

/-- The first text in one of the trees. -/
def firstTextAmong? : List Node → Option Content
  | [] => none
  | child :: rest =>
    match firstText? child with
    | some content => some content
    | none => firstTextAmong? rest

end

mutual

/-- The number of nodes in the tree. -/
def count : Node → Nat
  | ⟨_, _, _, _, _, _, _, children⟩ => countAll children + 1

/-- The number of nodes in the trees. -/
def countAll : List Node → Nat
  | [] => 0
  | child :: rest => count child + countAll rest

end

mutual

/-- The nodes of the tree, a node before its children. -/
def preorder : Node → List Node
  | node@⟨_, _, _, _, _, _, _, children⟩ => node :: preorderAll children

/-- The nodes of the trees in order. -/
def preorderAll : List Node → List Node
  | [] => []
  | child :: rest => preorder child ++ preorderAll rest

end

end Node

end DesignCompiler.Semantic
