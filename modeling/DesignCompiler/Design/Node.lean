/-!
# Design documents

The tree of a design document as a design tool exports it: frames, groups, texts and shapes, with
their geometry, paints and effects. Only the identifier of a node is always there; everything else
may be missing.
-/

namespace DesignCompiler.Design

/-- What a node is. -/
inductive NodeKind where
  | document
  | canvas
  | frame
  | group
  | section
  | component
  | componentSet
  | componentInstance
  | text
  | rectangle
  | ellipse
  | line
  | vector
  | star
  | polygon
  | booleanOperation
  | other
deriving DecidableEq, Repr, Inhabited

/-- An upright rectangle. -/
structure Rect where
  x : Float
  y : Float
  width : Float
  height : Float
deriving Repr, Inhabited

/-- A colour with channels from zero to one; the last one is opacity. -/
structure Color where
  red : Float
  green : Float
  blue : Float
  alpha : Float
deriving Repr, Inhabited

/-- How a paint fills its area. -/
inductive PaintKind where
  | solid
  | linearGradient
  | radialGradient
  | angularGradient
  | diamondGradient
  | image
  | other
deriving DecidableEq, Repr, Inhabited

/-- One layer of paint on a fill or a stroke. -/
structure Paint where
  kind : PaintKind
  visible : Bool
  opacity : Float
  color : Option Color
  imageRef : Option String
deriving Repr, Inhabited

/-- What an effect does. -/
inductive EffectKind where
  | dropShadow
  | innerShadow
  | layerBlur
  | backgroundBlur
  | other
deriving DecidableEq, Repr, Inhabited

/-- A displacement. -/
structure Offset where
  x : Float
  y : Float
deriving Repr, Inhabited

/-- A shadow or a blur. -/
structure Effect where
  kind : EffectKind
  visible : Bool
  color : Option Color
  offset : Option Offset
  radius : Float
  spread : Float
deriving Repr, Inhabited

/-- How lines of text are aligned. -/
inductive TextAlign where
  | left
  | center
  | right
  | justified
deriving DecidableEq, Repr, Inhabited

/-- How a text is set. -/
structure TypeStyle where
  fontFamily : Option String
  fontSize : Option Float
  fontWeight : Option Float
  textAlign : Option TextAlign
deriving Repr, Inhabited

/-- What an edge of a node is tied to. -/
inductive ConstraintKind where
  | top
  | bottom
  | left
  | right
  | center
  | topBottom
  | leftRight
  | scale
  | other
deriving DecidableEq, Repr, Inhabited

/-- The ties of a node to its parent. -/
structure Constraints where
  horizontal : ConstraintKind
  vertical : ConstraintKind
deriving DecidableEq, Repr, Inhabited

/-- The direction in which a frame lays out its children. -/
inductive LayoutMode where
  | none
  | horizontal
  | vertical
deriving DecidableEq, Repr, Inhabited

/-- Whether a frame keeps its size or follows its children. -/
inductive SizingMode where
  | fixed
  | auto
deriving DecidableEq, Repr, Inhabited

/-- A node of a design document. -/
structure Node where
  id : String
  name : String
  kind : NodeKind
  bounds : Option Rect
  fills : List Paint
  strokes : List Paint
  strokeWeight : Option Float
  cornerRadius : Option Float
  opacity : Option Float
  effects : List Effect
  characters : Option String
  style : Option TypeStyle
  visible : Option Bool
  locked : Option Bool
  layoutMode : Option LayoutMode
  sizingMode : Option SizingMode
  constraints : Option Constraints
  itemSpacing : Option Float
  paddingLeft : Option Float
  paddingRight : Option Float
  paddingTop : Option Float
  paddingBottom : Option Float
  children : List Node
deriving Repr, Inhabited

mutual

/-- The first node with the given identifier, a node before its children and these in order. -/
def Node.find? (id : String) : Node → Option Node
  | node@⟨own, _, _, _, _, _, _, _, _, _, _, _, _, _, _, _, _, _, _, _, _, _, children⟩ =>
    if own = id then some node else Node.findAmong? id children

/-- The first node with the given identifier in one of the trees. -/
def Node.findAmong? (id : String) : List Node → Option Node
  | [] => none
  | child :: rest =>
    match Node.find? id child with
    | some node => some node
    | none => Node.findAmong? id rest

end

end DesignCompiler.Design
