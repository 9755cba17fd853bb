import DesignCompiler.Semantic.Node
import DesignCompiler.Text.Split

/-!
# Predicates on nodes

Conditions that a rule can put on a node. Conditions on the size of a node hold only where the
document gave its geometry. The context of a node names the components around it, outermost first,
with slashes between them.
-/

namespace DesignCompiler.Mapping

open Semantic (Node)

/-- A condition on a node. -/
inductive Predicate where
  /-- The node itself shows a text. -/
  | hasText
  /-- The node or one below it shows a text. -/
  | containsText
  | hasChildren
  | childCountAtLeast (count : Nat)
  | hasLayoutAxis
  | heightAtMost (limit : Float)
  | heightAtLeast (limit : Float)
  | widthAtLeast (limit : Float)
  /-- One side is at most two pixels long and the other one is not empty. -/
  | thinLine
  | roughlySquare
  /-- An ellipse, or a box that is rounded by at least half of its shorter side. -/
  | circular
  | hasBackground
  | hasBorder
  | hasCornerRadius
  | hasShadow
  | hasImageFill
  | fontSizeAtLeast (limit : Float)
  /-- The component is among those that the context names. -/
  | insideComponent (name : String)
deriving Repr

/-- The lesser of two numbers, or the one that is a number. -/
def lesser (a b : Float) : Float :=
  if a.isNaN || b < a then b else a

/-- The greater of two numbers, or the one that is a number. -/
def greater (a b : Float) : Float :=
  if a.isNaN || a < b then b else a

/-- Whether the node is an ellipse or rounded by at least half of its shorter side. -/
def isCircular (node : Node) : Bool :=
  let shorter := lesser node.width node.height
  node.kind == .ellipse ||
    (node.layout.hasGeometry && 0.0 < shorter &&
      shorter / 2.0 ≤ node.styling.borderRadius.getD 0.0)

/-- Whether the context names a component. -/
def contextNames (context : Option String) (name : String) : Bool :=
  match context with
  | some path => (Text.splitAt '/' path.toList).contains name.toList
  | none => false

/-- Whether the condition holds of a node in a context. -/
def Predicate.holds (p : Predicate) (node : Node) (context : Option String) : Bool :=
  let geometry := node.layout.hasGeometry
  match p with
  | .hasText => node.content.isSome
  | .containsText => node.firstText?.isSome
  | .hasChildren => !node.children.isEmpty
  | .childCountAtLeast count => decide (count ≤ node.children.length)
  | .hasLayoutAxis => node.layout.axis.isSome
  | .heightAtMost limit => geometry && node.height ≤ limit
  | .heightAtLeast limit => geometry && limit ≤ node.height
  | .widthAtLeast limit => geometry && limit ≤ node.width
  | .thinLine =>
    geometry && lesser node.width node.height ≤ 2.0 && 0.0 < greater node.width node.height
  | .roughlySquare => geometry && 0.0 < node.height && (node.width / node.height - 1.0).abs ≤ 0.1
  | .circular => isCircular node
  | .hasBackground => node.styling.backgroundColor.isSome
  | .hasBorder => node.styling.hasBorder
  | .hasCornerRadius => 0.0 < node.styling.borderRadius.getD 0.0
  | .hasShadow => !node.styling.shadows.isEmpty
  | .hasImageFill => node.styling.hasImageFill
  | .fontSizeAtLeast limit =>
    match node.content.bind (·.fontSize) with
    | some size => limit ≤ size
    | none => false
  | .insideComponent name => contextNames context name

end DesignCompiler.Mapping
