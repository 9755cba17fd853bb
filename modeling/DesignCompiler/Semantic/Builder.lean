import DesignCompiler.Design.Export
import DesignCompiler.Semantic.Node

/-!
# From documents to semantic trees

Building a semantic tree from a design node. The tree keeps the shape, the identifiers and the
names of the document. A builder counts the nodes that it made and those among them that had no
geometry; both numbers describe its latest run only.
-/

namespace DesignCompiler.Semantic

open Design (Paint PaintKind Effect Rect NodeKind)

/-- The colour of the first visible solid paint that has one. -/
def firstSolidColor (paints : List Paint) : Option String :=
  ((paints.filter fun p => p.visible && p.kind == .solid).findSome? (·.color)).map colorHex

/-- What a paint fills an area with. -/
def fillOf (p : Paint) : Fill :=
  match p.kind with
  | .solid =>
    .solid ((p.color.map colorHex).getD "#000000")
      (clamp 0.0 1.0 p.opacity * (p.color.map fun c => clamp 0.0 1.0 c.alpha).getD 1.0)
  | .image => .image p.imageRef
  | .linearGradient => .gradient "linear"
  | .radialGradient => .gradient "radial"
  | .angularGradient => .gradient "angular"
  | .diamondGradient => .gradient "diamond"
  | .other => .gradient "unknown"

/-- The colour of a shadow that names none. -/
def defaultShadowColor : Design.Color :=
  ⟨0.0, 0.0, 0.0, 0.25⟩

/-- The shadow that an effect casts outwards or inwards. -/
def shadowWith (inset : Bool) (e : Effect) : Shadow :=
  let color := e.color.getD defaultShadowColor
  let offset := e.offset.getD ⟨0.0, 0.0⟩
  { inset, offsetX := offset.x, offsetY := offset.y, blur := nonNegative e.radius,
    spread := e.spread
    color := colorHex color, alpha := clamp 0.0 1.0 color.alpha }

/-- The shadow that an effect casts, if it casts one. -/
def shadowOf? (e : Effect) : Option Shadow :=
  match e.kind with
  | .dropShadow => some (shadowWith false e)
  | .innerShadow => some (shadowWith true e)
  | _ => none

/-- How a design node looks. The fills of a text colour its letters, so they are no background. -/
def stylingOf (raw : Design.Node) : Styling :=
  let isText := raw.kind == .text
  let borderColor := firstSolidColor raw.strokes
  { backgroundColor := if isText then none else firstSolidColor raw.fills
    borderColor
    borderWidth := borderColor.map fun _ => nonNegative (raw.strokeWeight.getD 1.0)
    borderRadius := raw.cornerRadius.map nonNegative
    opacity := (raw.opacity.map (clamp 0.0 1.0)).getD 1.0
    shadows := (raw.effects.filter (·.visible)).filterMap shadowOf?
    fills := if isText then [] else (raw.fills.filter (·.visible)).map fillOf }

/-- The text that a design node shows: the non-empty characters of a text node. -/
def contentOf? (raw : Design.Node) : Option Content :=
  match raw.kind, raw.characters with
  | .text, some text =>
    if text.isEmpty then none
    else some {
      text
      fontFamily := raw.style.bind (·.fontFamily)
      fontSize := raw.style.bind (·.fontSize)
      fontWeight := raw.style.bind (·.fontWeight)
      alignment := raw.style.bind (·.textAlign)
      color := firstSolidColor raw.fills }
  | _, _ => none

/-- The main axis of a container. An explicit layout direction decides; else, of the first two
children, it is a row if they are further apart sideways than downwards. -/
def axisOf (raw : Design.Node) : Option Axis :=
  match raw.layoutMode with
  | some .horizontal => some .row
  | some .vertical => some .column
  | _ =>
    match raw.children with
    | first :: second :: _ =>
      match first.bounds, second.bounds with
      | some a, some b => if (b.y - a.y).abs < (b.x - a.x).abs then some .row else some .column
      | _, _ => none
    | _ => none

/-- A rectangle with finite corners and a size that is not negative. -/
def cleanRect (r : Rect) : Rect :=
  { x := if r.x.isFinite then r.x else 0.0, y := if r.y.isFinite then r.y else 0.0
    width := nonNegative r.width, height := nonNegative r.height }

/-- The padding of a design node; an edge that is not named has none. -/
def paddingOf (raw : Design.Node) : Option Padding :=
  let edge := fun (x : Option Float) => nonNegative (x.getD 0.0)
  if raw.paddingTop.isSome || raw.paddingRight.isSome || raw.paddingBottom.isSome ||
    raw.paddingLeft.isSome then
    some ⟨edge raw.paddingTop, edge raw.paddingRight, edge raw.paddingBottom,
      edge raw.paddingLeft⟩
  else none

/-- Where a design node is and how its children are placed. -/
def layoutOf (raw : Design.Node) : Layout :=
  { bounds := (raw.bounds.map cleanRect).getD ⟨0.0, 0.0, 0.0, 0.0⟩
    hasGeometry := raw.bounds.isSome
    constraints := raw.constraints
    axis := axisOf raw
    itemSpacing := raw.itemSpacing.map nonNegative
    padding := paddingOf raw }

/-- The semantic node of a design node with the given children. -/
def nodeWith (raw : Design.Node) (children : List Node) : Node :=
  { id := raw.id, name := raw.name, kind := raw.kind, layout := layoutOf raw,
    styling := stylingOf raw
    content := contentOf? raw
    properties := ⟨raw.visible.getD true, raw.locked.getD false, raw.sizingMode⟩
    children }

/-- What a builder has counted in its latest run. -/
structure Builder where
  nodesBuilt : Nat
  missingGeometry : Nat
deriving DecidableEq, Repr, Inhabited

namespace Builder

/-- A builder that has not run. -/
def fresh : Builder :=
  ⟨0, 0⟩

/-- Counts one more node. -/
def countNode (b : Builder) (raw : Design.Node) : Builder :=
  ⟨b.nodesBuilt + 1, if raw.bounds.isSome then b.missingGeometry else b.missingGeometry + 1⟩

mutual

/-- Builds the tree of a design node and counts its nodes. -/
def build (b : Builder) : Design.Node → Builder × Node
  | raw@⟨_, _, _, _, _, _, _, _, _, _, _, _, _, _, _, _, _, _, _, _, _, _, children⟩ =>
    let (b, built) := buildAll (b.countNode raw) children
    (b, nodeWith raw built)

/-- Builds the trees of design nodes one after the other. -/
def buildAll (b : Builder) : List Design.Node → Builder × List Node
  | [] => (b, [])
  | raw :: rest =>
    let (b, node) := build b raw
    let (b, nodes) := buildAll b rest
    (b, node :: nodes)

end

/-- Builds the tree of a document, or of its first node with the given identifier. The counts of
earlier runs are forgotten, also when there is no such node. -/
def ingest (_ : Builder) (root : Design.Node) (id : Option String) :
    Builder × Except Failure Node :=
  match Design.selectNode root id with
  | .error failure => (fresh, .error failure)
  | .ok start =>
    let (b, node) := build fresh start
    (b, .ok node)

/-- The tree that a run built, with the counts of the run. -/
def counted (run : Builder × Except Failure Node) : Except Failure (Builder × Node) :=
  run.2.map fun node => (run.1, node)

/-- Builds the tree of an export, or of the node in it with the given identifier. -/
def ingestExport (b : Builder) (text : String) (id : Option String) :
    Except Failure (Builder × Node) :=
  (Design.readExport text id).bind fun document => counted (b.ingest document id)

end Builder

end DesignCompiler.Semantic
