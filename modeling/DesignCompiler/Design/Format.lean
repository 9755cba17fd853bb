import DesignCompiler.Design.Node
import DesignCompiler.Json.Decoder

/-!
# The JSON form of design nodes

Reading and writing nodes as JSON. Kinds of nodes, paints, effects and constraints that are not
known read as `other`; unknown words elsewhere, and null where a value cannot be absent, make the
whole node unreadable. Writing lists every field, in the order in which the array form of a record
expects them.
-/

namespace DesignCompiler.Design

/-! ## Words -/

/-- The word of a node kind. -/
def NodeKind.word : NodeKind → String
  | .document => "DOCUMENT"
  | .canvas => "CANVAS"
  | .frame => "FRAME"
  | .group => "GROUP"
  | .section => "SECTION"
  | .component => "COMPONENT"
  | .componentSet => "COMPONENT_SET"
  | .componentInstance => "INSTANCE"
  | .text => "TEXT"
  | .rectangle => "RECTANGLE"
  | .ellipse => "ELLIPSE"
  | .line => "LINE"
  | .vector => "VECTOR"
  | .star => "STAR"
  | .polygon => "POLYGON"
  | .booleanOperation => "BOOLEAN_OPERATION"
  | .other => "OTHER"

/-- The node kind of a word. -/
def NodeKind.ofWord : String → NodeKind
  | "DOCUMENT" => .document
  | "CANVAS" => .canvas
  | "FRAME" => .frame
  | "GROUP" => .group
  | "SECTION" => .section
  | "COMPONENT" => .component
  | "COMPONENT_SET" => .componentSet
  | "INSTANCE" => .componentInstance
  | "TEXT" => .text
  | "RECTANGLE" => .rectangle
  | "ELLIPSE" => .ellipse
  | "LINE" => .line
  | "VECTOR" => .vector
  | "STAR" => .star
  | "POLYGON" => .polygon
  | "BOOLEAN_OPERATION" => .booleanOperation
  | _ => .other

/-- The word of a paint kind. -/
def PaintKind.word : PaintKind → String
  | .solid => "SOLID"
  | .linearGradient => "GRADIENT_LINEAR"
  | .radialGradient => "GRADIENT_RADIAL"
  | .angularGradient => "GRADIENT_ANGULAR"
  | .diamondGradient => "GRADIENT_DIAMOND"
  | .image => "IMAGE"
  | .other => "OTHER"

/-- The paint kind of a word. -/
def PaintKind.ofWord : String → PaintKind
  | "SOLID" => .solid
  | "GRADIENT_LINEAR" => .linearGradient
  | "GRADIENT_RADIAL" => .radialGradient
  | "GRADIENT_ANGULAR" => .angularGradient
  | "GRADIENT_DIAMOND" => .diamondGradient
  | "IMAGE" => .image
  | _ => .other

/-- The word of an effect kind. -/
def EffectKind.word : EffectKind → String
  | .dropShadow => "DROP_SHADOW"
  | .innerShadow => "INNER_SHADOW"
  | .layerBlur => "LAYER_BLUR"
  | .backgroundBlur => "BACKGROUND_BLUR"
  | .other => "OTHER"

/-- The effect kind of a word. -/
def EffectKind.ofWord : String → EffectKind
  | "DROP_SHADOW" => .dropShadow
  | "INNER_SHADOW" => .innerShadow
  | "LAYER_BLUR" => .layerBlur
  | "BACKGROUND_BLUR" => .backgroundBlur
  | _ => .other

/-- The word of a constraint kind. -/
def ConstraintKind.word : ConstraintKind → String
  | .top => "TOP"
  | .bottom => "BOTTOM"
  | .left => "LEFT"
  | .right => "RIGHT"
  | .center => "CENTER"
  | .topBottom => "TOP_BOTTOM"
  | .leftRight => "LEFT_RIGHT"
  | .scale => "SCALE"
  | .other => "OTHER"

/-- The constraint kind of a word. -/
def ConstraintKind.ofWord : String → ConstraintKind
  | "TOP" => .top
  | "BOTTOM" => .bottom
  | "LEFT" => .left
  | "RIGHT" => .right
  | "CENTER" => .center
  | "TOP_BOTTOM" => .topBottom
  | "LEFT_RIGHT" => .leftRight
  | "SCALE" => .scale
  | _ => .other

/-- The word of an alignment. -/
def TextAlign.word : TextAlign → String
  | .left => "LEFT"
  | .center => "CENTER"
  | .right => "RIGHT"
  | .justified => "JUSTIFIED"

/-- The alignment of a word. -/
def TextAlign.ofWord? : String → Option TextAlign
  | "LEFT" => some .left
  | "CENTER" => some .center
  | "RIGHT" => some .right
  | "JUSTIFIED" => some .justified
  | _ => none

/-- The word of a layout mode. -/
def LayoutMode.word : LayoutMode → String
  | .none => "NONE"
  | .horizontal => "HORIZONTAL"
  | .vertical => "VERTICAL"

/-- The layout mode of a word. -/
def LayoutMode.ofWord? : String → Option LayoutMode
  | "NONE" => some .none
  | "HORIZONTAL" => some .horizontal
  | "VERTICAL" => some .vertical
  | _ => Option.none

/-- The word of a sizing mode. -/
def SizingMode.word : SizingMode → String
  | .fixed => "FIXED"
  | .auto => "AUTO"

/-- The sizing mode of a word. -/
def SizingMode.ofWord? : String → Option SizingMode
  | "FIXED" => some .fixed
  | "AUTO" => some .auto
  | _ => none

/-! ## Reading -/

/-- A rectangle; all four numbers must be there. -/
def Rect.ofJson? (v : Json) : Option Rect := do
  let r ← Record.ofJson? ["x", "y", "width", "height"] v
  return {
    x := ← r.required "x" Json.float?
    y := ← r.required "y" Json.float?
    width := ← r.required "width" Json.float?
    height := ← r.required "height" Json.float? }

/-- A colour; it is opaque unless it says otherwise. -/
def Color.ofJson? (v : Json) : Option Color := do
  let r ← Record.ofJson? ["r", "g", "b", "a"] v
  return {
    red := ← r.required "r" Json.float?
    green := ← r.required "g" Json.float?
    blue := ← r.required "b" Json.float?
    alpha := ← r.withDefault "a" 1.0 Json.float? }

/-- A paint; it is visible and opaque unless it says otherwise. -/
def Paint.ofJson? (v : Json) : Option Paint := do
  let r ← Record.ofJson? ["type", "visible", "opacity", "color", "imageRef"] v
  return {
    kind := ← r.required "type" fun v => v.word?.map PaintKind.ofWord
    visible := ← r.withDefault "visible" true Json.bool?
    opacity := ← r.withDefault "opacity" 1.0 Json.float?
    color := ← r.nullable "color" Color.ofJson?
    imageRef := ← r.nullable "imageRef" Json.string? }

/-- A displacement. -/
def Offset.ofJson? (v : Json) : Option Offset := do
  let r ← Record.ofJson? ["x", "y"] v
  return {
    x := ← r.required "x" Json.float?
    y := ← r.required "y" Json.float? }

/-- An effect; it is visible unless it says otherwise. -/
def Effect.ofJson? (v : Json) : Option Effect := do
  let r ← Record.ofJson? ["type", "visible", "color", "offset", "radius", "spread"] v
  return {
    kind := ← r.required "type" fun v => v.word?.map EffectKind.ofWord
    visible := ← r.withDefault "visible" true Json.bool?
    color := ← r.nullable "color" Color.ofJson?
    offset := ← r.nullable "offset" Offset.ofJson?
    radius := ← r.withDefault "radius" 0.0 Json.float?
    spread := ← r.withDefault "spread" 0.0 Json.float? }

/-- A type style. -/
def TypeStyle.ofJson? (v : Json) : Option TypeStyle := do
  let r ← Record.ofJson? ["fontFamily", "fontSize", "fontWeight", "textAlignHorizontal"] v
  return {
    fontFamily := ← r.nullable "fontFamily" Json.string?
    fontSize := ← r.nullable "fontSize" Json.float?
    fontWeight := ← r.nullable "fontWeight" Json.float?
    textAlign := ← r.nullable "textAlignHorizontal" fun v => v.word?.bind TextAlign.ofWord? }

/-- A pair of constraints. -/
def Constraints.ofJson? (v : Json) : Option Constraints := do
  let r ← Record.ofJson? ["horizontal", "vertical"] v
  return {
    horizontal := ← r.required "horizontal" fun v => v.word?.map ConstraintKind.ofWord
    vertical := ← r.required "vertical" fun v => v.word?.map ConstraintKind.ofWord }

/-- The names of a node's fields in their declared order. -/
def Node.fieldNames : List String :=
  ["id", "name", "type", "absoluteBoundingBox", "fills", "strokes", "strokeWeight",
    "cornerRadius", "opacity", "effects", "characters", "style", "visible", "locked",
    "layoutMode", "primaryAxisSizingMode", "constraints", "itemSpacing", "paddingLeft",
    "paddingRight", "paddingTop", "paddingBottom", "children"]

/-- A node in a value that is nested at most so deeply. -/
def Node.ofJsonWithin? : Nat → Json → Option Node
  | 0, _ => none
  | depth + 1, v => do
    let r ← Record.ofJson? Node.fieldNames v
    return {
      id := ← r.required "id" Json.string?
      name := ← r.withDefault "name" "" Json.string?
      kind := ← r.withDefault "type" .other fun v => v.word?.map NodeKind.ofWord
      bounds := ← r.nullable "absoluteBoundingBox" Rect.ofJson?
      fills := ← r.withDefault "fills" [] (Json.list? Paint.ofJson?)
      strokes := ← r.withDefault "strokes" [] (Json.list? Paint.ofJson?)
      strokeWeight := ← r.nullable "strokeWeight" Json.float?
      cornerRadius := ← r.nullable "cornerRadius" Json.float?
      opacity := ← r.nullable "opacity" Json.float?
      effects := ← r.withDefault "effects" [] (Json.list? Effect.ofJson?)
      characters := ← r.nullable "characters" Json.string?
      style := ← r.nullable "style" TypeStyle.ofJson?
      visible := ← r.nullable "visible" Json.bool?
      locked := ← r.nullable "locked" Json.bool?
      layoutMode := ← r.nullable "layoutMode" fun v => v.word?.bind LayoutMode.ofWord?
      sizingMode := ← r.nullable "primaryAxisSizingMode" fun v => v.word?.bind SizingMode.ofWord?
      constraints := ← r.nullable "constraints" Constraints.ofJson?
      itemSpacing := ← r.nullable "itemSpacing" Json.float?
      paddingLeft := ← r.nullable "paddingLeft" Json.float?
      paddingRight := ← r.nullable "paddingRight" Json.float?
      paddingTop := ← r.nullable "paddingTop" Json.float?
      paddingBottom := ← r.nullable "paddingBottom" Json.float?
      children := ← r.withDefault "children" [] (Json.list? (Node.ofJsonWithin? depth)) }

/-- The node in a value. -/
def Node.ofJson? (v : Json) : Option Node :=
  Node.ofJsonWithin? v.depth v

/-! ## Writing -/

/-- A rectangle as a value. -/
def Rect.toJson (r : Rect) : Json :=
  .obj [("x", .ofFloat r.x), ("y", .ofFloat r.y), ("width", .ofFloat r.width),
    ("height", .ofFloat r.height)]

/-- A colour as a value. -/
def Color.toJson (c : Color) : Json :=
  .obj [("r", .ofFloat c.red), ("g", .ofFloat c.green), ("b", .ofFloat c.blue),
    ("a", .ofFloat c.alpha)]

/-- A paint as a value. -/
def Paint.toJson (p : Paint) : Json :=
  .obj [("type", .str p.kind.word), ("visible", .bool p.visible), ("opacity", .ofFloat p.opacity),
    ("color", .ofOption Color.toJson p.color), ("imageRef", .ofOption .str p.imageRef)]

/-- A displacement as a value. -/
def Offset.toJson (o : Offset) : Json :=
  .obj [("x", .ofFloat o.x), ("y", .ofFloat o.y)]

/-- An effect as a value. -/
def Effect.toJson (e : Effect) : Json :=
  .obj [("type", .str e.kind.word), ("visible", .bool e.visible),
    ("color", .ofOption Color.toJson e.color), ("offset", .ofOption Offset.toJson e.offset),
    ("radius", .ofFloat e.radius), ("spread", .ofFloat e.spread)]

/-- A type style as a value. -/
def TypeStyle.toJson (s : TypeStyle) : Json :=
  .obj [("fontFamily", .ofOption .str s.fontFamily), ("fontSize", .ofOption .ofFloat s.fontSize),
    ("fontWeight", .ofOption .ofFloat s.fontWeight),
    ("textAlignHorizontal", .ofOption (fun a => .str a.word) s.textAlign)]

/-- A pair of constraints as a value. -/
def Constraints.toJson (c : Constraints) : Json :=
  .obj [("horizontal", .str c.horizontal.word), ("vertical", .str c.vertical.word)]

mutual

/-- A node as a value. -/
def Node.toJson : Node → Json
  | ⟨id, name, kind, bounds, fills, strokes, strokeWeight, cornerRadius, opacity, effects,
      characters, style, visible, locked, layoutMode, sizingMode, constraints, itemSpacing,
      paddingLeft, paddingRight, paddingTop, paddingBottom, children⟩ =>
    .obj [("id", .str id), ("name", .str name), ("type", .str kind.word),
      ("absoluteBoundingBox", .ofOption Rect.toJson bounds),
      ("fills", .ofList Paint.toJson fills), ("strokes", .ofList Paint.toJson strokes),
      ("strokeWeight", .ofOption .ofFloat strokeWeight),
      ("cornerRadius", .ofOption .ofFloat cornerRadius), ("opacity", .ofOption .ofFloat opacity),
      ("effects", .ofList Effect.toJson effects), ("characters", .ofOption .str characters),
      ("style", .ofOption TypeStyle.toJson style), ("visible", .ofOption .bool visible),
      ("locked", .ofOption .bool locked),
      ("layoutMode", .ofOption (fun m => .str m.word) layoutMode),
      ("primaryAxisSizingMode", .ofOption (fun m => .str m.word) sizingMode),
      ("constraints", .ofOption Constraints.toJson constraints),
      ("itemSpacing", .ofOption .ofFloat itemSpacing),
      ("paddingLeft", .ofOption .ofFloat paddingLeft),
      ("paddingRight", .ofOption .ofFloat paddingRight),
      ("paddingTop", .ofOption .ofFloat paddingTop),
      ("paddingBottom", .ofOption .ofFloat paddingBottom),
      ("children", .arr (Node.listToJson children))]

/-- Nodes as values. -/
def Node.listToJson : List Node → List Json
  | [] => []
  | node :: rest => Node.toJson node :: Node.listToJson rest

end

/-! ## Words read back -/

@[simp] theorem NodeKind.ofWord_word (k : NodeKind) : NodeKind.ofWord k.word = k := by
  cases k <;> rfl

@[simp] theorem PaintKind.ofWord_word (k : PaintKind) : PaintKind.ofWord k.word = k := by
  cases k <;> rfl

@[simp] theorem EffectKind.ofWord_word (k : EffectKind) : EffectKind.ofWord k.word = k := by
  cases k <;> rfl

@[simp] theorem ConstraintKind.ofWord_word (k : ConstraintKind) :
    ConstraintKind.ofWord k.word = k := by
  cases k <;> rfl

@[simp] theorem TextAlign.ofWord?_word (a : TextAlign) : TextAlign.ofWord? a.word = some a := by
  cases a <;> rfl

@[simp] theorem LayoutMode.ofWord?_word (m : LayoutMode) :
    LayoutMode.ofWord? m.word = some m := by
  cases m <;> rfl

@[simp] theorem SizingMode.ofWord?_word (m : SizingMode) :
    SizingMode.ofWord? m.word = some m := by
  cases m <;> rfl

end DesignCompiler.Design
