import DesignCompiler.Design.Format
import DesignCompiler.Semantic.Node

/-!
# The JSON form of semantic trees
-/

namespace DesignCompiler.Semantic

/-- The word of an axis. -/
def Axis.word : Axis → String
  | .row => "row"
  | .column => "column"

/-- A padding as the list of its edges, from the top clockwise. -/
def Padding.toJson (p : Padding) : Json :=
  .ofList .ofFloat [p.top, p.right, p.bottom, p.left]

/-- A layout as a value; whether the document gave the bounds is not written. -/
def Layout.toJson (l : Layout) : Json :=
  .obj [("bounds", l.bounds.toJson),
    ("constraints", .ofOption Design.Constraints.toJson l.constraints),
    ("axis", .ofOption (fun a => .str a.word) l.axis),
    ("item_spacing", .ofOption .ofFloat l.itemSpacing),
    ("padding", .ofOption Padding.toJson l.padding)]

/-- A shadow as a value. -/
def Shadow.toJson (s : Shadow) : Json :=
  .obj [("inset", .bool s.inset), ("offset_x", .ofFloat s.offsetX),
    ("offset_y", .ofFloat s.offsetY), ("blur", .ofFloat s.blur), ("spread", .ofFloat s.spread),
    ("color", .str s.color), ("alpha", .ofFloat s.alpha)]

/-- A fill as a value. -/
def Fill.toJson : Fill → Json
  | .solid color opacity =>
    .obj [("type", .str "solid"), ("color", .str color), ("opacity", .ofFloat opacity)]
  | .gradient kind => .obj [("type", .str "gradient"), ("kind", .str kind)]
  | .image reference => .obj [("type", .str "image"), ("image_ref", .ofOption .str reference)]

/-- A styling as a value. -/
def Styling.toJson (s : Styling) : Json :=
  .obj [("background_color", .ofOption .str s.backgroundColor),
    ("border_color", .ofOption .str s.borderColor),
    ("border_width", .ofOption .ofFloat s.borderWidth),
    ("border_radius", .ofOption .ofFloat s.borderRadius), ("opacity", .ofFloat s.opacity),
    ("shadows", .ofList Shadow.toJson s.shadows), ("fills", .ofList Fill.toJson s.fills)]

/-- A content as a value. -/
def Content.toJson (c : Content) : Json :=
  .obj [("text", .str c.text), ("font_family", .ofOption .str c.fontFamily),
    ("font_size", .ofOption .ofFloat c.fontSize),
    ("font_weight", .ofOption .ofFloat c.fontWeight),
    ("alignment", .ofOption (fun a => .str a.word) c.alignment),
    ("color", .ofOption .str c.color)]

/-- Properties as a value. -/
def Properties.toJson (p : Properties) : Json :=
  .obj [("visible", .bool p.visible), ("locked", .bool p.locked),
    ("sizing", .ofOption (fun m => .str m.word) p.sizing)]

mutual

/-- A tree as a value. -/
def Node.toJson : Node → Json
  | ⟨id, name, kind, layout, styling, content, properties, children⟩ =>
    .obj [("id", .str id), ("name", .str name), ("kind", .str kind.word),
      ("layout", layout.toJson), ("styling", styling.toJson),
      ("content", .ofOption Content.toJson content), ("properties", properties.toJson),
      ("children", .arr (Node.listToJson children))]

/-- Trees as values. -/
def Node.listToJson : List Node → List Json
  | [] => []
  | node :: rest => Node.toJson node :: Node.listToJson rest

end

end DesignCompiler.Semantic
