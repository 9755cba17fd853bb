import DesignCompiler.Json.Basic
import DesignCompiler.Mapping.Config
import DesignCompiler.Mapping.Rule

/-!
# Derived properties and styles

What a component takes over from its node: properties by the rules of its profile, and an inline
style.
-/

namespace DesignCompiler.Mapping

open Semantic (Node Axis Fill)

/-! ## Numbers -/

/-- A number rounded to the nearest whole one, a half away from zero, within the range of 64
bits. -/
def roundToInt (x : Float) : Int :=
  x.round.toInt64.toInt

/-- Whether a number is whole and less than `2 ^ 63` from zero. -/
def isWhole (x : Float) : Bool :=
  x.isFinite && x.floor == x && x.abs < 9223372036854775808.0

/-- A number as a value: whole if it is whole, else with two places. -/
def styleNumber (x : Float) : Json :=
  if isWhole x then .int x.toInt64.toInt else .ofFloat ((x * 100.0).round / 100.0)

/-! ## Properties -/

/-- Words in a name that mark an action as dangerous. -/
def dangerWords : List (List Char) :=
  ["danger".toList, "delete".toList, "remove".toList, "destructive".toList]

/-- The level of a title by its size. -/
def titleLevel (size : Float) : Nat :=
  if 38.0 ≤ size then 1
  else if 30.0 ≤ size then 2
  else if 24.0 ≤ size then 3
  else if 20.0 ≤ size then 4
  else 5

/-- The distance between two boxes along an axis. -/
def gapAlong (axis : Axis) (first second : Design.Rect) : Float :=
  match axis with
  | .row => second.x - (first.x + first.width)
  | .column => second.y - (first.y + first.height)

/-- The distance between the children of a node: the spacing that the document gives, else the gap
between the first two of them along the main axis. -/
def childGap? (node : Node) : Option Int :=
  match node.layout.itemSpacing with
  | some spacing => if 0.0 < spacing then some (roundToInt spacing) else none
  | none =>
    match node.layout.axis, node.children with
    | some axis, first :: second :: _ =>
      if first.layout.hasGeometry && second.layout.hasGeometry then
        let gap := gapAlong axis first.layout.bounds second.layout.bounds
        if 1.0 ≤ gap then some (roundToInt gap) else none
      else none
    | _, _ => none

/-- The reference of the first image fill that has one. -/
def imageSource? (node : Node) : Option String :=
  node.styling.fills.findSome? fun
    | .image reference => reference
    | _ => none

/-- The source of a node's image, if it has one. -/
def sourceProp (node : Node) : List (String × Json) :=
  match imageSource? node with
  | some source => [("src", .str source)]
  | none => []

/-- The properties that a rule derives from a node. -/
def PropRule.derive (rule : PropRule) (config : Config) (node : Node) : List (String × Json) :=
  let geometry := node.layout.hasGeometry
  match rule with
  | .sizeFromHeight =>
    if geometry then [("size", .str (config.sizeTier node.height).word)] else []
  | .dangerFromName =>
    let name := Text.lowercase node.name.toList
    if dangerWords.any fun w => Text.contains w name then [("danger", .bool true)] else []
  | .disabledFromOpacity =>
    if node.styling.opacity < config.disabledOpacity then [("disabled", .bool true)] else []
  | .titleLevel =>
    [("level", .ofNat (Mapping.titleLevel ((node.content.bind (·.fontSize)).getD 0.0)))]
  | .strongFromWeight =>
    if 600.0 ≤ (node.content.bind (·.fontWeight)).getD 400.0 then [("strong", .bool true)] else []
  | .flexDirection => if node.layout.axis == some .column then [("vertical", .bool true)] else []
  | .gapFromSpacing =>
    match childGap? node with
    | some gap => [("gap", .int gap)]
    | none => []
  | .dividerOrientation =>
    if geometry && node.width < node.height then [("type", .str "vertical")] else []
  | .avatarShape =>
    (if isCircular node then [] else [("shape", .str "square")]) ++
      (if geometry && 0.0 < node.width then [("size", .int (roundToInt node.width))] else []) ++
      sourceProp node ++ [("alt", .str node.name)]
  | .imageAttributes =>
    sourceProp node ++ [("alt", .str node.name)] ++
      if geometry then [("width", .int (roundToInt node.width)),
        ("height", .int (roundToInt node.height))] else []
  | .tagColor =>
    match node.styling.backgroundColor with
    | some color => [("color", .str color)]
    | none => []
  | .formLayout =>
    [("layout", .str (if node.layout.axis == some .row then "inline" else "vertical"))]

/-! ## Styles -/

/-- The padding of a container: one number if all edges are the same, else a text. -/
def paddingStyle (p : Semantic.Padding) : List (String × Json) :=
  if p.top == p.right && p.right == p.bottom && p.bottom == p.left then
    if 0.0 < p.top then [("padding", styleNumber p.top)] else []
  else
    [("padding", .str (Semantic.pixels p.top ++ " " ++ Semantic.pixels p.right ++ " " ++
      Semantic.pixels p.bottom ++ " " ++ Semantic.pixels p.left))]

/-- The border of a container, if it is of positive width. -/
def borderStyle (s : Semantic.Styling) : List (String × Json) :=
  match s.borderColor, s.borderWidth with
  | some color, some width =>
    if 0.0 < width then [("border", .str (Semantic.pixels width ++ " solid " ++ color))] else []
  | _, _ => []

/-- The look of a container. -/
def containerStyle (node : Node) : List (String × Json) :=
  let s := node.styling
  (match s.backgroundColor with
    | some color => [("backgroundColor", .str color)]
    | none => []) ++
  borderStyle s ++
  (match s.borderRadius with
    | some radius => if 0.0 < radius then [("borderRadius", styleNumber radius)] else []
    | none => []) ++
  (match node.layout.padding with
    | some padding => paddingStyle padding
    | none => []) ++
  (if s.shadows.isEmpty then []
    else [("boxShadow", .str (", ".intercalate (s.shadows.map (·.toCss))))]) ++
  (if s.opacity < 1.0 then [("opacity", styleNumber s.opacity)] else [])

/-- The style sheet word of an alignment. -/
def alignmentWord : Design.TextAlign → String
  | .left => "left"
  | .center => "center"
  | .right => "right"
  | .justified => "justify"

/-- The look of a text; black and left-aligned go without saying. -/
def typographyStyle (node : Node) : List (String × Json) :=
  match node.content with
  | none => []
  | some content =>
    (match content.color with
      | some color => if color = "#000000" then [] else [("color", .str color)]
      | none => []) ++
    (match content.alignment with
      | some .left | none => []
      | some alignment => [("textAlign", .str (alignmentWord alignment))])

/-- The style entries of a node under a profile. -/
def styleEntries (profile : StyleProfile) (node : Node) : List (String × Json) :=
  (match profile with
    | .none => []
    | .container => containerStyle node
    | .typography => typographyStyle node) ++
  if node.properties.visible then [] else [("display", .str "none")]

/-- The inline style of a node under a profile, if it is not empty. -/
def styleOf (profile : StyleProfile) (node : Node) : Option (KeyMap Json) :=
  match styleEntries profile node with
  | [] => none
  | entries => some (.ofList entries)

end DesignCompiler.Mapping
