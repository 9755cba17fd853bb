import DesignCompiler.Mapping.Predicate
import DesignCompiler.Text.Lowercase

/-!
# Mapping rules

A rule says how well a node fits a component, and what becomes of the node's text, children, style
and properties if the component is chosen. Rules are tried in the order of their list, and an
earlier rule wins a tie.
-/

namespace DesignCompiler.Mapping

open Design (NodeKind)

/-- Where the text of a node ends up. -/
inductive TextRole where
  | none
  /-- Between the tags. -/
  | children
  /-- In the property `placeholder`. -/
  | placeholder
  /-- In the property `label`; it is that of the first child that shows one. -/
  | label
deriving DecidableEq, Repr

/-- Which part of a node's look is carried over. -/
inductive StyleProfile where
  /-- Only whether it is shown. -/
  | none
  /-- Background, border, rounding, padding, opacity and shadows. -/
  | container
  /-- Colour and alignment of the text. -/
  | typography
deriving DecidableEq, Repr

/-- Properties that are derived from a node. -/
inductive PropRule where
  | sizeFromHeight
  | dangerFromName
  | disabledFromOpacity
  | titleLevel
  | strongFromWeight
  | flexDirection
  | gapFromSpacing
  | dividerOrientation
  | avatarShape
  | imageAttributes
  | tagColor
  | formLayout
deriving DecidableEq, Repr

/-- A condition and what it adds to a score. -/
structure Weighted where
  predicate : Predicate
  weight : Nat
deriving Repr

/-- A rule for one component. -/
structure Rule where
  target : String
  kinds : List NodeKind
  /-- Lower-case texts, one of which a fitting name contains in lower case. -/
  namePatterns : List (List Char)
  conditions : List Weighted := []
  textRole : TextRole := .none
  /-- The component takes the place of everything below its node. -/
  atomic : Bool := true
  style : StyleProfile := .none
  props : List PropRule := []
deriving Repr

/-- Names as they are looked for in the names of nodes. -/
def patterns (names : List String) : List (List Char) :=
  names.map fun n => Text.lowercase n.toList

/-- Whether the name of a node fits the rule. -/
def Rule.matchesName (r : Rule) (name : String) : Bool :=
  let name := Text.lowercase name.toList
  r.namePatterns.any fun pattern => Text.contains pattern name

/-- Kinds of nodes that can be controls. -/
def boxKinds : List NodeKind :=
  [.frame, .component, .componentInstance, .rectangle, .group]

/-- Kinds of nodes that hold other nodes. -/
def containerKinds : List NodeKind :=
  [.frame, .group, .section, .component, .componentSet, .componentInstance]

/-- The rules for the components of Ant Design. -/
def libraryRules : List Rule := [
  { target := "Button", kinds := boxKinds, namePatterns := patterns ["button", "btn"]
    conditions := [⟨.containsText, 20⟩, ⟨.heightAtMost 56.0, 10⟩, ⟨.hasCornerRadius, 5⟩]
    textRole := .children, props := [.sizeFromHeight, .dangerFromName, .disabledFromOpacity] },
  { target := "Input.TextArea", kinds := boxKinds,
    namePatterns := patterns ["textarea", "text area", "multiline"]
    conditions := [⟨.hasBorder, 15⟩, ⟨.heightAtLeast 64.0, 15⟩]
    textRole := .placeholder, props := [.disabledFromOpacity] },
  { target := "Input", kinds := boxKinds,
    namePatterns := patterns ["input", "text field", "textfield", "search"]
    conditions := [⟨.hasBorder, 15⟩, ⟨.heightAtMost 56.0, 10⟩]
    textRole := .placeholder, props := [.sizeFromHeight, .disabledFromOpacity] },
  { target := "Select", kinds := boxKinds,
    namePatterns := patterns ["select", "dropdown", "picker", "combobox"]
    conditions := [⟨.hasBorder, 15⟩, ⟨.heightAtMost 56.0, 10⟩]
    textRole := .placeholder, props := [.sizeFromHeight, .disabledFromOpacity] },
  { target := "Checkbox", kinds := boxKinds, namePatterns := patterns ["checkbox", "check box"]
    conditions := [⟨.containsText, 10⟩, ⟨.heightAtMost 32.0, 10⟩]
    textRole := .children, props := [.disabledFromOpacity] },
  { target := "Switch", kinds := boxKinds, namePatterns := patterns ["switch", "toggle"]
    conditions := [⟨.hasCornerRadius, 10⟩, ⟨.heightAtMost 32.0, 10⟩]
    props := [.disabledFromOpacity] },
  { target := "Form.Item", kinds := containerKinds
    namePatterns := patterns ["form item", "form-item", "formitem", "form field"]
    conditions := [⟨.insideComponent "Form", 30⟩, ⟨.hasChildren, 15⟩, ⟨.containsText, 10⟩]
    textRole := .label, atomic := false },
  { target := "Form", kinds := containerKinds, namePatterns := patterns ["form"]
    conditions := [⟨.childCountAtLeast 2, 15⟩, ⟨.hasLayoutAxis, 5⟩]
    atomic := false, style := .container, props := [.formLayout] },
  { target := "Card", kinds := containerKinds, namePatterns := patterns ["card", "panel", "tile"]
    conditions :=
      [⟨.hasShadow, 15⟩, ⟨.hasCornerRadius, 10⟩, ⟨.hasChildren, 10⟩, ⟨.hasBackground, 5⟩]
    atomic := false, style := .container },
  { target := "Tag", kinds := boxKinds, namePatterns := patterns ["tag", "chip", "pill", "badge"]
    conditions := [⟨.heightAtMost 28.0, 15⟩, ⟨.containsText, 10⟩]
    textRole := .children, props := [.tagColor] },
  { target := "Avatar", kinds := [.ellipse, .frame, .component, .componentInstance, .rectangle]
    namePatterns := patterns ["avatar", "profile pic"]
    conditions := [⟨.circular, 15⟩, ⟨.hasImageFill, 15⟩, ⟨.roughlySquare, 10⟩]
    props := [.avatarShape] },
  { target := "Image", kinds := [.rectangle, .frame, .ellipse]
    namePatterns := patterns ["image", "img", "photo", "picture", "illustration"]
    conditions := [⟨.hasImageFill, 30⟩]
    props := [.imageAttributes] },
  { target := "Divider", kinds := [.line, .rectangle, .vector],
    namePatterns := patterns ["divider", "separator"]
    conditions := [⟨.thinLine, 30⟩]
    props := [.dividerOrientation] },
  { target := "Typography.Title", kinds := [.text],
    namePatterns := patterns ["title", "heading", "headline"]
    conditions := [⟨.fontSizeAtLeast 20.0, 45⟩]
    textRole := .children, style := .typography, props := [.titleLevel] },
  { target := "Typography.Text", kinds := [.text], namePatterns := []
    conditions := [⟨.hasText, 45⟩]
    textRole := .children, style := .typography, props := [.strongFromWeight] },
  { target := "Flex"
    kinds := [.document, .canvas, .frame, .group, .section, .component, .componentSet,
      .componentInstance]
    namePatterns := patterns ["row", "column", "stack", "container", "flex", "wrapper", "layout"]
    conditions := [⟨.hasLayoutAxis, 20⟩, ⟨.hasChildren, 10⟩]
    atomic := false, style := .container, props := [.flexDirection, .gapFromSpacing] }]

end DesignCompiler.Mapping
