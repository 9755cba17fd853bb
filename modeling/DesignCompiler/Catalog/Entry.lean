import DesignCompiler.Catalog.Literal
import DesignCompiler.Json.Basic

/-!
# Catalog entries

What a catalog knows about a component. A definition is what a source says, with most of it left
open; an entry is the definition completed for a valid component name: the first segment of a
dotted name is the binding to import.
-/

namespace DesignCompiler.Catalog

/-- A group of components. -/
inductive Category where
  | general
  | layout
  | navigation
  | dataEntry
  | dataDisplay
  | feedback
  | other
deriving DecidableEq, Repr, Inhabited

/-- The name of a category. -/
def Category.display : Category → String
  | .general => "General"
  | .layout => "Layout"
  | .navigation => "Navigation"
  | .dataEntry => "Data Entry"
  | .dataDisplay => "Data Display"
  | .feedback => "Feedback"
  | .other => "Other"

/-- The category of a name. -/
def Category.ofDisplay? : String → Option Category
  | "General" => some .general
  | "Layout" => some .layout
  | "Navigation" => some .navigation
  | "Data Entry" => some .dataEntry
  | "Data Display" => some .dataDisplay
  | "Feedback" => some .feedback
  | "Other" => some .other
  | _ => none

/-- A property that a component accepts. -/
structure Property where
  name : String
  typeDescription : String
  required : Bool
  defaultValue : Option String
deriving DecidableEq, Repr, Inhabited

/-- The values that a property takes, if its type is a union of literals. -/
def Property.allowedValues (p : Property) : List String :=
  unionLiterals p.typeDescription

/-- What a source says about a component. -/
structure Definition where
  displayName : Option String
  category : Option Category
  module : Option String
  properties : List Property
  examples : List String
deriving DecidableEq, Repr, Inhabited

/-- A component of the catalog. -/
structure Entry where
  /-- The tag as it is written, for instance `Form.Item`. -/
  name : String
  displayName : String
  category : Category
  properties : List Property
  module : String
  /-- The binding that is imported from the module, for instance `Form`. -/
  importName : String
  importStatement : String
  examples : List String
deriving DecidableEq, Repr, Inhabited

/-- The first property of that name. -/
def Entry.property? (e : Entry) (name : String) : Option Property :=
  e.properties.find? fun p => p.name == name

/-- Whether the component accepts a property of that name. -/
def Entry.accepts (e : Entry) (name : String) : Bool :=
  (e.property? name).isSome

/-- The module of components that name none. -/
def libraryModule : String :=
  "antd"

/-- The largest number of examples that an entry keeps. -/
def maxExamples : Nat :=
  5

/-- Whether a segment of a component name is an ASCII identifier that starts with a capital. -/
def isNameSegment : List Char → Bool
  | c :: rest => c.isUpper && rest.all Char.isAlphanum
  | [] => false

/-- Whether a name is a sequence of valid segments with dots between them. -/
def isComponentName (name : String) : Bool :=
  (Text.splitAt '.' name.toList).all isNameSegment

/-- The first segment of a dotted name. -/
def rootSegment (name : String) : String :=
  String.ofList ((Text.splitAt '.' name.toList).head?.getD [])

/-- The category that a component belongs to by its name. -/
def inferCategory (name : String) : Category :=
  let root := rootSegment name
  if ["Button", "Typography", "FloatButton"].contains root then .general
  else if ["Flex", "Space", "Row", "Col", "Divider", "Layout", "Grid"].contains root then .layout
  else if ["Tabs", "Menu", "Breadcrumb", "Pagination", "Steps", "Dropdown", "Anchor"].contains
    root then .navigation
  else if ["Input", "InputNumber", "Select", "Checkbox", "Radio", "Switch", "Form", "DatePicker",
      "TimePicker", "Slider", "Upload", "Rate"].contains root then .dataEntry
  else if ["Card", "Tag", "Avatar", "Image", "List", "Badge", "Table", "Tooltip", "Descriptions",
      "Collapse", "Empty", "Statistic"].contains root then .dataDisplay
  else if ["Alert", "Spin", "Progress", "Result", "Skeleton", "Modal", "Drawer",
    "Popconfirm"].contains root then
    .feedback
  else .other

/-- An optional truth value is false by default. -/
def completeProperty (p : Property) : Property :=
  if p.defaultValue.isNone && Text.trim p.typeDescription.toList == "boolean".toList &&
    !p.required then
    { p with defaultValue := some "false" }
  else p

/-- The first examples, or the empty tag if there are none. -/
def completeExamples (name : String) (examples : List String) : List String :=
  match examples.take maxExamples with
  | [] => ["<" ++ name ++ " />"]
  | first => first

/-- The statement that imports a binding from a module. -/
def importLine (binding module : String) : String :=
  "import \x7b " ++ binding ++ " \x7d from '" ++ module ++ "';"

/-- The entry of a definition; there is none for an invalid name. -/
def Entry.ofDefinition? (name : String) (d : Definition) : Option Entry :=
  if isComponentName name then
    let module := d.module.getD libraryModule
    some {
      name
      displayName := d.displayName.getD (String.ofList (Text.replace ['.'] [' '] name.toList))
      category := d.category.getD (inferCategory name)
      properties := d.properties.map completeProperty
      module
      importName := rootSegment name
      importStatement := importLine (rootSegment name) module
      examples := completeExamples name d.examples }
  else none

/-- A property as a value. -/
def Property.toJson (p : Property) : Json :=
  .obj [("name", .str p.name), ("type", .str p.typeDescription), ("required", .bool p.required),
    ("default_value", .ofOption .str p.defaultValue)]

/-- An entry as a value. -/
def Entry.toJson (e : Entry) : Json :=
  .obj [("name", .str e.name), ("display_name", .str e.displayName),
    ("category", .str e.category.display), ("properties", .ofList Property.toJson e.properties),
    ("module", .str e.module), ("import_name", .str e.importName),
    ("import_statement", .str e.importStatement), ("examples", .ofStrings e.examples)]

end DesignCompiler.Catalog
