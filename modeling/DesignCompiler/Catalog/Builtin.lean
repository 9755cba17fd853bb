import DesignCompiler.Catalog.Index

/-!
# The built-in components

The components of Ant Design, version 5, that nodes are mapped to or that the checks know about.
-/

namespace DesignCompiler.Catalog

/-- A property without a default. -/
def plain (name description : String) : Property :=
  ⟨name, description, false, none⟩

/-- A property with a default. -/
def preset (name description value : String) : Property :=
  ⟨name, description, false, some value⟩

/-- A property that must be given. -/
def needed (name description : String) : Property :=
  ⟨name, description, true, none⟩

/-- A property that is either set or not. -/
def flag (name : String) : Property :=
  plain name "boolean"

/-- The names of the built-in components, as they are listed. -/
def builtinNames : List String :=
  ["Alert", "Avatar", "Badge", "Button", "Card", "Checkbox", "Col", "Divider", "Flex", "Form",
    "Form.Item", "Image", "Input", "Input.TextArea", "List", "List.Item", "Row", "Select",
    "Space", "Switch", "Tabs", "Tabs.TabPane", "Tag", "Typography.Paragraph", "Typography.Text",
    "Typography.Title"]

/-- The built-in components with their properties and examples, as they are looked up. -/
def builtinTable : List (String × List Property × List String) := [
  ("Alert", [
      preset "type" "'success' | 'info' | 'warning' | 'error'" "info",
      needed "message" "ReactNode",
      plain "description" "ReactNode",
      flag "showIcon",
      flag "closable"],
    ["<Alert type=\"warning\" message=\"Unsaved changes\" />"]),
  ("Avatar", [
      preset "shape" "'circle' | 'square'" "circle",
      preset "size" "number | 'large' | 'small' | 'default'" "default",
      plain "src" "string",
      plain "alt" "string",
      plain "icon" "ReactNode"],
    ["<Avatar size=\x7b40\x7d src=\"/avatar.png\" alt=\"Profile\" />"]),
  ("Badge", [
      plain "count" "ReactNode",
      flag "dot",
      plain "status" "'success' | 'processing' | 'default' | 'error' | 'warning'"],
    ["<Badge count=\x7b5\x7d><Avatar /></Badge>"]),
  ("Button", [
      preset "type" "'primary' | 'default' | 'dashed' | 'text' | 'link'" "default",
      preset "size" "'small' | 'middle' | 'large'" "middle",
      preset "shape" "'default' | 'circle' | 'round'" "default",
      preset "htmlType" "'button' | 'submit' | 'reset'" "button",
      flag "danger",
      flag "disabled",
      flag "block",
      flag "loading",
      plain "icon" "ReactNode",
      plain "onClick" "(event: MouseEvent) => void"],
    ["<Button type=\"primary\">Submit</Button>",
      "<Button danger size=\"small\">Delete</Button>"]),
  ("Card", [
      plain "title" "ReactNode",
      plain "extra" "ReactNode",
      preset "bordered" "boolean" "true",
      flag "hoverable",
      preset "size" "'default' | 'small'" "default",
      flag "loading"],
    ["<Card title=\"Details\">Content</Card>"]),
  ("Checkbox", [
      flag "checked",
      flag "defaultChecked",
      flag "disabled",
      plain "onChange" "(event: CheckboxChangeEvent) => void"],
    ["<Checkbox>Remember me</Checkbox>"]),
  ("Col", [
      plain "span" "number",
      preset "offset" "number" "0",
      plain "flex" "string | number"],
    ["<Col span=\x7b8\x7d />"]),
  ("Divider", [
      preset "type" "'horizontal' | 'vertical'" "horizontal",
      preset "orientation" "'left' | 'right' | 'center'" "center",
      flag "dashed",
      flag "plain"],
    ["<Divider />",
      "<Divider type=\"vertical\" />"]),
  ("Flex", [
      flag "vertical",
      preset "wrap" "'nowrap' | 'wrap' | 'wrap-reverse'" "nowrap",
      preset "justify" "string" "normal",
      preset "align" "string" "normal",
      plain "gap" "'small' | 'middle' | 'large' | number"],
    ["<Flex vertical gap=\x7b16\x7d>...</Flex>"]),
  ("Form", [
      preset "layout" "'horizontal' | 'vertical' | 'inline'" "horizontal",
      plain "size" "'small' | 'middle' | 'large'",
      preset "labelAlign" "'left' | 'right'" "right",
      plain "initialValues" "object",
      plain "onFinish" "(values: object) => void"],
    ["<Form layout=\"vertical\"><Form.Item label=\"Name\"><Input /></Form.Item></Form>"]),
  ("Form.Item", [
      plain "label" "ReactNode",
      plain "name" "string | string[]",
      plain "rules" "Rule[]",
      flag "required",
      plain "tooltip" "ReactNode",
      preset "valuePropName" "string" "value"],
    ["<Form.Item label=\"Email\" name=\"email\"><Input /></Form.Item>"]),
  ("Image", [
      needed "src" "string",
      plain "alt" "string",
      plain "width" "string | number",
      plain "height" "string | number",
      preset "preview" "boolean" "true",
      plain "fallback" "string"],
    ["<Image src=\"/hero.png\" alt=\"Hero\" width=\x7b320\x7d />"]),
  ("Input", [
      preset "size" "'small' | 'middle' | 'large'" "middle",
      plain "placeholder" "string",
      flag "disabled",
      flag "allowClear",
      preset "variant" "'outlined' | 'borderless' | 'filled'" "outlined",
      plain "status" "'error' | 'warning'",
      plain "prefix" "ReactNode",
      plain "maxLength" "number",
      plain "onChange" "(event: ChangeEvent) => void"],
    ["<Input placeholder=\"Email\" />"]),
  ("Input.TextArea", [
      plain "placeholder" "string",
      plain "rows" "number",
      flag "disabled",
      flag "showCount"],
    ["<Input.TextArea rows=\x7b4\x7d placeholder=\"Message\" />"]),
  ("List", [
      plain "dataSource" "any[]",
      plain "renderItem" "(item: any) => ReactNode",
      flag "bordered",
      preset "size" "'default' | 'large' | 'small'" "default"],
    ["<List dataSource=\x7bdata\x7d renderItem=\x7b(item) => " ++
      "<List.Item>\x7bitem\x7d</List.Item>\x7d />"]),
  ("List.Item", [
      plain "actions" "ReactNode[]",
      plain "extra" "ReactNode"],
    []),
  ("Row", [
      preset "gutter" "number | [number, number]" "0",
      preset "justify"
        "'start' | 'end' | 'center' | 'space-around' | 'space-between' | 'space-evenly'" "start",
      preset "align" "'top' | 'middle' | 'bottom' | 'stretch'" "top",
      preset "wrap" "boolean" "true"],
    ["<Row gutter=\x7b16\x7d><Col span=\x7b12\x7d /></Row>"]),
  ("Select", [
      preset "size" "'small' | 'middle' | 'large'" "middle",
      plain "placeholder" "string",
      plain "mode" "'multiple' | 'tags'",
      flag "disabled",
      flag "allowClear",
      plain "options" "\x7b label: ReactNode; value: string \x7d[]",
      plain "onChange" "(value: string) => void"],
    ["<Select placeholder=\"Country\" options=\x7b[]\x7d />"]),
  ("Space", [
      preset "direction" "'vertical' | 'horizontal'" "horizontal",
      preset "size" "'small' | 'middle' | 'large' | number" "small",
      plain "align" "'start' | 'end' | 'center' | 'baseline'",
      flag "wrap"],
    ["<Space direction=\"vertical\">...</Space>"]),
  ("Switch", [
      flag "checked",
      flag "defaultChecked",
      preset "size" "'default' | 'small'" "default",
      flag "disabled",
      plain "onChange" "(checked: boolean) => void"],
    ["<Switch defaultChecked />"]),
  ("Tabs", [
      plain "items" "TabItem[]",
      plain "activeKey" "string",
      preset "type" "'line' | 'card' | 'editable-card'" "line",
      preset "size" "'large' | 'middle' | 'small'" "middle",
      preset "tabPosition" "'top' | 'right' | 'bottom' | 'left'" "top"],
    ["<Tabs items=\x7b[\x7b key: \"1\", label: \"Tab 1\" \x7d]\x7d />"]),
  ("Tabs.TabPane", [
      plain "tab" "ReactNode",
      plain "key" "string"],
    []),
  ("Tag", [
      plain "color" "string",
      flag "closable",
      preset "bordered" "boolean" "true",
      plain "icon" "ReactNode"],
    ["<Tag color=\"blue\">New</Tag>"]),
  ("Typography.Paragraph", [
      plain "type" "'secondary' | 'success' | 'warning' | 'danger'",
      flag "strong",
      flag "ellipsis"],
    ["<Typography.Paragraph>Body copy</Typography.Paragraph>"]),
  ("Typography.Text", [
      plain "type" "'secondary' | 'success' | 'warning' | 'danger'",
      flag "strong",
      flag "italic",
      flag "underline",
      flag "code",
      flag "disabled",
      flag "ellipsis"],
    ["<Typography.Text strong>Total</Typography.Text>"]),
  ("Typography.Title", [
      preset "level" "1 | 2 | 3 | 4 | 5" "1",
      plain "type" "'secondary' | 'success' | 'warning' | 'danger'",
      flag "copyable",
      flag "ellipsis"],
    ["<Typography.Title level=\x7b2\x7d>Settings</Typography.Title>"])]

/-- The built-in components as a source. -/
def builtinSource : Source where
  names := builtinNames
  definition? name :=
    (builtinTable.lookup name).map fun (properties, examples) =>
      { displayName := none, category := some (inferCategory name), module := some libraryModule,
        properties, examples }

end DesignCompiler.Catalog
