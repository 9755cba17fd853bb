import DesignCompiler.Text.Quoted
import DesignCompiler.Validation.Rule

/-!
# Library components

The rules on components of the library: where they may stand, which ones are out of date, and
which values their properties take.
-/

namespace DesignCompiler.Validation

open Markup (Structure Element Attribute Value)

/-! ## Usage -/

/-- Components that must stand inside another one. -/
def requiredAncestors : List (String × String) :=
  [("Form.Item", "Form"), ("Col", "Row")]

/-- Components that should not be used any more, with advice. -/
def deprecated : List (String × String) :=
  [("Tabs.TabPane", "use the \x60items\x60 prop of <Tabs> instead")]

/-- The elements of a component that do not stand inside its required ancestor. -/
def orphans (s : Structure) (library component ancestor : String) : List Element :=
  s.elements.filter fun e =>
    resolveTag s library e.tag == component &&
      !e.ancestors.any fun a => resolveTag s library a == ancestor

/-- One finding for all orphans of a component, on the line of the first. -/
def orphanFindings (s : Structure) (library component ancestor : String) : List Diagnostic :=
  let found := orphans s library component ancestor
  match found with
  | [] => []
  | first :: _ =>
    let occurrences :=
      if 1 < found.length then " (" ++ found.length.repr ++ " occurrences)" else ""
    [(Diagnostic.error .libraryUsage
      ("<" ++ component ++ "> must be placed inside <" ++ ancestor ++ ">" ++ occurrences)).atLine
      first.line]

/-- One finding for all uses of a deprecated component, on the line of the first. -/
def deprecatedFindings (s : Structure) (library component advice : String) : List Diagnostic :=
  match s.elements.find? fun e => resolveTag s library e.tag == component with
  | some e =>
    [(Diagnostic.warning .libraryUsage ("<" ++ component ++ "> is deprecated; " ++ advice)).atLine
      e.line]
  | none => []

/-- Library components must stand where they belong and be up to date. -/
def usageRule : Rule where
  name := "library-usage"
  enabled o := o.checkProps
  write context s report :=
    let library := context.options.libraryModule
    (report.pushEach (requiredAncestors.flatMap
      fun (c, a) => orphanFindings s library c a)).pushEach
      (deprecated.flatMap fun (c, advice) => deprecatedFindings s library c advice)

/-! ## Values of properties -/

/-- Whether the text is not empty and consists of decimal digits. -/
def isDecimalDigits (s : List Char) : Bool :=
  !s.isEmpty && s.all Text.isDecimalDigit

/-- Whether the text is digits with at most one point between two of them. -/
def isDecimal (s : List Char) : Bool :=
  match Text.splitFirst '.' s with
  | none => isDecimalDigits s
  | some (whole, fraction) => isDecimalDigits whole && isDecimalDigits fraction

/-- Whether the text is a decimal, possibly negative. -/
def isNumberLiteral : List Char → Bool
  | '-' :: rest => isDecimal rest
  | s => isDecimal s

/-- The literal that a value is written as; other expressions are only known when they run. -/
def literalOf? : Value → Option String
  | .text s => some s
  | .expression s =>
    let e := Text.trim s.toList
    if isNumberLiteral e then some (String.ofList e)
    else if Text.isQuoted e then some (String.ofList (Text.unquote e))
    else none
  | .flag => none

/-- The finding of an attribute with a value that its property does not take. -/
def valueFindings (entry : Catalog.Entry) (tag : String) (a : Attribute) : List Diagnostic :=
  match entry.property? a.name with
  | none => []
  | some p =>
    match literalOf? a.value with
    | none => []
    | some value =>
      if p.allowedValues.isEmpty || p.allowedValues.contains value then []
      else
        [(Diagnostic.error .property
          ("Invalid value '" ++ value ++ "' for prop '" ++ a.name ++ "' on <" ++ tag ++
            ">; expected " ++ p.typeDescription)).atLine a.line]

/-- The findings of an element whose component is in the catalog. -/
def elementValueFindings (context : Context) (s : Structure) (e : Element) : List Diagnostic :=
  match context.catalog.entry? (resolveTag s context.options.libraryModule e.tag) with
  | none => []
  | some entry => e.attributes.flatMap (valueFindings entry e.tag)

/-- The names that the rule on values looks up. -/
def lookedUp (library : String) (s : Structure) : List String :=
  (s.elements.filter (·.isComponent)).map fun e => resolveTag s library e.tag

/-- Properties with a closed set of values must take one of them. -/
def valueRule : Rule where
  name := "props"
  enabled o := o.checkProps
  write context s report :=
    report.pushEach ((s.elements.filter (·.isComponent)).flatMap (elementValueFindings context s))

end DesignCompiler.Validation
