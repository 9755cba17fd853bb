import DesignCompiler.Text.Pattern
import DesignCompiler.Validation.Rule

/-!
# Quality of a source

The rules on what works but could be better: elements that not everyone can perceive or operate,
functions made anew on every rendering, names, size, and inline styles.
-/

namespace DesignCompiler.Validation

open Markup (Structure Element Attribute Value)
open Text (Pattern)

/-! ## Accessibility -/

/-- Tags of images. -/
def imageTags : List String :=
  ["img", "Image"]

/-- Tags of elements to act on. -/
def interactiveTags : List String :=
  ["button", "a", "Button"]

/-- Attributes that give an element a label. -/
def labelAttributes : List String :=
  ["aria-label", "aria-labelledby", "title"]

/-- Whether the element shows an image. An avatar does if it has a source. -/
def isImageLike (e : Element) : Bool :=
  imageTags.contains e.tag || (e.tag == "Avatar" && e.hasAttribute "src")

/-- The finding of an image without alternative text. -/
def imageFindings (e : Element) : List Diagnostic :=
  if isImageLike e && !e.hasAttribute "alt" then
    [(Diagnostic.warning .accessibility ("<" ++ e.tag ++ "> has no alt text")).atLine e.line]
  else []

/-- The finding of an element to act on that says nothing. -/
def labelFindings (e : Element) : List Diagnostic :=
  if interactiveTags.contains e.tag && !e.hasContent && !labelAttributes.any e.hasAttribute then
    [(Diagnostic.warning .accessibility
      ("<" ++ e.tag ++ "> has no text content or accessible label")).atLine e.line]
  else []

/-- Images need an alternative text and elements to act on a label; a spread may bring either. -/
def accessibilityRule : Rule where
  name := "accessibility"
  enabled o := o.checkAccessibility
  write _ s report :=
    report.pushEach ((s.elements.filter (!·.hasSpread)).flatMap
      fun e => imageFindings e ++ labelFindings e)

/-! ## Performance -/

/-- Whether the attribute name is that of an event handler: `on` and a capital. -/
def isEventName (name : String) : Bool :=
  match name.toList with
  | 'o' :: 'n' :: c :: _ => c.isUpper
  | _ => false

/-- The start of a function in an expression. -/
def inlineFunction : Pattern Unit :=
  .sequence [.textStart, .run Text.isBlank 0,
    .optional (.sequence [.literal "async", .run Text.isBlank 1]),
    .either (.seq (.literal "function") .wordEdge)
      (.either (.sequence [Markup.parameterList, .run Text.isBlank 0, .literal "=>"])
        (.sequence [Markup.declarationName, .run Text.isBlank 0, .literal "=>"]))]

/-- The finding of an event handler that is a function made in place. -/
def handlerFindings (e : Element) (a : Attribute) : List Diagnostic :=
  match a.value with
  | .expression s =>
    if isEventName a.name && !(inlineFunction.ways ⟨[], s.toList⟩).isEmpty then
      [(Diagnostic.warning .performance
        ("Inline function in " ++ a.name ++ " on <" ++ e.tag ++
          "> is recreated on every render; consider useCallback")).atLine a.line]
    else []
  | _ => []

/-- Event handlers should not be made in place. -/
def performanceRule : Rule where
  name := "performance"
  enabled o := o.checkPerformance
  write _ s report :=
    report.pushEach (s.elements.flatMap fun e => e.attributes.flatMap (handlerFindings e))

/-! ## Names and size -/

/-- The least line of a declaration behind the given line. -/
def nextDeclarationLine? (s : Structure) (line : Nat) : Option Nat :=
  ((s.declarations.map (·.line)).filter fun l => decide (line < l)).min?

/-- Whether an element stands between a declaration and the next one. -/
def renders (s : Structure) (d : Markup.Declaration) : Bool :=
  s.elements.any fun e =>
    decide (d.line ≤ e.line) &&
      match nextDeclarationLine? s d.line with
      | some stop => decide (e.line < stop)
      | none => true

/-- Whether a name starts with an ASCII capital. -/
def startsWithCapital (name : String) : Bool :=
  (name.toList.head?.map Char.isUpper).getD false

/-- The finding of a component whose name does not start with a capital. -/
def nameFindings (s : Structure) (d : Markup.Declaration) : List Diagnostic :=
  if renders s d && !startsWithCapital d.name then
    [(Diagnostic.warning .bestPractice
      ("Component '" ++ d.name ++ "' should start with an uppercase letter")).atLine d.line]
  else []

/-- The suggestion for a source with too many elements. -/
def sizeSuggestions (context : Context) (s : Structure) : List String :=
  if context.options.maxTags < s.tagCount then
    ["This file renders " ++ s.tagCount.repr ++
      " elements; consider splitting it into smaller components"]
  else []

/-- Components should start with a capital, and a source should not be too large. -/
def practiceRule : Rule where
  name := "best-practices"
  enabled o := o.checkBestPractices
  write context s report :=
    (report.pushEach (s.declarations.flatMap (nameFindings s))).suggestEach
      (sizeSuggestions context s)

/-! ## Inline styles -/

/-- The number of declarations in a style object: its pieces between commas that have a colon. -/
def declarationCount (body : List Char) : Nat :=
  ((Text.splitAt ',' body).filter (·.contains ':')).length

/-- The finding of an element with too long an inline style. -/
def styleFindings (context : Context) (e : Element) : List Diagnostic :=
  match e.attribute? "style" with
  | none => []
  | some style =>
    match style.objectLiteral? with
    | none => []
    | some body =>
      if context.options.maxInlineStyleDeclarations < declarationCount body then
        [(Diagnostic.warning .style
          ("Inline style on <" ++ e.tag ++ "> has " ++ (declarationCount body).repr ++
            " declarations; move it to a stylesheet")).atLine style.line]
      else []

/-- Inline styles should be short. -/
def styleRule : Rule where
  name := "style"
  enabled o := o.checkBestPractices
  write context s report := report.pushEach (s.elements.flatMap (styleFindings context))

end DesignCompiler.Validation
