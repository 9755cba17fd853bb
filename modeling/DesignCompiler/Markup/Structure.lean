import DesignCompiler.Markup.Declaration
import DesignCompiler.Markup.Scan

/-!
# The structure of a source

Everything that the checks know about a component source: its imports, its declarations, its
elements, and the tags that do not pair.
-/

namespace DesignCompiler.Markup

/-- The structure of a component source. -/
structure Structure where
  imports : List Import
  declarations : List Declaration
  /-- An element stands before its children and after the elements in its attribute values. -/
  elements : List Element
  /-- Closing tags without an open one, with their lines. -/
  unexpectedClosings : List (String × Nat)
  /-- Open tags without a closing one, with their lines. -/
  unclosed : List (String × Nat)
  lineCount : Nat
deriving DecidableEq, Repr, Inhabited

namespace Structure

/-- The structure of a source text. -/
def ofText (text : String) : Except Anomaly Structure :=
  let s := text.toList
  if (Text.trim s).isEmpty then .error .empty
  else
    (scanSource s).map fun found =>
      { imports := importsOf s, declarations := declarationsOf s, elements := found.elements
        unexpectedClosings := found.unexpectedClosings, unclosed := found.unclosed
        lineCount := Text.lineCount s }

/-- The imports from a module. -/
def importsFrom (s : Structure) (module : String) : List Import :=
  s.imports.filter fun i => i.module == module

/-- Whether a name is imported or declared. -/
def isBound (s : Structure) (name : String) : Bool :=
  s.imports.any (fun i => i.locals.contains name) || s.declarations.any fun d => d.name == name

/-- The number of elements that are no fragments. -/
def tagCount (s : Structure) : Nat :=
  (s.elements.filter (!·.isFragment)).length

end Structure

end DesignCompiler.Markup
