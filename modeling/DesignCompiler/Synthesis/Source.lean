import DesignCompiler.Synthesis.Element

/-!
# Component sources

The module around the elements: import lines, the component with its name, and its export. Every
module is imported on one line, modules and bindings in ascending order, so the lines depend only
on which bindings are used.
-/

namespace DesignCompiler.Synthesis

open Mapping (MappedTree)

/-! ## Names -/

/-- The name of a component whose node has no usable name. -/
def defaultComponentName : String :=
  "GeneratedComponent"

/-- A word with its first letter in upper case. -/
def capitalize : List Char → List Char
  | [] => []
  | c :: rest => c.toUpper :: rest

/-- A name as an identifier: its ASCII words capitalised and run together. An identifier does not
start with a digit. -/
def componentIdentifier (name : String) : String :=
  let words := (Text.splitWhere (fun c => !c.isAlphanum) name.toList).filter (!·.isEmpty)
  match words.flatMap capitalize with
  | [] => defaultComponentName
  | c :: rest =>
    if c.isDigit then String.ofList ("Generated".toList ++ c :: rest)
    else String.ofList (c :: rest)

/-! ## Imports -/

/-- The line that every source starts with. -/
def reactLine : String :=
  "import React from 'react';"

/-- The bindings that are imported from a module. -/
def bindingsOf (imports : List (String × String)) (module : String) : List String :=
  KeyMap.distinct ((imports.filter fun i => i.1 == module).map (·.2))

/-- One line for each module, behind the line for React. -/
def importLines (imports : List (String × String)) : List String :=
  reactLine :: (KeyMap.distinct (imports.map (·.1))).map fun module =>
    Catalog.importLine (", ".intercalate (bindingsOf imports module)) module

/-! ## Modules -/

/-- What the component returns: lines of elements, or null. -/
def returnText (options : Options) : Option (List Char) → List Char
  | some body => line options 1 "return (".toList ++ (body ++ line options 1 ");".toList)
  | none => line options 1 "return null;".toList

/-- The first line of the component. -/
def declarationLine (options : Options) (name : String) : List Char :=
  "export const ".toList ++ (name.toList ++
    (if options.typed then ": React.FC = () => \x7b\n" else " = () => \x7b\n").toList)

/-- The source of a component. -/
def sourceText (options : Options) (name : String) (imports : List String)
    (body : Option (List Char)) : List Char :=
  imports.flatMap (fun i => i.toList ++ ['\n']) ++ '\n' :: (declarationLine options name ++
    (returnText options body ++ ("\x7d;\n".toList ++
      if options.defaultExport then "\nexport default ".toList ++ (name.toList ++ [';', '\n'])
      else [])))

/-- What is rendered in place of a tree that cannot be written. -/
def fallbackText (options : Options) (message : String) : List Char :=
  line options 2 ("<div style=\x7b\x7b color: 'red' \x7d\x7d>".toList ++
    (inBraces (Json.quote message) ++
      "</div>".toList))

/-! ## Output -/

/-- The source of a component, and what there is to say about it. -/
structure Output where
  componentName : String
  sourceText : String
  imports : List String
  diagnostics : List Diagnostic
deriving DecidableEq, Repr, Inhabited

/-- An output as a value. -/
def Output.toJson (o : Output) : Json :=
  .obj [("component_name", .str o.componentName), ("source_text", .str o.sourceText),
    ("imports", .ofStrings o.imports), ("diagnostics", .ofList Diagnostic.toJson o.diagnostics)]

/-- The output with the given imports and body. -/
def Output.assemble (options : Options) (name : String) (imports : List (String × String))
    (body : Option (List Char)) (diagnostics : List Diagnostic) : Output :=
  { componentName := name
    sourceText := String.ofList (Synthesis.sourceText options name (importLines imports) body)
    imports := importLines imports
    diagnostics }

/-- The warning about a tree without nodes. -/
def emptyTreeWarning : Diagnostic :=
  .warning .synthesis "No components found to render; the generated component returns null"

/-- The text about a tree that cannot be written. -/
def faultMessage (fault : Fault) : String :=
  "Code generation failed: " ++ fault.message

/-- The output for a finished draft; a draft with a fault is given up together with its
imports. -/
def Output.ofDraft (options : Options) (name : String) (draft : Draft) : Output :=
  match draft.fault with
  | none => .assemble options name draft.imports (some draft.text) []
  | some fault =>
    .assemble options name [] (some (fallbackText options (faultMessage fault)))
      [.warning .synthesis (faultMessage fault)]

/-! ## Synthesizers -/

/-- A synthesizer with what is left in it: the text that was written and not handed out, and the
bindings that were collected. -/
structure Synthesizer where
  options : Options
  text : List Char
  imports : List (String × String)
deriving DecidableEq, Repr, Inhabited

namespace Synthesizer

/-- A synthesizer that has written nothing. -/
def ofOptions (options : Options) : Synthesizer :=
  ⟨options, [], []⟩

/-- The synthesizer without what is left in it. -/
def cleared (s : Synthesizer) : Synthesizer :=
  { s with text := [], imports := [] }

/-- Writes a tree behind what is there. A fault leaves what was written until then. -/
def written (s : Synthesizer) (root : Mapping.MappedNode) : Synthesizer × Option Fault :=
  let draft := write s.options 0 root
  ({ s with text := s.text ++ draft.text, imports := s.imports ++ draft.imports }, draft.fault)

/-- What stays behind. A finished text is handed out and its imports stay; behind a fault the
imports are given up and the text stays as far as it came. -/
def left (s : Synthesizer) : Option Fault → Synthesizer
  | none => { s with text := [] }
  | some _ => { s with imports := [] }

/-- Makes the source of a component. -/
def synthesize (s : Synthesizer) (tree : MappedTree) (name : String) : Synthesizer × Output :=
  let s := s.cleared
  let name := componentIdentifier name
  match tree.root with
  | none => (s, .assemble s.options name s.imports none [emptyTreeWarning])
  | some root =>
    let (s, fault) := s.written root
    (s.left fault, .ofDraft s.options name ⟨s.text, s.imports, fault⟩)

end Synthesizer

/-- Makes the source of a single component. -/
def synthesize (options : Options) (tree : MappedTree) (name : String) : Output :=
  ((Synthesizer.ofOptions options).synthesize tree name).2

end DesignCompiler.Synthesis
