import DesignCompiler.Validation.Rule

/-!
# Pairing and imports

The rules on tags that do not pair and on bindings: what is rendered must be imported or declared,
and what is imported from the library should be rendered.
-/

namespace DesignCompiler.Validation

open Markup (Structure Element)

/-- The finding of a tag that is not closed. -/
def unclosedFinding (p : String × Nat) : Diagnostic :=
  (Diagnostic.error .grammar ("Unclosed tag <" ++ p.1 ++ ">")).atLine p.2

/-- The finding of a closing tag that closes nothing. -/
def unexpectedFinding (p : String × Nat) : Diagnostic :=
  (Diagnostic.error .grammar
    ("Unexpected closing tag </" ++ p.1 ++ "> with no matching open tag")).atLine p.2

/-- Tags must pair. -/
def pairingRule : Rule where
  name := "syntax"
  enabled _ := true
  write _ s report :=
    (report.pushEach (s.unclosed.map unclosedFinding)).pushEach
      (s.unexpectedClosings.map unexpectedFinding)

/-- The finding of an element whose component is not known here. -/
def unboundFinding (e : Element) : Diagnostic :=
  (Diagnostic.error .imports
    ("<" ++ e.tag ++ "> is used but '" ++ e.rootBinding ++
      "' is not imported or declared")).atLine e.line

/-- The first elements of each component that is neither imported nor declared; bindings that were
`reported` already are passed over. -/
def unboundFindings (s : Structure) (reported : List String) : List Element → List Diagnostic
  | [] => []
  | e :: rest =>
    if s.isBound e.rootBinding || reported.contains e.rootBinding then
      unboundFindings s reported rest
    else unboundFinding e :: unboundFindings s (e.rootBinding :: reported) rest

/-- The library bindings of an import that no element uses. -/
def unusedFindings (used : List String) (i : Markup.Import) : List Diagnostic :=
  (i.named.filter fun n => !used.contains n.bound).map fun n =>
    (Diagnostic.warning .imports
      ("'" ++ n.bound ++ "' is imported from '" ++ i.module ++ "' but never rendered")).atLine
      i.line

/-- The finding of a source with elements that does not import React. -/
def missingReactFindings (s : Structure) : List Diagnostic :=
  if (s.importsFrom "react").isEmpty then
    [.warning .imports "JSX is used but React is not imported"] else []

/-- Bindings of elements must be imported or declared, and library imports be used. -/
def importRule : Rule where
  name := "imports"
  enabled o := o.checkImports
  write context s report :=
    if s.elements.isEmpty then report
    else
      ((report.pushEach (missingReactFindings s)).pushEach
        (unboundFindings s [] (s.elements.filter (·.isComponent)))).pushEach
          ((s.importsFrom context.options.libraryModule).flatMap
            (unusedFindings (s.elements.map (·.rootBinding))))

end DesignCompiler.Validation
