import DesignCompiler.Catalog.Index
import DesignCompiler.Diagnostic
import DesignCompiler.Markup.Structure
import DesignCompiler.Validation.Options

/-!
# Rules

A rule is a check with a name and a condition under which it runs. The rules of a run share one
report: each gets what was reported before it and passes it on with findings and suggestions of
its own.
-/

namespace DesignCompiler.Validation

open Markup (Structure Element)

/-- What rules report. -/
structure Report where
  diagnostics : List Diagnostic
  suggestions : List String
deriving DecidableEq, Repr, Inhabited

namespace Report

/-- A report of nothing. -/
def none : Report :=
  ⟨[], []⟩

/-- One report and then another. -/
def append (a b : Report) : Report :=
  ⟨a.diagnostics ++ b.diagnostics, a.suggestions ++ b.suggestions⟩

instance : Append Report := ⟨append⟩

/-- A report of findings. -/
def ofDiagnostics (diagnostics : List Diagnostic) : Report :=
  ⟨diagnostics, []⟩

/-- The report with one more finding. -/
def push (report : Report) (d : Diagnostic) : Report :=
  { report with diagnostics := report.diagnostics ++ [d] }

/-- The report with more findings, one after the other. -/
def pushEach (report : Report) (diagnostics : List Diagnostic) : Report :=
  diagnostics.foldl push report

/-- The report with one more suggestion. -/
def suggest (report : Report) (suggestion : String) : Report :=
  { report with suggestions := report.suggestions ++ [suggestion] }

/-- The report with more suggestions, one after the other. -/
def suggestEach (report : Report) (suggestions : List String) : Report :=
  suggestions.foldl suggest report

end Report

/-- What a rule can look at besides the source. -/
structure Context where
  catalog : Catalog.Index
  options : Options

/-- A check. -/
structure Rule where
  name : String
  enabled : Options → Bool
  /-- What the rule makes of the report of those before it. -/
  write : Context → Structure → Report → Report

/-- What a rule reports alone. -/
def Rule.check (r : Rule) (context : Context) (s : Structure) : Report :=
  r.write context s .none

/-- The tag as the catalog names it: an alias of a library import is undone in its first
segment. -/
def resolveTag (s : Structure) (library tag : String) : String :=
  let root := Markup.rootOfTag tag
  match ((s.importsFrom library).flatMap (·.named)).find? fun n => n.bound == root with
  | some n =>
    if n.imported = root then tag else n.imported ++ String.ofList (tag.toList.drop root.length)
  | none => tag

end DesignCompiler.Validation
