import DesignCompiler.Validation.Imports
import DesignCompiler.Validation.Library
import DesignCompiler.Validation.Quality

/-!
# Verdicts

The result of running rules over a source: its errors and warnings, suggestions, and a score. A
source that cannot be taken apart has one error and no score.
-/

namespace DesignCompiler.Validation

open Markup (Structure Anomaly)

/-- The result of a validation. -/
structure Verdict where
  /-- There is no error; warnings do not count. -/
  isValid : Bool
  /-- Errors, and warnings of the kinds that are listed under errors. -/
  errors : List Diagnostic
  warnings : List Diagnostic
  suggestions : List String
  score : Nat
deriving DecidableEq, Repr, Inhabited

/-- What a finding takes off the score. -/
def penalty (d : Diagnostic) : Nat :=
  match d.severity with
  | .error => 20
  | .warning => if d.kind.isErrorKind then 5 else 2

/-- One hundred less all penalties, but not below zero. -/
def qualityScore (diagnostics : List Diagnostic) : Nat :=
  100 - (diagnostics.map penalty).foldr (· + ·) 0

namespace Verdict

/-- The verdict on a report. -/
def ofReport (r : Report) : Verdict :=
  { isValid := !r.diagnostics.any (·.isError)
    errors := r.diagnostics.filter (·.listedAsError)
    warnings := r.diagnostics.filter (!·.listedAsError)
    suggestions := r.suggestions
    score := qualityScore r.diagnostics }

/-- The finding of a source that cannot be taken apart. -/
def anomalyFinding (a : Anomaly) : Diagnostic :=
  { Diagnostic.error .grammar ("Could not parse source: " ++ a.message) with line := a.line? }

/-- The verdict on a source that cannot be taken apart. -/
def ofAnomaly (a : Anomaly) : Verdict :=
  ⟨false, [anomalyFinding a], [], [], 0⟩

/-- All findings, those listed under errors first. -/
def diagnostics (v : Verdict) : List Diagnostic :=
  v.errors ++ v.warnings

/-- The number of findings of a kind. -/
def countOf (v : Verdict) (kind : DiagnosticKind) : Nat :=
  (v.diagnostics.filter fun d => d.kind == kind).length

/-- A verdict as a value. -/
def toJson (v : Verdict) : Json :=
  .obj [("is_valid", .bool v.isValid), ("errors", .ofList Diagnostic.toJson v.errors),
    ("warnings", .ofList Diagnostic.toJson v.warnings), ("suggestions", .ofStrings v.suggestions),
    ("score", .ofNat v.score)]

end Verdict

/-- The rules in the order in which they report. -/
def defaultRules : List Rule :=
  [pairingRule, importRule, usageRule, valueRule, accessibilityRule, performanceRule,
    practiceRule, styleRule]

/-- What the enabled rules report, one after the other. -/
def runRules (rules : List Rule) (context : Context) (s : Structure) : Report :=
  (rules.filter fun r => r.enabled context.options).foldl
    (fun report r => r.write context s report) .none

/-- Validates a source with the given rules. -/
def validateWith (rules : List Rule) (context : Context) (source : String) : Verdict :=
  match Structure.ofText source with
  | .error a => .ofAnomaly a
  | .ok s => .ofReport (runRules rules context s)

/-- Validates a source. -/
def validate (context : Context) (source : String) : Verdict :=
  validateWith defaultRules context source

/-- The names that a validation looks up in the catalog. -/
def lookupsOf (options : Options) (source : String) : List String :=
  match Structure.ofText source with
  | .error _ => []
  | .ok s => if options.checkProps then lookedUp options.libraryModule s else []

end DesignCompiler.Validation
