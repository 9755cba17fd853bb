import DesignCompiler.Json.Decoder

/-!
# Diagnostics

Findings about a document or a component source, in the words that a user reads.
-/

namespace DesignCompiler

/-- What a finding is about. -/
inductive DiagnosticKind where
  /-- Tags that do not pair, or a source that cannot be taken apart. -/
  | grammar
  | imports
  | property
  | accessibility
  | libraryUsage
  | performance
  | bestPractice
  | style
  | mapping
  | synthesis
deriving DecidableEq, Repr, Inhabited

namespace DiagnosticKind

/-- The word of a kind. -/
def word : DiagnosticKind → String
  | .grammar => "syntax"
  | .imports => "import"
  | .property => "prop"
  | .accessibility => "accessibility"
  | .libraryUsage => "antd-usage"
  | .performance => "performance"
  | .bestPractice => "best-practice"
  | .style => "style"
  | .mapping => "mapping"
  | .synthesis => "synthesis"

/-- The kind of a word. -/
def ofWord? : String → Option DiagnosticKind
  | "syntax" => some .grammar
  | "import" => some .imports
  | "prop" => some .property
  | "accessibility" => some .accessibility
  | "antd-usage" => some .libraryUsage
  | "performance" => some .performance
  | "best-practice" => some .bestPractice
  | "style" => some .style
  | "mapping" => some .mapping
  | "synthesis" => some .synthesis
  | _ => none

/-- Whether findings of the kind are listed under errors even when they only warn. -/
def isErrorKind : DiagnosticKind → Bool
  | .grammar | .imports | .property | .libraryUsage => true
  | _ => false

end DiagnosticKind

/-- How grave a finding is. -/
inductive Severity where
  | error
  | warning
deriving DecidableEq, Repr, Inhabited

/-- The word of a severity. -/
def Severity.word : Severity → String
  | .error => "error"
  | .warning => "warning"

/-- The severity of a word. -/
def Severity.ofWord? : String → Option Severity
  | "error" => some .error
  | "warning" => some .warning
  | _ => none

/-- A finding, possibly about one line of a source. -/
structure Diagnostic where
  kind : DiagnosticKind
  message : String
  line : Option Nat
  severity : Severity
deriving DecidableEq, Repr, Inhabited

namespace Diagnostic

/-- An error. -/
def error (kind : DiagnosticKind) (message : String) : Diagnostic :=
  ⟨kind, message, none, .error⟩

/-- A warning. -/
def warning (kind : DiagnosticKind) (message : String) : Diagnostic :=
  ⟨kind, message, none, .warning⟩

/-- The finding on a line. -/
def atLine (d : Diagnostic) (line : Nat) : Diagnostic :=
  { d with line := some line }

/-- Whether the finding is an error. -/
def isError (d : Diagnostic) : Bool :=
  d.severity == .error

/-- Whether the finding is listed under errors. -/
def listedAsError (d : Diagnostic) : Bool :=
  d.isError || d.kind.isErrorKind

/-- The finding in one line. -/
def display (d : Diagnostic) : String :=
  let place := match d.line with
    | some line => " line " ++ line.repr
    | none => ""
  d.severity.word ++ "[" ++ d.kind.word ++ "]" ++ place ++ ": " ++ d.message

/-- A finding as a value. -/
def toJson (d : Diagnostic) : Json :=
  .obj [("kind", .str d.kind.word), ("message", .str d.message),
    ("line", .ofOption .ofNat d.line), ("severity", .str d.severity.word)]

/-- The finding in a value. -/
def ofJson? (v : Json) : Option Diagnostic := do
  let r ← Record.ofJson? ["kind", "message", "line", "severity"] v
  return {
    kind := ← r.required "kind" fun v => v.word?.bind DiagnosticKind.ofWord?
    message := ← r.required "message" Json.string?
    line := ← r.nullableItem "line" Json.nat64?
    severity := ← r.required "severity" fun v => v.word?.bind Severity.ofWord? }

end Diagnostic

end DesignCompiler
