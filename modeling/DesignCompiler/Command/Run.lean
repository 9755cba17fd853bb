import DesignCompiler.About
import DesignCompiler.Catalog.File
import DesignCompiler.Command.Invocation
import DesignCompiler.Conversion.Converter
import DesignCompiler.Files.Tree
import DesignCompiler.Json.Printer
import DesignCompiler.Semantic.Format

/-!
# Running commands

What the commands do with files and what they print. They reach their surroundings only through a
host, so a run over files in memory is the same as one over the files of a machine.
-/

namespace DesignCompiler.Command

open Files (FileError)

/-- What a command needs from its surroundings. -/
structure Host (m : Type → Type) where
  read : String → m (Except FileError String)
  write : String → String → m (Except FileError Unit)
  isDirectory : String → m Bool
  /-- The paths of the files in a directory and below it. -/
  filesBelow : String → m (Except FileError (List String))
  print : String → m Unit

/-- How a run ends. -/
inductive Outcome where
  | done
  | failed (failure : Failure)
  /-- The words make no invocation. -/
  | misused
  /-- Help was asked for. -/
  | helped
deriving DecidableEq, Repr

/-- The exit status of a run: two if the source is invalid or the words are, one for all other
failures. -/
def Outcome.status : Outcome → Nat
  | .done | .helped => 0
  | .failed (.validationFailed _ _) | .misused => 2
  | .failed _ => 1

/-- The line about a failed run. -/
def Outcome.message? : Outcome → Option String
  | .failed (.fileAccess reason) => some ("IO Error: " ++ reason)
  | .failed (.validationFailed invalid total) =>
    some (Failure.validationFailed invalid total).message
  | .failed failure => some ("Conversion failed: " ++ failure.message)
  | .done | .misused | .helped => none

section

variable {m : Type → Type} [Monad m]

/-- Prints a line. -/
def Host.line (host : Host m) (text : String) : ExceptT Failure m Unit :=
  host.print (text ++ "\n")

/-- Prints lines with an indentation of three. -/
def Host.indented (host : Host m) (lines : List String) : ExceptT Failure m Unit :=
  lines.forM fun text => host.line ("   " ++ text)

/-- Reads a file. -/
def Host.readOr (host : Host m) (path : String) (onError : FileError → Failure) :
    ExceptT Failure m String := do
  match ← host.read path with
  | .ok text => return text
  | .error e => throw (onError e)

/-- Writes a file. -/
def Host.writeOrFail (host : Host m) (path text : String) : ExceptT Failure m Unit := do
  match ← host.write path text with
  | .ok () => return
  | .error e => throw (.fileAccess e.message)

/-! ## Files -/

/-- The failure of a file that cannot be read. -/
def unreadable (path : String) (e : FileError) : Failure :=
  .fileNotFound (path ++ ": " ++ e.message)

/-- Reads the settings. -/
def loadSettings (host : Host m) : Option String → ExceptT Failure m Settings
  | none => return .empty
  | some path => do
    let text ← host.readOr path (unreadable ("Config file " ++ path))
    liftExcept (Settings.ofText path text)

/-- Reads the catalog; without a path it is the built-in one. -/
def loadCatalog (host : Host m) : Option String → ExceptT Failure m Catalog.Index
  | none => return .ofSource Catalog.builtinSource
  | some path => do
    let text ← host.readOr path (unreadable path)
    liftExcept (Catalog.indexOf (some text))

/-- The failure of a document that cannot be read. -/
def unreadableDocument (key path : String) : FileError → Failure
  | .notFound => .documentNotFound key
  | .denied => .accessDenied key FileError.denied.message
  | e => .unreachable (path ++ ": " ++ e.message)

/-- Reads the node that a reference selects in the documents of a directory. -/
def fetchDocument (host : Host m) (directory : String) (reference : Design.Reference) :
    ExceptT Failure m Design.Node := do
  let path := reference.pathIn directory
  let text ← host.readOr path (unreadableDocument reference.key path)
  liftExcept (Design.fetchExport text reference.nodeId)

/-! ## Converting -/

/-- The lines about the figures of a conversion. -/
def statsLines (s : ConversionStats) : List String :=
  ["", "📊 Detailed Conversion Statistics:", "   Semantic nodes: " ++ s.semanticNodes.repr] ++
    (if 0 < s.missingGeometry then ["   Without geometry: " ++ s.missingGeometry.repr] else []) ++
    ["   Mapped components: " ++ s.mappedComponents.repr,
      "   Dropped nodes: " ++ s.droppedNodes.repr, "   Imports: " ++ s.importCount.repr,
      "   Output size: " ++ s.outputSize.repr ++ " bytes", "   Mapping time: 0ms",
      "   Total time: 0ms", "", "   Diagnostics:", "     Errors: " ++ s.errorCount.repr,
      "     Warnings: " ++ s.warningCount.repr] ++
    match s.score with
    | some score => ["     Score: " ++ score.repr ++ "/100"]
    | none => []

/-- The lines about a conversion. No time is measured, so the time is zero. -/
def conversionLines (c : Conversion) : List String :=
  ["✅ Conversion successful!", "   Component: " ++ c.output.componentName,
    "   Output: " ++ c.stats.outputSize.repr ++ " bytes", "   Time: 0ms"] ++
    (match c.stats.score with
      | some score => ["   Quality score: " ++ score.repr ++ "/100"]
      | none => []) ++
    c.diagnostics.map fun d => "   " ++ d.display

/-- The text of the file that a conversion writes. -/
def artifact (format : OutputFormat) (c : Conversion) : String :=
  match format with
  | .source => c.output.sourceText
  | .report => c.toJson.toPrettyText

/-- Converts a document file. -/
def runConvert (host : Host m) (settings : Settings) (r : ConvertRequest) :
    ExceptT Failure m Unit := do
  let output := r.outputPath settings
  host.line ("🔨 Converting " ++ r.input ++ " -> " ++ output)
  let (directory, reference) ← liftExcept (Design.Reference.ofFile r.input)
  let catalog ← loadCatalog host (r.catalog.or settings.catalog)
  let node ← fetchDocument host directory { reference with nodeId := r.node }
  let converter : Converter := ⟨catalog, r.options settings⟩
  let conversion ← liftExcept (converter.convertDocument node none).2
  host.writeOrFail output (artifact r.format conversion)
  (conversionLines conversion).forM host.line
  if r.showsStats then (statsLines conversion.stats).forM host.line

/-! ## Validating -/

/-- The lines about a verdict. -/
def verdictLines (path : String) (v : Validation.Verdict) : List String :=
  (v.diagnostics.map fun d => "   " ++ d.display) ++ (v.suggestions.map fun s => "   💡 " ++ s) ++
    [if v.isValid then "✅ " ++ path ++ " - score " ++ v.score.repr ++ "/100"
      else "❌ " ++ path ++ " - " ++ v.errors.length.repr ++ " errors, score " ++
        v.score.repr ++ "/100"]

/-- Validates a source file. -/
def validateFile (host : Host m) (context : Validation.Context) (path : String) :
    ExceptT Failure m Validation.Verdict := do
  host.line ("🔍 Validating " ++ path)
  let source ← host.readOr path (unreadable path)
  let verdict := Validation.validate context source
  (verdictLines path verdict).forM host.line
  return verdict

/-- What the validation of several files adds up to. -/
structure Tally where
  total : Nat
  failed : Nat
  score : Nat
deriving DecidableEq, Repr

/-- Validates one more file; one that cannot be read counts as failed. -/
def validateNext (host : Host m) (context : Validation.Context) (t : Tally) (path : String) :
    ExceptT Failure m Tally := do
  try
    let verdict ← validateFile host context path
    return ⟨t.total + 1, if verdict.isValid then t.failed else t.failed + 1,
      t.score + verdict.score⟩
  catch failure =>
    host.line ("❌ " ++ path ++ " - " ++ failure.message)
    return ⟨t.total + 1, t.failed + 1, t.score⟩

/-- A quotient as a double. -/
def ratio (num den : Nat) : Float :=
  Float.ofNat num / Float.ofNat den

/-- The lines at the end of the validation of several files. -/
def tallyLines (t : Tally) : List String :=
  ["", "📊 Validation Summary:", "   Total files: " ++ t.total.repr,
    "   Files with errors: " ++ t.failed.repr] ++
    if 0 < t.total then
      ["   Success rate: " ++
        String.ofList (Decimal.fixedOne (ratio (t.total - t.failed) t.total * 100.0)) ++ "%",
        "   Average score: " ++ String.ofList (Decimal.fixedOne (ratio t.score t.total))]
    else []

/-- Whether a file is a component source by its extension. -/
def isComponentSource (path : String) : Bool :=
  match Files.extension? path with
  | some extension => extension == "tsx" || extension == "jsx"
  | none => false

/-- Validates all component sources in a directory and below it. -/
def validateDirectory (host : Host m) (context : Validation.Context) (path : String) :
    ExceptT Failure m Unit := do
  match ← host.filesBelow path with
  | .error e => throw (.fileAccess ("Directory traversal error: " ++ e.message))
  | .ok files =>
    let tally ← (KeyMap.distinct (files.filter isComponentSource)).foldlM
      (validateNext host context) ⟨0, 0, 0⟩
    (tallyLines tally).forM host.line
    if 0 < tally.failed then throw (.validationFailed tally.failed tally.total)

/-- Validates a file or a directory. -/
def runValidate (host : Host m) (settings : Settings) (r : ValidateRequest) :
    ExceptT Failure m Unit := do
  let catalog ← loadCatalog host (r.catalog.or settings.catalog)
  let context : Validation.Context := ⟨catalog, r.options settings⟩
  if r.recursive && (← host.isDirectory r.input) then validateDirectory host context r.input
  else
    let verdict ← validateFile host context r.input
    if !verdict.isValid then throw (.validationFailed 1 1)

/-! ## Inspecting -/

/-- The tree of a document, or the outline of the candidates for its nodes. -/
def inspection (host : Host m) (settings : Settings) (r : InspectRequest) (root : Semantic.Node) :
    ExceptT Failure m Json := do
  if r.showsMappings then
    let catalog ← loadCatalog host (r.catalog.or settings.catalog)
    return (Mapping.Engine.ofCatalog catalog (settings.mapping.getD .default)).outline none root
  else return root.toJson

/-- Shows the tree of a document file. -/
def runInspect (host : Host m) (settings : Settings) (r : InspectRequest) :
    ExceptT Failure m Unit := do
  host.line ("🔬 Inspecting " ++ r.input)
  let text ← host.readOr r.input (unreadable r.input)
  let (counts, root) ← liftExcept (Semantic.Builder.fresh.ingestExport text r.node)
  let report ← inspection host settings r root
  match r.output with
  | some path =>
    host.writeOrFail path report.toPrettyText
    host.line ("✅ Inspection saved to " ++ path)
  | none => host.line report.toPrettyText
  host.line ("   " ++ counts.nodesBuilt.repr ++ " nodes, " ++ counts.missingGeometry.repr ++
    " without geometry")

/-! ## Catalogs -/

/-- A text with blanks behind it up to a width. -/
def padded (width : Nat) (text : String) : String :=
  text ++ String.ofList (List.replicate (width - text.length) ' ')

/-- The line about a component. -/
def componentLine (catalog : Catalog.Index) (name : String) : String :=
  match catalog.entry? name with
  | some e => padded 20 e.name ++ " " ++ padded 14 e.category.display ++ " " ++ e.importStatement
  | none => name

/-- Shows a component or lists them all. -/
def runCatalog (host : Host m) (settings : Settings) (r : CatalogRequest) :
    ExceptT Failure m Unit := do
  let catalog ← loadCatalog host (r.catalog.or settings.catalog)
  match r.name with
  | some name =>
    match catalog.entry? name with
    | some entry => host.line entry.toJson.toPrettyText
    | none => throw (.catalog ("'" ++ name ++ "' is not in the catalog"))
  | none =>
    let names := catalog.componentNames
    host.line ("📚 " ++ names.length.repr ++ " catalog components:")
    host.indented (names.map (componentLine catalog))

/-! ## Runs -/

/-- Carries out an invocation. -/
def carryOut (host : Host m) (i : Invocation) : ExceptT Failure m Unit := do
  let settings ← loadSettings host i.settings
  match i.request with
  | .convert r => runConvert host settings r
  | .validate r => runValidate host settings r
  | .inspect r => runInspect host settings r
  | .catalog r => runCatalog host settings r
  | .none => host.line "No subcommand specified. Use --help for usage information."

/-- Runs the program on the words of a command line. -/
def run (host : Host m) (words : List String) : m Outcome := do
  match Invocation.ofWords words with
  | .error .usage => return .misused
  | .error .help => return .helped
  | .error .version =>
    host.print (about.name ++ " " ++ about.version ++ "\n")
    return .done
  | .ok invocation =>
    match ← carryOut host invocation with
    | .ok () => return .done
    | .error failure => return .failed failure

end

end DesignCompiler.Command
