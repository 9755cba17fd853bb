import DesignCompiler.Command.Settings
import DesignCompiler.Command.Switches
import DesignCompiler.Conversion.Options
import DesignCompiler.Files.Path

/-!
# Invocations

The commands of the program with their switches, and what they ask for.
-/

namespace DesignCompiler.Command

/-! ## Grammars -/

/-- The switch that every command has. -/
def helpSwitch : Switch :=
  ⟨"help", some 'h', .help, []⟩

/-- The words in front of the command. -/
def topGrammar : Grammar :=
  { switches := [⟨"config", some 'c', .single, []⟩, ⟨"verbose", some 'v', .count, []⟩, helpSwitch,
      ⟨"version", some 'V', .version, []⟩]
    operand := none }

/-- The words of `convert`. Converting again when the file changes is left to the surroundings. -/
def convertGrammar : Grammar :=
  { switches := [⟨"output", some 'o', .single, []⟩, ⟨"node", some 'n', .single, []⟩,
      ⟨"name", none, .single, []⟩, ⟨"catalog", none, .single, []⟩,
      ⟨"format", some 'f', .single, ["tsx", "json"]⟩, ⟨"debug", some 'd', .flag, []⟩,
      ⟨"no-validate", none, .flag, []⟩, ⟨"stats", none, .flag, []⟩,
      ⟨"watch", some 'w', .flag, []⟩, helpSwitch]
    operand := some ("input", true) }

/-- The groups of checks that `validate` can skip. -/
def skippableChecks : List String :=
  ["imports", "props", "accessibility", "performance", "best-practices"]

/-- The words of `validate`. -/
def validateGrammar : Grammar :=
  { switches := [⟨"recursive", some 'r', .flag, []⟩, ⟨"catalog", none, .single, []⟩,
      ⟨"skip", none, .many, skippableChecks⟩, helpSwitch]
    operand := some ("input", true) }

/-- The words of `inspect`. -/
def inspectGrammar : Grammar :=
  { switches := [⟨"output", some 'o', .single, []⟩, ⟨"node", some 'n', .single, []⟩,
      ⟨"catalog", none, .single, []⟩, ⟨"mappings", some 'm', .flag, []⟩, helpSwitch]
    operand := some ("input", true) }

/-- The words of `catalog`. -/
def catalogGrammar : Grammar :=
  { switches := [⟨"catalog", none, .single, []⟩, helpSwitch]
    operand := some ("name", false) }

/-- The commands. -/
def commandGrammars : List (String × Grammar) :=
  [("convert", convertGrammar), ("validate", validateGrammar), ("inspect", inspectGrammar),
    ("catalog", catalogGrammar)]

/-! ## Requests -/

/-- What `convert` writes. -/
inductive OutputFormat where
  | source
  /-- Everything that the conversion made. -/
  | report
deriving DecidableEq, Repr

/-- The ending of a file in a format. -/
def OutputFormat.extension : OutputFormat → String
  | .source => "tsx"
  | .report => "conversion.json"

/-- A request to convert a document file. -/
structure ConvertRequest where
  input : String
  output : Option String
  node : Option String
  name : Option String
  catalog : Option String
  format : OutputFormat
  skipsValidation : Bool
  showsStats : Bool
deriving DecidableEq, Repr

/-- A request to validate a source file, or all of them in a directory. -/
structure ValidateRequest where
  input : String
  recursive : Bool
  catalog : Option String
  skipped : List String
deriving DecidableEq, Repr

/-- A request to show the tree of a document file. -/
structure InspectRequest where
  input : String
  output : Option String
  node : Option String
  catalog : Option String
  showsMappings : Bool
deriving DecidableEq, Repr

/-- A request to list the catalog or to show one component. -/
structure CatalogRequest where
  name : Option String
  catalog : Option String
deriving DecidableEq, Repr

/-- What is asked for. -/
inductive Request where
  | convert (r : ConvertRequest)
  | validate (r : ValidateRequest)
  | inspect (r : InspectRequest)
  | catalog (r : CatalogRequest)
  /-- There is no command. -/
  | none
deriving DecidableEq, Repr

/-- A request with the path of a settings file. -/
structure Invocation where
  settings : Option String
  request : Request
deriving DecidableEq, Repr

/-- Whether a name was found. -/
def isFound (found : Matches) (name : String) : Bool :=
  (found.lookup name).isSome

/-- A node identifier as it is written in a link, with colons for its hyphens. -/
def nodeIdOf (id : String) : String :=
  String.ofList (Text.replace ['-'] [':'] id.toList)

/-- The request of a command. -/
def requestOf (command : String) (found : Matches) : Request :=
  let input := (found.lookup "input").getD ""
  let node := (found.lookup "node").map nodeIdOf
  let catalog := found.lookup "catalog"
  match command with
  | "convert" => .convert {
      input, output := found.lookup "output", node, name := found.lookup "name", catalog
      format := if found.lookup "format" == some "json" then .report else .source
      skipsValidation := isFound found "no-validate", showsStats := isFound found "stats" }
  | "validate" => .validate {
      input, recursive := isFound found "recursive", catalog
      skipped := (found.filter fun m => m.1 == "skip").map (·.2) }
  | "inspect" => .inspect {
      input, output := found.lookup "output", node, catalog,
      showsMappings := isFound found "mappings" }
  | "catalog" => .catalog { name := found.lookup "name", catalog }
  | _ => .none

/-- The invocation that words make. -/
def Invocation.ofWords (words : List String) : Except Stop Invocation :=
  (readFrom topGrammar commandGrammars .start words).map fun line =>
    { settings := line.found.lookup "config"
      request := match line.command with
        | some (command, found) => requestOf command found
        | none => .none }

/-! ## Requests with settings -/

/-- The path of the file that a conversion writes: the one that was asked for, else that of the
input with another extension, moved into the directory of the settings if they name one. -/
def ConvertRequest.outputPath (r : ConvertRequest) (settings : Settings) : String :=
  match r.output with
  | some path => path
  | none =>
    let path := Files.withExtension r.input r.format.extension
    match settings.outputDirectory, Files.fileName? path with
    | some directory, some name => Files.join directory name
    | _, _ => path

/-- The options of a conversion: what was asked for, else the settings, else the defaults. -/
def ConvertRequest.options (r : ConvertRequest) (settings : Settings) : ConversionOptions :=
  { componentName := r.name.or settings.componentName
    mapping := settings.mapping.getD .default
    synthesis := settings.synthesis.getD .default
    validation := settings.validation.getD .default
    validatesOutput := !r.skipsValidation && settings.validatesOutput.getD true }

/-- The options without one group of checks. -/
def skipCheck (options : Validation.Options) (check : String) : Validation.Options :=
  match check with
  | "imports" => { options with checkImports := false }
  | "props" => { options with checkProps := false }
  | "accessibility" => { options with checkAccessibility := false }
  | "performance" => { options with checkPerformance := false }
  | "best-practices" => { options with checkBestPractices := false }
  | _ => options

/-- The options of a validation. -/
def ValidateRequest.options (r : ValidateRequest) (settings : Settings) : Validation.Options :=
  r.skipped.foldl skipCheck (settings.validation.getD .default)

end DesignCompiler.Command
