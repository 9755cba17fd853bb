import DesignCompiler.Failure
import DesignCompiler.Json.Reader
import DesignCompiler.Mapping.Config
import DesignCompiler.Synthesis.Options
import DesignCompiler.Toml.Reader
import DesignCompiler.Validation.Options

/-!
# Settings files

Settings that hold where the command line says nothing. They are a JSON or a TOML text, by the
ending of its path.
-/

namespace DesignCompiler.Command

/-- What a settings file can set. -/
structure Settings where
  mapping : Option Mapping.Config
  synthesis : Option Synthesis.Options
  validation : Option Validation.Options
  /-- The path of a catalog file. -/
  catalog : Option String
  componentName : Option String
  validatesOutput : Option Bool
  outputDirectory : Option String
deriving Repr

namespace Settings

/-- No settings. -/
def empty : Settings :=
  ⟨none, none, none, none, none, none, none⟩

instance : Inhabited Settings := ⟨empty⟩

/-- The names of the settings in their declared order. -/
def fieldNames : List String :=
  ["mapping", "synthesis", "validator", "catalog", "component_name", "validate_output",
    "output_directory"]

/-- The settings in a value, doubles read in the given way. -/
def ofJson? (float? : Json → Option Float) (v : Json) : Option Settings := do
  let r ← Record.ofJsonOnce? fieldNames v
  return {
    mapping := ← r.nullableItem "mapping" fun v =>
      (Record.ofJsonOnce? Mapping.Config.fieldNames v).bind (Mapping.Config.ofRecord? float?)
    synthesis := ← r.nullableItem "synthesis" fun v =>
      (Record.ofJsonOnce? Synthesis.Options.fieldNames v).bind Synthesis.Options.ofRecord?
    validation := ← r.nullableItem "validator" fun v =>
      (Record.ofJsonOnce? Validation.Options.fieldNames v).bind Validation.Options.ofRecord?
    catalog := ← r.nullableItem "catalog" Json.string?
    componentName := ← r.nullableItem "component_name" Json.string?
    validatesOutput := ← r.nullableItem "validate_output" Json.bool?
    outputDirectory := ← r.nullableItem "output_directory" Json.string? }

/-- The settings in a value that was read, or the failure with the given reason. -/
def orInvalid (reason : String) : Option Settings → Except Failure Settings
  | some settings => .ok settings
  | none => .error (.invalidFormat reason)

/-- The settings in the text of a file. -/
def ofText (path text : String) : Except Failure Settings :=
  if Text.endsWith ".json".toList path.toList then
    orInvalid "Invalid JSON config:" ((Json.parse? text.toList).bind (ofJson? Json.float?))
  else if Text.endsWith ".toml".toList path.toList then
    orInvalid "Invalid TOML config:" ((Toml.parse? text.toList).bind (ofJson? Json.anyFloat?))
  else .error (.invalidFormat "Config file must be .json or .toml format")

end Settings

end DesignCompiler.Command
