import DesignCompiler.Catalog.Builtin
import DesignCompiler.Failure
import DesignCompiler.Json.Decoder
import DesignCompiler.Json.Reader

/-!
# Catalog files

A catalog file is a JSON object with component definitions by name. It may name the module of
definitions that name none, and it may ask for the built-in components as well, which its own
definitions shadow.
-/

namespace DesignCompiler.Catalog

/-- The contents of a catalog file. -/
structure File where
  components : KeyMap Definition
  extendsBuiltin : Bool

/-- A property in a value. -/
def Property.ofJson? (v : Json) : Option Property := do
  let r ← Record.ofJsonOnce? ["name", "type", "required", "default_value"] v
  return {
    name := ← r.required "name" Json.string?
    typeDescription := ← r.required "type" Json.string?
    required := ← r.withDefault "required" false Json.bool?
    defaultValue := ← r.nullable "default_value" Json.string? }

/-- A definition in a value. -/
def Definition.ofJson? (v : Json) : Option Definition := do
  let r ←
    Record.ofJsonOnce? ["displayName", "category", "module", "acceptedProperties", "examples"] v
  return {
    displayName := ← r.nullable "displayName" Json.string?
    category := ← r.nullable "category" fun v => v.word?.bind Category.ofDisplay?
    module := ← r.nullable "module" Json.string?
    properties := ← r.withDefault "acceptedProperties" [] (Json.list? Property.ofJson?)
    examples := ← r.withDefault "examples" [] (Json.list? Json.string?) }

/-- Definitions by name in a value; of two definitions of a name the later one counts. -/
def definitions? : Json → Option (KeyMap Definition)
  | .obj fields =>
    (fields.mapM fun (f : String × Json) => (Definition.ofJson? f.2).map fun d => (f.1, d)).map
      KeyMap.ofList
  | _ => none

/-- The catalog in a value. -/
def File.ofJson? (v : Json) : Option File := do
  let r ← Record.ofJsonOnce? ["module", "extendBuiltin", "components"] v
  let module ← r.nullable "module" Json.string?
  let extendsBuiltin ← r.withDefault "extendBuiltin" false Json.bool?
  let components ← r.required "components" definitions?
  return ⟨components.mapValues fun d => { d with module := d.module.or module }, extendsBuiltin⟩

/-- The catalog in a text. -/
def File.read (text : String) : Except Failure File :=
  match (Json.parse? text.toList).bind File.ofJson? with
  | some file => .ok file
  | none => .error .malformedCatalog

/-- The components of a catalog file, and behind them the built-in ones if the file asks for
them. -/
def File.source (f : File) : Source :=
  { names := f.components.keys ++ if f.extendsBuiltin then builtinSource.names else []
    definition? := fun name =>
      match f.components.find? name with
      | some d => some d
      | none => if f.extendsBuiltin then builtinSource.definition? name else none }

/-- The index of the catalog in a text; without a text it is the index of the built-in
components. -/
def indexOf : Option String → Except Failure Index
  | none => .ok (.ofSource builtinSource)
  | some text => (File.read text).map fun file => .ofSource file.source

end DesignCompiler.Catalog
