import DesignCompiler.Json.Decoder

/-!
# Options of the synthesis
-/

namespace DesignCompiler.Synthesis

/-- How component sources are laid out. -/
structure Options where
  /-- The number of blanks of a level. -/
  indentWidth : Nat
  /-- The number of levels that a tree may have. -/
  maxDepth : Nat
  /-- The component is the default export of its module. -/
  defaultExport : Bool
  /-- The component carries a type. -/
  typed : Bool
deriving DecidableEq, Repr

namespace Options

/-- The usual layout. -/
def default : Options :=
  { indentWidth := 2, maxDepth := 64, defaultExport := true, typed := true }

instance : Inhabited Options := ⟨default⟩

/-- The names of the options in their declared order. -/
def fieldNames : List String :=
  ["indent_width", "max_depth", "default_export", "typed"]

/-- The options in a record; what it leaves out is as usual. -/
def ofRecord? (r : Record) : Option Options := do
  return {
    indentWidth := ← r.withDefault "indent_width" default.indentWidth Json.nat64?
    maxDepth := ← r.withDefault "max_depth" default.maxDepth Json.nat64?
    defaultExport := ← r.withDefault "default_export" default.defaultExport Json.bool?
    typed := ← r.withDefault "typed" default.typed Json.bool? }

end Options

end DesignCompiler.Synthesis
