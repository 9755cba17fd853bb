import DesignCompiler.Catalog.Entry
import DesignCompiler.Json.Decoder

/-!
# Options of the checks
-/

namespace DesignCompiler.Validation

/-- Which groups of checks run, and their limits. Tags are always paired. -/
structure Options where
  checkImports : Bool
  /-- Values of properties and the use of library components. -/
  checkProps : Bool
  checkAccessibility : Bool
  checkPerformance : Bool
  /-- Names, the size of the source, and inline styles. -/
  checkBestPractices : Bool
  /-- The module whose named imports count as library components. -/
  libraryModule : String
  maxTags : Nat
  maxInlineStyleDeclarations : Nat
deriving DecidableEq, Repr

namespace Options

/-- All checks with their usual limits. -/
def default : Options :=
  { checkImports := true, checkProps := true, checkAccessibility := true, checkPerformance := true
    checkBestPractices := true, libraryModule := Catalog.libraryModule, maxTags := 10
    maxInlineStyleDeclarations := 5 }

instance : Inhabited Options := ⟨default⟩

/-- The names of the options in their declared order. -/
def fieldNames : List String :=
  ["check_imports", "check_props", "check_accessibility", "check_performance",
    "check_best_practices", "library_module", "max_tags", "max_inline_style_declarations"]

/-- The options in a record; what it leaves out is as usual. -/
def ofRecord? (r : Record) : Option Options := do
  return {
    checkImports := ← r.withDefault "check_imports" default.checkImports Json.bool?
    checkProps := ← r.withDefault "check_props" default.checkProps Json.bool?
    checkAccessibility := ← r.withDefault "check_accessibility" default.checkAccessibility
      Json.bool?
    checkPerformance := ← r.withDefault "check_performance" default.checkPerformance Json.bool?
    checkBestPractices := ← r.withDefault "check_best_practices" default.checkBestPractices
      Json.bool?
    libraryModule := ← r.withDefault "library_module" default.libraryModule Json.string?
    maxTags := ← r.withDefault "max_tags" default.maxTags Json.nat64?
    maxInlineStyleDeclarations :=
      ← r.withDefault "max_inline_style_declarations" default.maxInlineStyleDeclarations
        Json.nat64? }

end Options

end DesignCompiler.Validation
