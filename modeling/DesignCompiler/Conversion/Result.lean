import DesignCompiler.Mapping.Tree
import DesignCompiler.Semantic.Builder
import DesignCompiler.Synthesis.Source
import DesignCompiler.Validation.Verdict

/-!
# Results of conversions

Everything that a conversion made, and the figures that sum it up. All figures but the counts of
the ingestion can be read off the result itself.
-/

namespace DesignCompiler

/-- What a conversion made. -/
structure Conversion where
  /-- The nodes that were read. -/
  ingested : Semantic.Builder
  mapped : Mapping.MappedTree
  output : Synthesis.Output
  /-- The verdict on the source, if it was validated. -/
  validation : Option Validation.Verdict
deriving Inhabited

/-- The figures of a conversion. -/
structure ConversionStats where
  semanticNodes : Nat
  missingGeometry : Nat
  mappedComponents : Nat
  droppedNodes : Nat
  importCount : Nat
  /-- The size of the source in bytes. -/
  outputSize : Nat
  score : Option Nat
  errorCount : Nat
  warningCount : Nat
deriving DecidableEq, Repr

namespace Conversion

/-- All findings: those of the mapping, of the synthesis, and of the validation. -/
def diagnostics (c : Conversion) : List Diagnostic :=
  c.mapped.diagnostics ++ c.output.diagnostics ++ (c.validation.map (·.diagnostics)).getD []

/-- The figures of the conversion. -/
def stats (c : Conversion) : ConversionStats :=
  { semanticNodes := c.ingested.nodesBuilt
    missingGeometry := c.ingested.missingGeometry
    mappedComponents := c.mapped.count
    droppedNodes := (c.mapped.diagnostics.filter fun d => d.kind == .mapping).length
    importCount := c.output.imports.length
    outputSize := c.output.sourceText.utf8ByteSize
    score := c.validation.map (·.score)
    errorCount := (c.diagnostics.filter (·.isError)).length
    warningCount := (c.diagnostics.filter (!·.isError)).length }

end Conversion

/-- The figures as a value. No time is measured, so both times are zero. -/
def ConversionStats.toJson (s : ConversionStats) : Json :=
  .obj [("semantic_nodes", .ofNat s.semanticNodes),
    ("missing_geometry", .ofNat s.missingGeometry),
    ("mapped_components", .ofNat s.mappedComponents), ("dropped_nodes", .ofNat s.droppedNodes),
    ("import_count", .ofNat s.importCount), ("output_size", .ofNat s.outputSize),
    ("mapping_time_ms", .ofNat 0), ("total_time_ms", .ofNat 0),
    ("score", .ofOption .ofNat s.score), ("error_count", .ofNat s.errorCount),
    ("warning_count", .ofNat s.warningCount)]

/-- A conversion as a value. -/
def Conversion.toJson (c : Conversion) : Json :=
  .obj [("mapped", c.mapped.toJson), ("output", c.output.toJson),
    ("validation", .ofOption Validation.Verdict.toJson c.validation), ("stats", c.stats.toJson)]

end DesignCompiler
