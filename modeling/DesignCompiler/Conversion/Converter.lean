import DesignCompiler.Conversion.Options
import DesignCompiler.Conversion.Result
import DesignCompiler.Design.Store

/-!
# Converters

A converter takes documents through all stages: it builds the semantic tree, maps it, makes the
component source and validates it. One catalog serves all its conversions, so what one of them
looked up is in the cache for the next.
-/

namespace DesignCompiler

open Semantic (Builder)

/-- A catalog with the options of the conversions. -/
structure Converter where
  catalog : Catalog.Index
  options : ConversionOptions

namespace Converter

/-- The engine that maps with the catalog. -/
def engine (c : Converter) : Mapping.Engine :=
  .ofCatalog c.catalog c.options.mapping

/-- What the validation may look at. -/
def validationContext (c : Converter) : Validation.Context :=
  ⟨c.catalog, c.options.validation⟩

/-- The conversion of a semantic tree. -/
def conversionOf (c : Converter) (ingested : Builder) (root : Semantic.Node) : Conversion :=
  let mapped := c.engine.mapTree root
  let output :=
    Synthesis.synthesize c.options.synthesis mapped (c.options.componentName.getD root.name)
  { ingested, mapped, output
    validation :=
      if c.options.validatesOutput then
        some (Validation.validate c.validationContext output.sourceText) else none }

/-- The names that a conversion looks up in the catalog. -/
def lookupsOf (c : Converter) (root : Semantic.Node) (conversion : Conversion) : List String :=
  c.engine.treeLookups none root ++
    if c.options.validatesOutput then
      Validation.lookupsOf c.options.validation conversion.output.sourceText
    else []

/-- Converts a document, or its first node with the given identifier. -/
def convertDocument (c : Converter) (document : Design.Node) (id : Option String) :
    Converter × Except Failure Conversion :=
  match Builder.fresh.ingest document id with
  | (_, .error failure) => (c, .error failure)
  | (ingested, .ok root) =>
    let conversion := c.conversionOf ingested root
    ({ c with catalog := c.catalog.afterLookups (c.lookupsOf root conversion) }, .ok conversion)

/-- Converts what was fetched; it is the selected node already. -/
def convertFetched (c : Converter) (fetched : Except Failure Design.Node) :
    Converter × Except Failure Conversion :=
  match fetched with
  | .error failure => (c, .error failure)
  | .ok node => c.convertDocument node none

/-- Converts the node that a reference selects in a store. -/
def convert (c : Converter) (store : Design.Store) (reference : Design.Reference) :
    Converter × Except Failure Conversion :=
  c.convertFetched (store.fetch reference)

end Converter

end DesignCompiler
