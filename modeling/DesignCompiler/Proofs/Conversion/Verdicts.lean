import DesignCompiler.Conversion.Converter
import DesignCompiler.Proofs.Conversion.Library
import DesignCompiler.Proofs.Validation.Verdicts

/-!
# Verdicts on conversions

A conversion checks what it made itself. With the built-in components it finds fault with it in
one case only:

* `Converter.validate_conversion` composes the stages: the mapping gives a tree of library
  components, its source is taken apart, and what is found conforms.
* `Converter.convertDocument_validated` states it of every document that is read: the verdict
  rejects exactly a form item outside of forms, and misses a label exactly on buttons without a
  text.
-/

namespace DesignCompiler

open Catalog (builtinSource)
open Markup (Structure)
open Semantic (Builder)
open Synthesis (Writes)

/-! ## The fallback -/

/-- The fallback gives the checks no cause. -/
theorem conforms_fallbackElement {catalog : Catalog.Index}
    (hcatalog : ∀ name, catalog.entry? name = builtinSource.entry? name) :
    Validation.Conforms catalog [] [Synthesis.fallbackElement] where
  bound e he hcomponent := by
    have hplain : Synthesis.fallbackElement.isComponent = false := by decide
    rw [List.mem_singleton.1 he, hplain] at hcomponent
    cases hcomponent
  used i hi := by cases hi
  current e he := by
    rw [List.mem_singleton.1 he]
    decide
  values e he entry hentry := by
    have hnone : builtinSource.entry? Synthesis.fallbackElement.tag = none := by decide +kernel
    rw [List.mem_singleton.1 he, hcatalog, hnone] at hentry
    cases hentry
  images e he himage := by
    have hplain : Validation.isImageLike Synthesis.fallbackElement = false := by decide
    rw [List.mem_singleton.1 he, hplain] at himage
    cases himage
  spreads e he := by
    rw [List.mem_singleton.1 he]
    decide
  handlers e he := by
    rw [List.mem_singleton.1 he]
    decide

/-! ## Conversions -/

namespace Converter

section Conversions

variable {converter : Converter} {lookups : List String} {ingested : Builder}
  {root : Semantic.Node}

/-- A converter with the built-in components maps with the rules for them. -/
theorem isLibraryEngine
    (hcatalog : converter.catalog = (Catalog.Index.ofSource builtinSource).afterLookups lookups) :
    IsLibraryEngine converter.engine :=
  ⟨rfl, lookups, hcatalog⟩

/-- The verdict on what a conversion made, whatever it came to. -/
theorem validate_conversion
    (hcatalog : converter.catalog = (Catalog.Index.ofSource builtinSource).afterLookups lookups)
    (hdepth : converter.options.synthesis.maxDepth ≤ Markup.maxNesting) :
    let conversion := converter.conversionOf ingested root
    let verdict := Validation.validate converter.validationContext conversion.output.sourceText
    (∃ s, Structure.ofText conversion.output.sourceText = .ok s) ∧
      (∀ d ∈ verdict.diagnostics,
        d.kind ∈ [.libraryUsage, .accessibility, .style] ∧
          (d.isError = true → d.kind = .libraryUsage)) ∧
      ((∃ d ∈ verdict.diagnostics, d.isError = true) ↔
        converter.options.validation.checkProps = true ∧
          Writes converter.options.synthesis conversion.mapped ∧
          ∃ p ∈ conversion.mapped.placed, p.2.component = "Form.Item" ∧ "Form" ∉ p.1) ∧
      (converter.options.validation.checkAccessibility = true →
        Writes converter.options.synthesis conversion.mapped →
        (verdict.diagnostics.filter fun d => d.kind == .accessibility).map (·.message) =
          (conversion.mapped.nodes.filter fun m => m.component == "Button" && m.text.isNone).map
            fun _ => silentButton) := by
  intro conversion verdict
  have hengine := isLibraryEngine hcatalog
  have hnodes := hengine.nodes root
  obtain ⟨s, hs, hwritten, hgiven⟩ :=
    Synthesis.exists_isMade_synthesize (.ofOptions converter.options.synthesis)
      (converter.options.componentName.getD root.name) hdepth (isLegible_of_nodes hnodes)
  have hs : Structure.ofText conversion.output.sourceText = .ok s := hs
  have htree : Validation.Conforms converter.validationContext.catalog _ _ :=
    conforms_of_nodes hengine.entry?_eq hnodes
  have hfallback : Validation.Conforms converter.validationContext.catalog _ _ :=
    conforms_fallbackElement hengine.entry?_eq
  refine ⟨⟨s, hs⟩, ?_, ?_, ?_⟩
  · intro d hd
    by_cases hwrites : Writes converter.options.synthesis conversion.mapped
    · exact Validation.kind_of_mem_validate hs (hwritten hwrites) htree hd
    · exact Validation.kind_of_mem_validate hs (hgiven hwrites) hfallback hd
  · by_cases hwrites : Writes converter.options.synthesis conversion.mapped
    · rw [Validation.exists_error_validate_iff hs (hwritten hwrites) htree,
        exists_orphan_iff hnodes]
      exact and_congr_right fun _ => (and_iff_right hwrites).symm
    · rw [Validation.exists_error_validate_iff hs (hgiven hwrites) hfallback]
      constructor
      · rintro ⟨-, e, he, htag, -⟩
        rw [List.mem_singleton.1 he] at htag
        exact absurd htag (by decide)
      · rintro ⟨-, hwrites', -⟩
        exact absurd hwrites' hwrites
  · intro hchecks hwrites
    rw [Validation.messages_validate hs (hwritten hwrites) htree hchecks]
    exact messages_shownTree hnodes

/-- **Conversions pass their own checks** but for form items outside of forms: with the built-in
components, whatever was looked up in them before, every document that is read gets a verdict on a
source that is taken apart. The verdict mentions nothing but the use of components, accessibility
and style. It has errors exactly when values and usage are checked and the tree was written with a
form item outside of forms, and all of them are about usage; the findings on accessibility are
those on buttons without a text, one for each. -/
theorem convertDocument_validated
    (hcatalog : converter.catalog = (Catalog.Index.ofSource builtinSource).afterLookups lookups)
    (hvalidates : converter.options.validatesOutput = true)
    (hdepth : converter.options.synthesis.maxDepth ≤ Markup.maxNesting) {document : Design.Node}
    {id : Option String} (hingested : (Builder.fresh.ingest document id).2 = .ok root) :
    ∃ conversion verdict,
      (converter.convertDocument document id).2 = .ok conversion ∧
      conversion.mapped = converter.engine.mapTree root ∧
      conversion.validation = some verdict ∧
      (∃ s, Structure.ofText conversion.output.sourceText = .ok s) ∧
      (∀ d ∈ verdict.diagnostics,
        d.kind ∈ [.libraryUsage, .accessibility, .style] ∧
          (d.isError = true → d.kind = .libraryUsage)) ∧
      ((∃ d ∈ verdict.diagnostics, d.isError = true) ↔
        converter.options.validation.checkProps = true ∧
          Writes converter.options.synthesis conversion.mapped ∧
          ∃ p ∈ conversion.mapped.placed, p.2.component = "Form.Item" ∧ "Form" ∉ p.1) ∧
      (converter.options.validation.checkAccessibility = true →
        Writes converter.options.synthesis conversion.mapped →
        (verdict.diagnostics.filter fun d => d.kind == .accessibility).map (·.message) =
          (conversion.mapped.nodes.filter fun m => m.component == "Button" && m.text.isNone).map
            fun _ => silentButton) := by
  obtain ⟨ingested, hread⟩ :
      ∃ ingested, Builder.fresh.ingest document id = (ingested, .ok root) :=
    ⟨_, Prod.ext rfl hingested⟩
  have hconverted : (converter.convertDocument document id).2 =
      .ok (converter.conversionOf ingested root) := by
    unfold convertDocument
    rw [hread]
  have hvalidation : (converter.conversionOf ingested root).validation = some (Validation.validate
      converter.validationContext (converter.conversionOf ingested root).output.sourceText) :=
    if_pos hvalidates
  exact ⟨_, _, hconverted, rfl, hvalidation, validate_conversion hcatalog hdepth⟩

end Conversions

/-- A document of one text. -/
def greeting : Design.Node :=
  { id := "1:2", name := "Greeting", kind := .text, bounds := none, fills := [], strokes := [],
    strokeWeight := none
    cornerRadius := none, opacity := none, effects := [], characters := some "Hello",
    style := none, visible := none
    locked := none, layoutMode := none, sizingMode := none, constraints := none,
    itemSpacing := none
    paddingLeft := none, paddingRight := none, paddingTop := none, paddingBottom := none,
    children := [] }

/-- The usual conversion of a text passes its own checks. -/
theorem convertDocument_validated_greeting :
    ∃ conversion verdict,
      (Converter.convertDocument ⟨.ofSource builtinSource, .default⟩ greeting (some "1:2")).2 =
        .ok conversion ∧
      conversion.validation = some verdict ∧
      (∃ s, Structure.ofText conversion.output.sourceText = .ok s) ∧
      ∀ d ∈ verdict.diagnostics, d.kind ∈ [.libraryUsage, .accessibility, .style] := by
  have hcatalog : (Converter.mk (.ofSource builtinSource) .default).catalog =
      (Catalog.Index.ofSource builtinSource).afterLookups [] := rfl
  have hingested : (Builder.fresh.ingest greeting (some "1:2")).2 =
      .ok (Builder.build .fresh greeting).2 := rfl
  obtain ⟨conversion, verdict, hconverted, -, hvalidation, hread, hkinds, -⟩ :=
    convertDocument_validated hcatalog rfl (by decide) hingested
  exact ⟨conversion, verdict, hconverted, hvalidation, hread, fun d hd => (hkinds d hd).1⟩

end Converter

end DesignCompiler
