import DesignCompiler.Conversion.Converter
import DesignCompiler.Proofs.Catalog.Traffic

/-!
# Used catalogs

Conversions and validations ask a catalog for entries, and from then on the entries are in its
cache. What they come to depends on the answers of the catalog only
(`Mapping.Engine.mapTree_congr`, `Validation.validate_congr`, `Converter.convertDocument_congr`),
and a used index answers as a fresh one does as long as its source stays the same
(`Reached.entry?_eq`).

`lookups_converge` has this, and what is left of it for a source with other answers every time:
the callers agree on the entry that was stored first.
-/

namespace DesignCompiler

open Catalog (Entry Index Source Traffic Turn)

/-! ## What depends on the answers of a catalog -/

namespace Mapping.Engine

variable {engine other : Engine}

/-- The best candidate for a node depends on the answers of the catalog. -/
theorem best?_congr (hrules : engine.rules = other.rules) (hconfig : engine.config = other.config)
    (hcatalog : ∀ name, engine.catalog.entry? name = other.catalog.entry? name)
    (node : Semantic.Node) (context : Option String) :
    engine.best? node context = other.best? node context := by
  have hcandidate : engine.candidate? node context = other.candidate? node context := by
    funext p
    unfold candidate? score
    rw [hconfig, hcatalog]
  unfold best? candidates
  rw [hcandidate, hrules]

mutual

/-- A mapped tree depends on the best candidates of its nodes. -/
theorem mapNode_congr (hconfig : engine.config = other.config)
    (hbest : ∀ node context, engine.best? node context = other.best? node context)
    (context : Option String) :
    (node : Semantic.Node) → engine.mapNode context node = other.mapNode context node
  | ⟨_, _, _, _, _, _, _, children⟩ => by
    unfold mapNode
    rw [hbest, hconfig]
    cases other.best? _ context with
    | none => rfl
    | some c => simp only [mapChildren_congr hconfig hbest _ _ children]

theorem mapChildren_congr (hconfig : engine.config = other.config)
    (hbest : ∀ node context, engine.best? node context = other.best? node context)
    (context : String)
    (label : Option Nat) : (children : List Semantic.Node) →
    engine.mapChildren context label children = other.mapChildren context label children
  | [] => by
    unfold mapChildren
    rfl
  | child :: rest => by
    unfold mapChildren
    simp only [mapNode_congr hconfig hbest _ child, mapChildren_congr hconfig hbest _ _ rest]

end

theorem mapTree_congr (hconfig : engine.config = other.config)
    (hbest : ∀ node context, engine.best? node context = other.best? node context)
    (root : Semantic.Node) :
    engine.mapTree root = other.mapTree root := by
  unfold mapTree
  rw [mapNode_congr hconfig hbest]

end Mapping.Engine

section Congruence

variable {i j : Index}

/-- Of all rules only the one on values asks the catalog. -/
theorem Validation.validate_congr (h : ∀ name, i.entry? name = j.entry? name)
    (options : Validation.Options) (source : String) :
    validate ⟨i, options⟩ source = validate ⟨j, options⟩ source := by
  have hvalues (s : Markup.Structure) :
      valueRule.write ⟨i, options⟩ s = valueRule.write ⟨j, options⟩ s := by
    have helement : elementValueFindings ⟨i, options⟩ s =
        elementValueFindings ⟨j, options⟩ s := by
      funext e
      unfold elementValueFindings
      rw [h]
    funext report
    show report.pushEach _ = report.pushEach _
    rw [helement]
  have hwrites (s : Markup.Structure) : ∀ rule ∈ defaultRules,
      rule.write ⟨i, options⟩ s = rule.write ⟨j, options⟩ s := by
    simp only [defaultRules, List.forall_mem_cons, hvalues, true_and]
    exact ⟨rfl, rfl, rfl, rfl, rfl, rfl, rfl, List.forall_mem_nil _⟩
  unfold validate validateWith
  cases Markup.Structure.ofText source with
  | error => rfl
  | ok s =>
    apply congrArg Verdict.ofReport
    apply List.foldl_ext
    intro report rule hrule
    rw [hwrites s rule (List.mem_of_mem_filter hrule)]

/-- A conversion depends on the answers of the catalog. -/
theorem Converter.convertDocument_congr (h : ∀ name, i.entry? name = j.entry? name)
    (options : ConversionOptions) (document : Design.Node) (id : Option String) :
    (convertDocument ⟨i, options⟩ document id).2 =
      (convertDocument ⟨j, options⟩ document id).2 := by
  have hconversion (ingested : Semantic.Builder) (root : Semantic.Node) :
      conversionOf ⟨i, options⟩ ingested root = conversionOf ⟨j, options⟩ ingested root := by
    have hbest (node : Semantic.Node) (context : Option String) :
        (engine ⟨i, options⟩).best? node context = (engine ⟨j, options⟩).best? node context := by
      apply Mapping.Engine.best?_congr
      · rfl
      · rfl
      · exact h
    have htree : (engine ⟨i, options⟩).mapTree root = (engine ⟨j, options⟩).mapTree root := by
      apply Mapping.Engine.mapTree_congr
      · rfl
      · exact hbest
    have hverdict (source : String) :
        Validation.validate (validationContext ⟨i, options⟩) source =
          Validation.validate (validationContext ⟨j, options⟩) source :=
      Validation.validate_congr h options.validation source
    unfold conversionOf
    simp only [htree, hverdict]
  unfold convertDocument
  cases Semantic.Builder.fresh.ingest document id with
  | mk ingested result =>
    cases result with
    | error => rfl
    | ok root => exact congrArg Except.ok (hconversion ingested root)

end Congruence

/-! ## Used indexes -/

/-- The indexes that come of any work with a source that stays the same: of look-ups at the same
time, of conversions and of validations, each on what the work before has left. -/
inductive Reached (source : Source) : Index → Prop where
  | fresh : Reached source (.ofSource source)
  | traffic {i : Index} (names : List String) (turns : List Turn)
      (hnow : ∀ turn ∈ turns, turn.now = source) (h : Reached source i) :
      Reached source ((Traffic.start i names).run turns).index
  | conversion {i : Index} (options : ConversionOptions) (document : Design.Node)
      (id : Option String) (h : Reached source i) :
      Reached source (Converter.convertDocument ⟨i, options⟩ document id).1.catalog
  | validation {i : Index} (options : Validation.Options) (text : String) (h : Reached source i) :
      Reached source (i.afterLookups (Validation.lookupsOf options text))

section Used

variable {source : Source} {i : Index}

/-- A conversion leaves the index of its look-ups. -/
theorem Converter.catalog_convertDocument (converter : Converter) (document : Design.Node)
    (id : Option String) :
    ∃ names, (converter.convertDocument document id).1.catalog =
      converter.catalog.afterLookups names := by
  unfold convertDocument
  cases Semantic.Builder.fresh.ingest document id with
  | mk ingested result =>
    cases result with
    | error => exact ⟨[], rfl⟩
    | ok root => exact ⟨_, rfl⟩

/-- Whatever an index was used for, its source is the same and its cache holds what the source
has. -/
theorem Reached.faithful (h : Reached source i) : i.source = source ∧ i.Faithful := by
  induction h with
  | fresh => exact ⟨rfl, Index.faithful_ofSource source⟩
  | traffic names turns hnow h ih =>
    have hsettled := Traffic.settled_run (Traffic.settled_start ih.1 ih.2 names) hnow
    exact ⟨hsettled.source_eq, hsettled.faithful⟩
  | @conversion i options document id h ih =>
    obtain ⟨names, hcatalog⟩ := Converter.catalog_convertDocument ⟨i, options⟩ document id
    rw [hcatalog]
    exact ⟨(Index.source_afterLookups i names).trans ih.1, Index.faithful_afterLookups ih.2 names⟩
  | @validation i options text h ih =>
    exact ⟨(Index.source_afterLookups i _).trans ih.1, Index.faithful_afterLookups ih.2 _⟩

/-- A used index answers as its source does. -/
theorem Reached.entry?_eq (h : Reached source i) (name : String) :
    i.entry? name = source.entry? name := by
  obtain ⟨hsource, hfaithful⟩ := h.faithful
  rw [hfaithful.entry?_eq, hsource]

/-- An index makes no difference to what its source says. -/
structure Transparent (source : Source) (i : Index) : Prop where
  /-- A look-up on its own returns what the source has. -/
  get : ∀ name, (i.get name).2 = source.entry? name
  /-- So do look-ups at the same time. -/
  traffic : ∀ names turns, (∀ turn ∈ turns, turn.now = source) →
    ∀ (k : Nat) (name : String) result,
    ((Traffic.start i names).run turns).lookups[k]? = some (.answered name result) →
    result = source.entry? name
  /-- A conversion is the one with a new index. -/
  conversion : ∀ options document id, (Converter.convertDocument ⟨i, options⟩ document id).2 =
    (Converter.convertDocument ⟨.ofSource source, options⟩ document id).2
  /-- A validation is the one with a new index. -/
  validation : ∀ options text, Validation.validate ⟨i, options⟩ text =
    Validation.validate ⟨.ofSource source, options⟩ text

theorem Reached.transparent (h : Reached source i) : Transparent source i := by
  have hsame : ∀ name, i.entry? name = Index.entry? (.ofSource source) name := h.entry?_eq
  refine { get := ?_, traffic := ?_, conversion := ?_, validation := ?_ }
  · intro name
    rw [Index.get_snd, h.entry?_eq]
  · intro names turns hnow k name result hanswered
    obtain ⟨hsource, hfaithful⟩ := h.faithful
    have hsettled := Traffic.settled_run (Traffic.settled_start hsource hfaithful names) hnow
    exact hsettled.lookups k _ hanswered
  · intro options document id
    exact Converter.convertDocument_congr hsame options document id
  · intro options text
    exact Validation.validate_congr hsame options text

end Used

/-- **The cache of a catalog is read through, and its callers converge.**

For any number of look-ups in a new index, with their steps in any order, and for a source that
may have other answers every time: who succeeds returns the entry that was stored first, no entry
is replaced, who fails had no entry from the source and changes nothing, and the count is that of
the names for which an entry was stored. If the source stays the same, then after any look-ups,
conversions and validations every look-up returns what the source has, and a conversion or a
validation comes to the same as with a new index. -/
theorem lookups_converge (source : Source) :
    (∀ names turns, (Traffic.start (.ofSource source) names).Converges turns) ∧
      ∀ i, Reached source i → Transparent source i :=
  ⟨Traffic.converges_start source, fun _ h => h.transparent⟩

/-- A source of a button from the given module. -/
def buttonSource (module : String) : Source where
  names := ["Button"]
  definition? name := if name = "Button" then
    some { (default : Catalog.Definition) with module := some module } else none

/-- Two callers who want a button. -/
def racingStart : Traffic :=
  .start (.ofSource (buttonSource "early")) ["Button", "Button"]

/-- Both of them miss the button and find another definition of it, and the second one is the
first to store. -/
def racingTurns : List Turn :=
  [⟨0, buttonSource "early"⟩, ⟨1, buttonSource "early"⟩, ⟨0, buttonSource "early"⟩,
    ⟨1, buttonSource "late"⟩, ⟨1, buttonSource "late"⟩, ⟨0, buttonSource "late"⟩]

/-- Both callers get the button that was stored first, and there is no other one. When the source
stays the same, an index in which the first of them has looked the button up is as good as a new
one. -/
theorem lookups_converge_racing :
    (∃ entry : Entry, entry.module = "late" ∧
      (racingStart.run racingTurns).lookups =
        [.answered "Button" (some entry), .answered "Button" (some entry)] ∧
      (racingStart.insertions racingTurns).lookup "Button" = some entry ∧
      (racingStart.run racingTurns).index.cachedCount = 1) ∧
    Transparent (buttonSource "early")
      (racingStart.run (List.replicate 3 ⟨0, buttonSource "early"⟩)).index := by
  have hconverge : racingStart.Converges racingTurns :=
    (lookups_converge (buttonSource "early")).1 _ racingTurns
  obtain ⟨entry, hmodule, hlookups⟩ : ∃ entry : Entry, entry.module = "late" ∧
      (racingStart.run racingTurns).lookups =
        [.answered "Button" (some entry), .answered "Button" (some entry)] := by
    let late : Source := buttonSource "late"
    exact ⟨(late.entry? "Button").get (by decide +kernel), by decide +kernel, by decide +kernel⟩
  refine ⟨⟨entry, hmodule, hlookups, ?_, ?_⟩, ?_⟩
  · apply hconverge.first 0 "Button" entry
    rw [hlookups]
    rfl
  · rw [hconverge.counted]
    decide +kernel
  · apply (lookups_converge (buttonSource "early")).2
    apply Reached.traffic
    · intro turn hturn
      rw [List.eq_of_mem_replicate hturn]
    · exact Reached.fresh

end DesignCompiler
