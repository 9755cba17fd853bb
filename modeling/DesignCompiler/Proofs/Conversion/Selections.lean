import DesignCompiler.Conversion.Converter
import DesignCompiler.Proofs.Design.Selection
import DesignCompiler.Proofs.KeyMap

/-!
# Ways to select a node

A node is selected when a document is fetched from a store or from an export, when a conversion
starts, or when an export is inspected. Each way narrows the document at another moment, some of
them twice. `selections_agree` says that it makes no difference: all of them come to the first
node with the identifier, or to the same failure.
-/

namespace DesignCompiler

open Design (Node Store readExport fetchExport first?_of_first? selectNode selectNode_some)
open Semantic (Builder)

section Builders

variable {id : String} {document node : Node} {failure : Failure}

theorem ingest_none (b : Builder) (document : Node) :
    b.ingest document none =
      ((Builder.build .fresh document).1, .ok (Builder.build .fresh document).2) := rfl

/-- The tree of a node that is found is built as if the node were the document. -/
theorem ingest_of_first? (b : Builder) (h : document.first? id = some node) :
    b.ingest document (some id) = b.ingest node none := by
  unfold Builder.ingest
  rw [selectNode_some, h]
  rfl

theorem ingest_of_first?_none (b : Builder) (h : document.first? id = none) :
    b.ingest document (some id) = (.fresh, .error (.nodeNotFound id)) := by
  unfold Builder.ingest
  rw [selectNode_some, h]
  rfl

end Builders

namespace Converter

section Conversions

variable {converter : Converter} {id : String} {document node : Node}

/-- A conversion of a whole document comes to a result. -/
theorem convertDocument_none (converter : Converter) (document : Node) :
    ∃ conversion, (converter.convertDocument document none).2 = .ok conversion := by
  unfold convertDocument
  rw [ingest_none]
  exact ⟨_, rfl⟩

theorem convertDocument_of_first? (h : document.first? id = some node) :
    converter.convertDocument document (some id) = converter.convertDocument node none := by
  unfold convertDocument
  rw [ingest_of_first? .fresh h]

theorem convertDocument_of_first?_none (h : document.first? id = none) :
    converter.convertDocument document (some id) = (converter, .error (.nodeNotFound id)) := by
  unfold convertDocument
  rw [ingest_of_first?_none .fresh h]

/-- A conversion selects its node as a source of documents does. -/
theorem convertFetched_selectNode (converter : Converter) (document : Node) (id : String) :
    converter.convertFetched (selectNode document (some id)) =
      converter.convertDocument document (some id) := by
  rw [selectNode_some]
  cases h : document.first? id with
  | some node => exact (convertDocument_of_first? h).symm
  | none => exact (convertDocument_of_first?_none h).symm

theorem fetch_insert (store : Store) (key : String) (document : Node) (id : Option String) :
    (store.insert key document).fetch ⟨key, id⟩ = selectNode document id := by
  unfold Store.fetch Store.insert
  rw [KeyMap.find?_insert_self]

end Conversions

/-- **All ways of selecting a node agree**, for every document, every text of an export and every
identifier.

A conversion out of a store that holds the document is the conversion of the document with the
identifier. It is the conversion of the first node that has the identifier, it comes to a result,
and narrowing that node once more changes nothing; or no node has the identifier, and it says so.

A node that was fetched from an export gives the tree that an inspection of the export shows, with
the same counts, or the same failure, and it is converted as the export is. That tree is built
from the first node with the identifier in what was read. -/
theorem selections_agree (converter : Converter) (store : Store) (key id text : String)
    (document : Node) :
    converter.convert (store.insert key document) ⟨key, some id⟩ =
      converter.convertDocument document (some id) ∧
    (match document.preorder.find? fun node => node.id == id with
      | some node =>
        converter.convertDocument document (some id) = converter.convertDocument node none ∧
          converter.convertDocument node (some id) = converter.convertDocument node none ∧
          ∃ conversion, (converter.convertDocument node none).2 = .ok conversion
      | none =>
        converter.convertDocument document (some id) = (converter, .error (.nodeNotFound id))) ∧
    ((fetchExport text (some id)).bind
      fun node => Builder.counted (Builder.fresh.ingest node none)) =
      Builder.fresh.ingestExport text (some id) ∧
    converter.convertFetched (fetchExport text (some id)) =
      (match readExport text (some id) with
        | .ok root => converter.convertDocument root (some id)
        | .error failure => (converter, .error failure)) ∧
    Builder.fresh.ingestExport text (some id) =
      (readExport text (some id)).bind fun root =>
        match root.preorder.find? fun node => node.id == id with
        | some node => .ok (Builder.build .fresh node)
        | none => .error (.nodeNotFound id) := by
  have hinspected (root : Node) : Builder.counted (Builder.fresh.ingest root (some id)) =
      match root.first? id with
      | some node => .ok (Builder.build .fresh node)
      | none => .error (.nodeNotFound id) := by
    cases h : root.first? id with
    | some node => rw [ingest_of_first? .fresh h]; rfl
    | none => rw [ingest_of_first?_none .fresh h]; rfl
  refine ⟨?_, ?_, ?_, ?_, ?_⟩
  · unfold convert
    rw [fetch_insert, convertFetched_selectNode]
  · cases h : document.preorder.find? fun node => node.id == id with
    | some node =>
      have hself : node.first? id = some node := first?_of_first? h
      exact ⟨convertDocument_of_first? h, convertDocument_of_first? hself,
        convertDocument_none converter node⟩
    | none => exact convertDocument_of_first?_none h
  · unfold fetchExport Builder.ingestExport
    cases readExport text (some id) with
    | error failure => rfl
    | ok root =>
      show (selectNode root (some id)).bind _ =
        Builder.counted (Builder.fresh.ingest root (some id))
      rw [hinspected, selectNode_some]
      cases root.first? id <;> rfl
  · unfold fetchExport
    cases readExport text (some id) with
    | error failure => rfl
    | ok root => exact convertFetched_selectNode converter root id
  · unfold Builder.ingestExport
    cases readExport text (some id) with
    | error failure => rfl
    | ok root => exact hinspected root

end Converter

end DesignCompiler
