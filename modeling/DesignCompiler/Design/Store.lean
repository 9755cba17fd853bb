import DesignCompiler.Design.Export
import DesignCompiler.Design.Reference

/-!
# Document stores

Documents held in memory under their keys.
-/

namespace DesignCompiler.Design

/-- Documents by key. -/
structure Store where
  documents : KeyMap Node
deriving Inhabited

namespace Store

/-- The store without documents. -/
def empty : Store :=
  ⟨∅⟩

/-- The store with a document put in; one with the same key gives way. -/
def insert (s : Store) (key : String) (root : Node) : Store :=
  ⟨s.documents.insert key root⟩

/-- The node that a reference selects. -/
def fetch (s : Store) (reference : Reference) : Except Failure Node :=
  match s.documents.find? reference.key with
  | some root => selectNode root reference.nodeId
  | none => .error (.documentNotFound reference.key)

end Store

end DesignCompiler.Design
