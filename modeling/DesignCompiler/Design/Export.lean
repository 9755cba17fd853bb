import DesignCompiler.Design.Format
import DesignCompiler.Failure
import DesignCompiler.Json.Reader

/-!
# Exported documents

The node in the text of an exported document. An export is a bare node, an object with the root
under `document`, or the answer to a look-up of nodes, which holds each of them under its
identifier in `nodes`.
-/

namespace DesignCompiler.Design

/-- The value itself, or the one under `document` if there is such a field. -/
def documentValue (v : Json) : Json :=
  (v.field? "document").getD v

/-- The value of a looked-up node in an export. -/
def lookedUp? (id : String) (v : Json) : Option Json :=
  ((v.field? "nodes").bind (·.field? id)).map documentValue

/-- The node in a value. -/
def readNode (v : Json) : Except Failure Node :=
  match Node.ofJson? v with
  | some node => .ok node
  | none => .error .malformedJson

/-- The node in an export: the looked-up node if one with the identifier was looked up, else the
root. -/
def readExport (text : String) (id : Option String) : Except Failure Node :=
  match Json.parseDocument? text.toList with
  | none => .error .malformedJson
  | some v =>
    let v := v.canonical
    match id.bind fun id => lookedUp? id v with
    | some looked => readNode looked
    | none =>
      match documentValue v with
      | .obj fields => readNode (.obj fields)
      | _ => .error (.invalidFormat "document root is not an object")

/-- The tree itself, or its first node with the given identifier. -/
def selectNode (root : Node) : Option String → Except Failure Node
  | none => .ok root
  | some id =>
    match root.find? id with
    | some node => .ok node
    | none => .error (.nodeNotFound id)

/-- The node that is selected in an export. A looked-up node is searched as well, for its own
identifier may be another one. -/
def fetchExport (text : String) (id : Option String) : Except Failure Node :=
  (readExport text id).bind fun root => selectNode root id

end DesignCompiler.Design
