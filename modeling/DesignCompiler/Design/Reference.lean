import DesignCompiler.Failure
import DesignCompiler.Files.Path
import DesignCompiler.Text.Split

/-!
# References to documents

A document is named by its key, and a reference may also select a node in it. A share link is a
reference: its key is the path segment after the first of the words `file`, `design` and `proto`,
and its query may name a node, in which a hyphen stands for a colon.
-/

namespace DesignCompiler.Design

/-- A document and possibly a node in it. -/
structure Reference where
  key : String
  nodeId : Option String
deriving DecidableEq, Repr

namespace Reference

/-- The words in a link after which the key stands. -/
def markers : List (List Char) :=
  ["file".toList, "design".toList, "proto".toList]

/-- The segment after the first marker, unless the marker is the last segment. -/
def keyAfterMarker? : List (List Char) → Option (List Char)
  | [] => none
  | segment :: rest => if markers.contains segment then rest.head? else keyAfterMarker? rest

/-- A node identifier as it is written in a link, with its colons put back. -/
def decodeNodeId (value : List Char) : List Char :=
  Text.replace ['-'] [':'] (Text.replace "%3A".toList [':'] value)

/-- The value of the first parameter `node-id` of a query. -/
def nodeIdOf? (query : List Char) : Option (List Char) :=
  (((Text.splitAt '&' query).filterMap (Text.splitFirst '=')).find?
    fun p => p.1 == "node-id".toList).map
    fun p => decodeNodeId p.2

/-- The reference in a text, which is a bare key or a link. -/
def ofText (text : String) : Reference :=
  let reference := Text.trim text.toList
  let (path, query) := match Text.splitFirst '?' reference with
    | some (path, query) => (path, some query)
    | none => (reference, none)
  let key := (keyAfterMarker? (Text.splitAt '/' path)).getD path
  ⟨String.ofList key, (query.bind nodeIdOf?).map String.ofList⟩

/-- The key, and the node after a number sign. -/
def display (r : Reference) : String :=
  match r.nodeId with
  | some id => r.key ++ "#" ++ id
  | none => r.key

/-- The file of the document in a directory. -/
def pathIn (directory : String) (r : Reference) : String :=
  Files.join directory (r.key ++ ".json")

/-- The directory of a document file and the reference to it, which is the file name without its
extension. -/
def ofFile (path : String) : Except Failure (String × Reference) :=
  match Files.fileStem? path with
  | some stem => .ok (Files.parent path, ⟨stem, none⟩)
  | none => .error (.invalidFormat ("not a document path: " ++ path))

end Reference

end DesignCompiler.Design
