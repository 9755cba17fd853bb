import DesignCompiler.Catalog.Entry
import DesignCompiler.Mapping.Tree
import DesignCompiler.Synthesis.Literal
import DesignCompiler.Synthesis.Options

/-!
# Elements

Writing a mapped tree as nested elements, one tag a line. The work ends at the first node that
cannot be written; a draft holds what was written until then, the bindings that it needs, and what
went wrong.
-/

namespace DesignCompiler.Synthesis

open Mapping (MappedNode)

/-- Why a node cannot be written. -/
inductive Fault where
  | missingEntry (component nodeId : String)
  | invalidTag (tag : String)
  | invalidAttribute (tag name : String)
  | tooDeep (limit : Nat)
deriving DecidableEq, Repr

/-- The text of a fault. -/
def Fault.message : Fault → String
  | .missingEntry component nodeId =>
    "no catalog entry for component '" ++ component ++ "' (node " ++ nodeId ++ ")"
  | .invalidTag tag => "'" ++ tag ++ "' is not a valid JSX tag name"
  | .invalidAttribute tag name => "'" ++ name ++ "' is not a valid attribute name on " ++ tag
  | .tooDeep limit => "component tree nested deeper than " ++ limit.repr ++ " levels"

/-! ## Drafts -/

/-- What has been written so far. -/
structure Draft where
  text : List Char
  /-- Modules and the bindings that are imported from them, in the order of their use. -/
  imports : List (String × String)
  fault : Option Fault
deriving DecidableEq, Repr

namespace Draft

/-- Nothing has been written. -/
def empty : Draft :=
  ⟨[], [], none⟩

instance : Inhabited Draft := ⟨empty⟩

/-- A text alone. -/
def ofText (text : List Char) : Draft :=
  ⟨text, [], none⟩

/-- The end of the work. -/
def failed (fault : Fault) : Draft :=
  ⟨[], [], some fault⟩

/-- One draft and then another; behind a fault nothing is written. -/
def append (a b : Draft) : Draft :=
  match a.fault with
  | some _ => a
  | none => ⟨a.text ++ b.text, a.imports ++ b.imports, b.fault⟩

instance : Append Draft := ⟨append⟩

end Draft

/-! ## Writing -/

/-- The blanks in front of a line. -/
def indentation (options : Options) (level : Nat) : List Char :=
  List.replicate (level * options.indentWidth) ' '

/-- A line on a level. -/
def line (options : Options) (level : Nat) (text : List Char) : List Char :=
  indentation options level ++ (text ++ ['\n'])

/-- The entry of a node that can be written on its depth, apart from the nodes below it. -/
def writableEntry (options : Options) (depth : Nat) (node : MappedNode) :
    Except Fault Catalog.Entry :=
  if options.maxDepth ≤ depth then .error (.tooDeep options.maxDepth)
  else
    match node.entry with
    | none => .error (.missingEntry node.component node.nodeId)
    | some entry =>
      if Catalog.isComponentName entry.name then
        match node.props.keys.find? fun name => !isAttributeName name with
        | some name => .error (.invalidAttribute entry.name name)
        | none => .ok entry
      else .error (.invalidTag entry.name)

/-- The attributes of a node, the style behind its properties. -/
def attributesOf (node : MappedNode) : List (List Char) :=
  node.props.entries.filterMap (fun p => attributeText p.1 p.2) ++
    match node.style with
    | some style => if style.isEmpty then [] else ["style=".toList ++ styleText style]
    | none => []

/-- The opening tag of a node without its end. -/
def openingText (entry : Catalog.Entry) (node : MappedNode) : List Char :=
  '<' :: (entry.name.toList ++ (attributesOf node).flatMap (' ' :: ·))

/-- The closing tag of an entry. -/
def closingText (entry : Catalog.Entry) : List Char :=
  '<' :: '/' :: (entry.name.toList ++ ['>'])

/-- The lines of a node without children. -/
def leafText (options : Options) (depth : Nat) (entry : Catalog.Entry) (node : MappedNode) :
    List Char :=
  line options (depth + 2) (openingText entry node ++
    match node.text with
    | some text => '>' :: (childText text ++ closingText entry)
    | none => " />".toList)

/-- The lines of a node in front of its children. -/
def headText (options : Options) (depth : Nat) (entry : Catalog.Entry) (node : MappedNode) :
    List Char :=
  line options (depth + 2) (openingText entry node ++ ['>']) ++
    match node.text with
    | some text => line options (depth + 3) (childText text)
    | none => []

mutual

/-- Writes the tree of a node, two levels further in than its depth. -/
def write (options : Options) (depth : Nat) : MappedNode → Draft
  | node@⟨_, _, _, _, _, _, _, _, children⟩ =>
    match writableEntry options depth node with
    | .error fault => .failed fault
    | .ok entry =>
      ⟨[], [(entry.module, entry.importName)], none⟩ ++
        match children with
        | [] => .ofText (leafText options depth entry node)
        | first :: rest =>
          .ofText (headText options depth entry node) ++
            writeAll options (depth + 1) (first :: rest) ++
            .ofText (line options (depth + 2) (closingText entry))

/-- Writes trees one after the other. -/
def writeAll (options : Options) (depth : Nat) : List MappedNode → Draft
  | [] => .empty
  | node :: rest => write options depth node ++ writeAll options depth rest

end

end DesignCompiler.Synthesis
