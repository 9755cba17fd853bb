import DesignCompiler.Text.Split

/-!
# Elements

The elements of a component source as a scan reports them: tag, attributes, the tags around them,
and what stands between their tags.
-/

namespace DesignCompiler.Markup

/-- The value of an attribute. -/
inductive Value where
  /-- A bare attribute, which is set. -/
  | flag
  | text (s : String)
  /-- The text between braces. -/
  | expression (s : String)
deriving DecidableEq, Repr, Inhabited

/-- An attribute of an element. -/
structure Attribute where
  /-- Three dots for a spread. -/
  name : String
  value : Value
  line : Nat
deriving DecidableEq, Repr, Inhabited

namespace Attribute

/-- The name that a spread goes by. -/
def spreadName : String :=
  "..."

/-- Whether the attribute spreads an object. -/
def isSpread (a : Attribute) : Bool :=
  a.name == spreadName

/-- The text between the braces of an object literal, if the value is one. -/
def objectLiteral? (a : Attribute) : Option (List Char) :=
  match a.value with
  | .expression s => (Text.stripStart ['\x7b'] (Text.trim s.toList)).bind (Text.stripEnd ['\x7d'])
  | _ => none

end Attribute

/-- An element. -/
structure Element where
  /-- Empty for a fragment. -/
  tag : String
  attributes : List Attribute
  line : Nat
  /-- The tags of the elements around it, outermost first. -/
  ancestors : List String
  /-- The text directly between its tags, its words one space apart. -/
  text : String
  hasExpressionChild : Bool
  hasElementChild : Bool
  selfClosing : Bool
deriving DecidableEq, Repr, Inhabited

/-- The part of a tag before its first dot. -/
def rootOfTag (tag : String) : String :=
  String.ofList ((Text.splitAt '.' tag.toList).head?.getD [])

namespace Element

/-- The first attribute of that name. -/
def attribute? (e : Element) (name : String) : Option Attribute :=
  e.attributes.find? fun a => a.name == name

/-- Whether there is an attribute of that name. -/
def hasAttribute (e : Element) (name : String) : Bool :=
  (e.attribute? name).isSome

/-- Whether the element spreads an object into its attributes. -/
def hasSpread (e : Element) : Bool :=
  e.attributes.any (·.isSpread)

/-- Whether the element is a fragment. -/
def isFragment (e : Element) : Bool :=
  e.tag.isEmpty

/-- Whether the tag names a component: it starts with an ASCII capital or has a dot in it. -/
def isComponent (e : Element) : Bool :=
  (e.tag.toList.head?.map Char.isUpper).getD false || e.tag.toList.contains '.'

/-- The binding that the tag refers to. -/
def rootBinding (e : Element) : String :=
  rootOfTag e.tag

/-- Whether a text or an expression stands between the tags. -/
def hasTextContent (e : Element) : Bool :=
  !e.text.isEmpty || e.hasExpressionChild

/-- Whether anything stands between the tags. -/
def hasContent (e : Element) : Bool :=
  e.hasTextContent || e.hasElementChild

/-- Whether an element with that tag is around it. -/
def isInside (e : Element) (tag : String) : Bool :=
  e.ancestors.contains tag

end Element

/-- What a scan finds: elements, closing tags without an open one, and elements without a closing
tag, the last two with their lines. -/
structure Findings where
  elements : List Element
  unexpectedClosings : List (String × Nat)
  unclosed : List (String × Nat)
deriving DecidableEq, Repr, Inhabited

namespace Findings

/-- No findings. -/
def none : Findings :=
  ⟨[], [], []⟩

/-- The findings of one scan and then of another. -/
def append (a b : Findings) : Findings :=
  ⟨a.elements ++ b.elements, a.unexpectedClosings ++ b.unexpectedClosings,
    a.unclosed ++ b.unclosed⟩

instance : Append Findings := ⟨append⟩

/-- The finding of one element. -/
def element (e : Element) : Findings :=
  ⟨[e], [], []⟩

/-- The finding of one closing tag that closes nothing. -/
def unexpectedClosing (tag : String) (line : Nat) : Findings :=
  ⟨[], [(tag, line)], []⟩

/-- The finding of one element that is not closed. -/
def unclosedTag (tag : String) (line : Nat) : Findings :=
  ⟨[], [], [(tag, line)]⟩

end Findings

end DesignCompiler.Markup
