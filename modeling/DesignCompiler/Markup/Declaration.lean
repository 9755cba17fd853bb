import DesignCompiler.Text.Pattern
import DesignCompiler.Text.Split

/-!
# Imports and component declarations

The import statements of a component source and the declarations of functions that may be
components. Both are found by patterns at the start of a line; nothing else in the source is
understood for this.
-/

namespace DesignCompiler.Markup

open Text (Pattern Capture isBlank isWordChar)

/-! ## Imports -/

/-- A binding in braces: its name in the module and its name here. -/
structure NamedImport where
  imported : String
  bound : String
deriving DecidableEq, Repr, Inhabited

/-- An import statement. -/
structure Import where
  module : String
  defaultName : Option String
  namespaceName : Option String
  named : List NamedImport
  line : Nat
deriving DecidableEq, Repr, Inhabited

/-- The names that an import binds. -/
def Import.locals (i : Import) : List String :=
  i.defaultName.toList ++ i.namespaceName.toList ++ i.named.map (·.bound)

/-- The parts of an import statement. -/
inductive ImportPart where
  | keyword
  | clause
  | module
deriving DecidableEq, Repr

/-- Single and double quotes. -/
def isPlainQuote (c : Char) : Bool :=
  c == '\x27' || c == '"'

/-- The keyword at the start of a line. -/
def importKeyword : Pattern ImportPart :=
  .sequence [.lineStart, .run (fun c => c == ' ' || c == '\t') 0,
    .part .keyword (.literal "import")]

/-- The module in quotes. -/
def importModule : Pattern ImportPart :=
  .sequence [.one isPlainQuote, .part .module (.run (!isPlainQuote ·) 1), .one isPlainQuote]

/-- An import of bindings from a module. -/
def importFrom : Pattern ImportPart :=
  .sequence [importKeyword, .run isBlank 1,
    .optional (.sequence [.literal "type", .run isBlank 1]),
    .part .clause (.fewest (fun c => c != ';' && !isPlainQuote c) 0), .run isBlank 1,
    .literal "from", .run isBlank 1, importModule]

/-- An import of a module for its effects. -/
def importBare : Pattern ImportPart :=
  .sequence [importKeyword, .run isBlank 1, importModule]

/-- The line, from one, on which a part of a text starts. -/
def lineOfCapture {κ : Type} (p : Capture κ) : Nat :=
  Text.newlines p.before + 1

/-- A binding as it stands in braces, with or without an alias. -/
def namedImport (text : List Char) : NamedImport :=
  let text := ((Text.stripStart "type ".toList text).map Text.trim).getD text
  match Text.words text with
  | [] => ⟨"", ""⟩
  | [imported] | [imported, _] => ⟨String.ofList imported, String.ofList imported⟩
  | imported :: link :: other :: _ =>
    ⟨String.ofList imported, String.ofList (if link == "as".toList then other else imported)⟩

/-- The non-empty pieces between commas, trimmed. -/
def commaPieces (text : List Char) : List (List Char) :=
  ((Text.splitAt ',' text).map Text.trim).filter (!·.isEmpty)

/-- The part of an import clause before its braces, and the text within them. -/
def splitClause (clause : List Char) : List Char × Option (List Char) :=
  match Text.splitFirst '\x7b' clause with
  | none => (clause, none)
  | some (head, rest) =>
    match Text.splitLast '\x7d' rest with
    | some (inner, _) => (head, some inner)
    | none => (clause, none)

/-- The name in a namespace import, behind its star. -/
def namespaceText (text : List Char) : List Char :=
  Text.trim (Text.stripRepeated "as".toList (Text.trim text))

/-- Takes the default or namespace name from a piece before the braces. -/
def Import.addHead (i : Import) (piece : List Char) : Import :=
  match piece with
  | '*' :: rest => { i with namespaceName := some (String.ofList (namespaceText rest)) }
  | piece => { i with defaultName := some (String.ofList piece) }

/-- The import that a clause describes. -/
def Import.ofClause (module : String) (line : Nat) (clause : List Char) : Import :=
  let (head, inner) := splitClause clause
  (commaPieces head).foldl Import.addHead
    { module, defaultName := none, namespaceName := none, line
      named := (inner.map fun text => (commaPieces text).map namedImport).getD [] }

/-- The import that a match describes. -/
def Import.ofMatch? (m : Text.Match ImportPart) : Option Import :=
  match m.part? .keyword, m.part? .module with
  | some keyword, some module =>
    some (.ofClause (String.ofList module.text) (lineOfCapture keyword)
      ((m.part? .clause).map (·.text) |>.getD []))
  | _, _ => none

/-- The imports of a source by line; on one line those of bindings come first. -/
def importsOf (text : List Char) : List Import :=
  ((importFrom.allMatches text ++ importBare.allMatches text).filterMap Import.ofMatch?).mergeSort
    fun a b => decide (a.line ≤ b.line)

/-! ## Declarations -/

/-- A declaration that may be a component. -/
structure Declaration where
  name : String
  line : Nat
deriving DecidableEq, Repr, Inhabited

/-- The characters that a name of a declaration starts with. -/
def isDeclarationStart (c : Char) : Bool :=
  c.isAlpha || c == '_' || c == '$'

/-- The other characters of a name of a declaration. -/
def isDeclarationChar (c : Char) : Bool :=
  isWordChar c || c == '$'

/-- A name of a declaration. -/
def declarationName {κ : Type} : Pattern κ :=
  .sequence [.one isDeclarationStart, .run isDeclarationChar 0]

/-- A list of parameters up to the first closing parenthesis. -/
def parameterList {κ : Type} : Pattern κ :=
  .sequence [.one (· == '('), .run (· != ')') 0, .one (· == ')')]

/-- A type after a colon. -/
def typeAnnotation {κ : Type} : Pattern κ :=
  .sequence [.one (· == ':'), .run isBlank 0,
    .run (fun c => isWordChar c || c == '.' || c == '<' || c == '>') 1, .run isBlank 0]

/-- A constant or variable that holds an arrow function. -/
def arrowDeclaration : Pattern Unit :=
  .sequence [.either (.literal "const") (.literal "let"), .run isBlank 1,
    .part () declarationName, .run isBlank 0, .optional typeAnnotation, .one (· == '='),
    .run isBlank 0, .either parameterList declarationName, .run isBlank 0, .literal "=>"]

/-- A named function. -/
def functionDeclaration : Pattern Unit :=
  .sequence [.literal "function", .run isBlank 1, .part () declarationName, .run isBlank 0,
    .one (· == '(')]

/-- A declaration at the start of a line; its part is the name. -/
def declaration : Pattern Unit :=
  .sequence [.lineStart, .optional (.sequence [.literal "export", .run isBlank 1]),
    .optional (.sequence [.literal "default", .run isBlank 1]),
    .either arrowDeclaration functionDeclaration]

/-- The declarations of a source in order. -/
def declarationsOf (text : List Char) : List Declaration :=
  (declaration.allMatches text).filterMap fun m =>
    (m.part? ()).map fun name => ⟨String.ofList name.text, lineOfCapture name⟩

end DesignCompiler.Markup
