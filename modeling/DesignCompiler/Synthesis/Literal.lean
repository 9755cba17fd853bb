import DesignCompiler.Json.Printer
import DesignCompiler.Text.Split

/-!
# Literals in component sources

How values are written as attributes, styles and texts of an element. A value that cannot stand as
it is goes into an expression in braces, in which it is written as a JSON or a single-quoted
literal.
-/

namespace DesignCompiler.Synthesis

/-- Whether the text is an ASCII letter or a low line, followed by letters, digits, low lines and
hyphens. -/
def isAttributeName (name : String) : Bool :=
  match name.toList with
  | c :: rest => (c.isAlpha || c == '_') && rest.all fun c => c.isAlphanum || c == '_' || c == '-'
  | [] => false

/-- Whether the text can name a field of an object without quotes. -/
def isFieldName (name : String) : Bool :=
  match name.toList with
  | c :: rest =>
    (c.isAlpha || c == '_' || c == '$') && rest.all fun c => c.isAlphanum || c == '_' || c == '$'
  | [] => false

/-- A text in braces. -/
def inBraces (s : List Char) : List Char :=
  '\x7b' :: (s ++ ['\x7d'])

/-! ## Attributes -/

/-- Whether a text can stand between double quotes as it is. -/
def isPlainValue (s : List Char) : Bool :=
  s.all fun c => c != '"' && c != '\\' && c != '\n' && c != '\x7b' && c != '\x7d'

/-- An attribute: its bare name for true, a quoted text where it can be one, else an expression;
null is left out. -/
def attributeText (name : String) : Json → Option (List Char)
  | .null => none
  | .bool true => some name.toList
  | .str s =>
    if isPlainValue s.toList then some (name.toList ++ '=' :: '"' :: (s.toList ++ ['"']))
    else some (name.toList ++ '=' :: inBraces (Json.quote s))
  | v => some (name.toList ++ '=' :: inBraces v.compact)

/-! ## Styles -/

/-- A character within single quotes. -/
def quoteStyleChar (c : Char) : List Char :=
  match c with
  | '\\' => ['\\', '\\']
  | '\x27' => ['\\', '\x27']
  | '\n' => ['\\', 'n']
  | c => [c]

/-- A text in single quotes. -/
def quoteStyle (s : String) : List Char :=
  '\x27' :: (s.toList.flatMap quoteStyleChar ++ ['\x27'])

/-- A value in a style. -/
def styleValue : Json → List Char
  | .str s => quoteStyle s
  | v => v.compact

/-- A declaration of a style. -/
def styleField (field : String × Json) : List Char :=
  (if isFieldName field.1 then field.1.toList else quoteStyle field.1) ++
    ':' :: ' ' :: styleValue field.2

/-- A style as the object that the attribute takes. -/
def styleText (style : KeyMap Json) : List Char :=
  inBraces (inBraces (' ' :: (Text.joinWith [',', ' '] (style.entries.map styleField) ++ [' '])))

/-! ## Texts -/

/-- Whether a text would not be read back as it is between two tags. -/
def needsExpression (s : List Char) : Bool :=
  s.isEmpty || (s.any fun c => c == '\x7b' || c == '\x7d' || c == '<' || c == '>' || c == '\n') ||
    Text.trim s != s

/-- A text between two tags. -/
def childText (text : String) : List Char :=
  if needsExpression text.toList then inBraces (Json.quote text) else text.toList

end DesignCompiler.Synthesis
