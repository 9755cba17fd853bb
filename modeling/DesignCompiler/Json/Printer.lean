import DesignCompiler.Json.Basic
import DesignCompiler.Decimal.Layout

/-!
# Writing JSON text

Two layouts: compact text without any white space, and text with every item on a line of its own.
Fields are written in the order in which the value lists them.
-/

namespace DesignCompiler.Json

/-- A lower-case hexadecimal digit. -/
def hexDigit (n : Nat) : Char :=
  Nat.digitChar n

/-- A character within quotes. -/
def quoteChar (c : Char) : List Char :=
  match c with
  | '"' => ['\\', '"']
  | '\\' => ['\\', '\\']
  | '\n' => ['\\', 'n']
  | '\r' => ['\\', 'r']
  | '\t' => ['\\', 't']
  | '\x08' => ['\\', 'b']
  | '\x0c' => ['\\', 'f']
  | c =>
    if c.toNat < 32 then ['\\', 'u', '0', '0', hexDigit (c.toNat / 16), hexDigit (c.toNat % 16)]
    else [c]

/-- A text in quotes. -/
def quote (s : String) : List Char :=
  '"' :: (s.toList.flatMap quoteChar ++ ['"'])

/-- The text of a value that is neither array nor object. -/
def scalar : Json → List Char
  | .null => "null".toList
  | .bool true => "true".toList
  | .bool false => "false".toList
  | .int n => Decimal.integer n
  | .float x => if x.isFinite then Decimal.scientific x else "null".toList
  | .str s => quote s
  | .arr _ | .obj _ => []

mutual

/-- The value without white space. -/
def compact : Json → List Char
  | .arr items => '[' :: (compactItems items ++ [']'])
  | .obj fields => '\x7b' :: (compactFields fields ++ ['\x7d'])
  | v => scalar v

/-- Items with commas between them. -/
def compactItems : List Json → List Char
  | [] => []
  | [v] => compact v
  | v :: rest => compact v ++ ',' :: compactItems rest

/-- Fields with commas between them. -/
def compactFields : List (String × Json) → List Char
  | [] => []
  | [(k, v)] => quote k ++ ':' :: compact v
  | (k, v) :: rest => quote k ++ ':' :: (compact v ++ ',' :: compactFields rest)

end

/-- A line break with the indentation of a level. -/
def newline (level : Nat) : List Char :=
  '\n' :: List.replicate (2 * level) ' '

mutual

/-- The value with every item and field on a line of its own; `level` is the level of the
value. -/
def pretty (level : Nat) : Json → List Char
  | .arr [] => ['[', ']']
  | .arr (v :: rest) => '[' :: (prettyItems (level + 1) (v :: rest) ++ newline level ++ [']'])
  | .obj [] => ['\x7b', '\x7d']
  | .obj (f :: rest) =>
    '\x7b' :: (prettyFields (level + 1) (f :: rest) ++ newline level ++ ['\x7d'])
  | v => scalar v

/-- Items on lines of their own, with commas between them. -/
def prettyItems (level : Nat) : List Json → List Char
  | [] => []
  | [v] => newline level ++ pretty level v
  | v :: rest => newline level ++ pretty level v ++ ',' :: prettyItems level rest

/-- Fields on lines of their own, with commas between them. -/
def prettyFields (level : Nat) : List (String × Json) → List Char
  | [] => []
  | [(k, v)] => newline level ++ quote k ++ ':' :: ' ' :: pretty level v
  | (k, v) :: rest =>
    newline level ++ quote k ++ ':' :: ' ' :: (pretty level v ++ ',' :: prettyFields level rest)

end

/-- The compact text of a value. -/
def toText (v : Json) : String :=
  String.ofList (compact v)

/-- The text of a value over several lines. -/
def toPrettyText (v : Json) : String :=
  String.ofList (pretty 0 v)

end DesignCompiler.Json
