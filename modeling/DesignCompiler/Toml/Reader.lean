import DesignCompiler.Toml.Quoted
import DesignCompiler.Toml.Scalar
import DesignCompiler.Toml.Table

/-!
# Reading TOML text

A document is read statement by statement: headers, which name the table that the following keys
belong to, and keys with their values. The document is given back as one JSON object.
-/

namespace DesignCompiler.Toml

/-- The text without blanks at its start. -/
def skipBlanks (s : List Char) : List Char :=
  s.dropWhile isLineBlank

/-- The text without a comment at its start. -/
def skipComment : List Char → List Char
  | '#' :: rest => rest.dropWhile isTextChar
  | s => s

/-- What follows a line break. -/
def afterBreak? : List Char → Option (List Char)
  | '\n' :: rest => some rest
  | '\r' :: '\n' :: rest => some rest
  | _ => none

/-- What follows the end of a line, in front of which blanks and a comment may stand. -/
def afterLine? (s : List Char) : Option (List Char) :=
  match skipComment (skipBlanks s) with
  | [] => some []
  | s => afterBreak? s

/-- The text without blanks, comments and line breaks at its start; `fuel` bounds the number of
lines. -/
def skipLayout : Nat → List Char → List Char
  | 0, s => s
  | fuel + 1, s =>
    let s := skipComment (skipBlanks s)
    match afterBreak? s with
    | some rest => skipLayout fuel rest
    | none => s

/-! ## Keys -/

/-- The characters of keys without quotes. -/
def isKeyChar (c : Char) : Bool :=
  c.isAlphanum || c == '_' || c == '-'

/-- One part of a key, and what follows it. -/
def keyPart? (s : List Char) : Option (String × List Char) :=
  match s.takeWhile isKeyChar with
  | [] => lineText? s
  | part => some (String.ofList part, s.dropWhile isKeyChar)

/-- The parts of a key with dots between them, and what follows the key; `fuel` bounds the number
of parts. -/
def key? : Nat → List Char → Option (List String × List Char)
  | 0, _ => none
  | fuel + 1, s =>
    match keyPart? (skipBlanks s) with
    | none => none
    | some (part, rest) =>
      match skipBlanks rest with
      | '.' :: rest => (key? fuel rest).map fun (parts, rest) => (part :: parts, rest)
      | rest => some ([part], rest)

/-- A key as the path in front of its last part, and that part. -/
def splitKey (parts : List String) : List String × String :=
  (parts.dropLast, parts.getLast?.getD "")

/-! ## Values -/

mutual

/-- The value at the start of a text and what follows it. -/
def value? : Nat → List Char → Option (Json × List Char)
  | 0, _ => none
  | fuel + 1, s =>
    match s with
    | '[' :: rest => items? fuel [] rest
    | '\x7b' :: rest =>
      match skipBlanks rest with
      | '\x7d' :: rest => some (.obj [], rest)
      | rest => fields? fuel [] rest
    | s =>
      match quoted? s with
      | some (text, rest) => some (.str text, rest)
      | none => scalar? s

/-- The items of an array up to its end; `done` holds those that were read, latest first. -/
def items? : Nat → List Json → List Char → Option (Json × List Char)
  | 0, _, _ => none
  | fuel + 1, done, s =>
    match skipLayout s.length s with
    | ']' :: rest => some (.arr done.reverse, rest)
    | s =>
      match value? fuel s with
      | none => none
      | some (v, rest) =>
        match skipLayout rest.length rest with
        | ',' :: rest => items? fuel (v :: done) rest
        | ']' :: rest => some (.arr (v :: done).reverse, rest)
        | _ => none

/-- The fields of an inline table up to its end. -/
def fields? : Nat → Fields → List Char → Option (Json × List Char)
  | 0, _, _ => none
  | fuel + 1, done, s =>
    match key? s.length s with
    | some (parts, '=' :: rest) =>
      match value? fuel (skipBlanks rest) with
      | none => none
      | some (v, rest) =>
        let (path, key) := splitKey parts
        match done.setValue [] path key v with
        | none => none
        | some done =>
          match skipBlanks rest with
          | ',' :: rest => fields? fuel done rest
          | '\x7d' :: rest => some (.obj (fieldsToJson done), rest)
          | _ => none
    | _ => none

end

/-! ## Documents -/

/-- What has been read of a document. -/
structure Progress where
  root : Fields
  /-- The table that keys belong to. -/
  table : List String

/-- The progress after a header, and what follows it. -/
def header? (p : Progress) (s : List Char) : Option (Progress × List Char) :=
  match s with
  | '[' :: rest =>
    match key? rest.length rest with
    | some (parts, ']' :: ']' :: rest) =>
      let (path, key) := splitKey parts
      (changeAt false (openNextTable key) path .header p.root).map
        fun root => (⟨root, parts⟩, rest)
    | _ => none
  | s =>
    match key? s.length s with
    | some (parts, ']' :: rest) =>
      let (path, key) := splitKey parts
      (changeAt false (openTable key) path .header p.root).map fun root => (⟨root, parts⟩, rest)
    | _ => none

/-- The progress after a key with its value, and what follows them. -/
def assignment? (p : Progress) (s : List Char) : Option (Progress × List Char) :=
  match key? s.length s with
  | some (parts, '=' :: rest) =>
    match value? (2 * s.length + 2) (skipBlanks rest) with
    | none => none
    | some (v, rest) =>
      let (path, key) := splitKey parts
      (p.root.setValue p.table path key v).map fun root => ({ p with root }, rest)
  | _ => none

/-- The progress at the end of a document; `fuel` bounds the number of statements. -/
def statements? : Nat → Progress → List Char → Option Progress
  | 0, _, _ => none
  | fuel + 1, p, s =>
    match skipLayout s.length s with
    | [] => some p
    | s =>
      let next := match s with
        | '[' :: rest => header? p rest
        | s => assignment? p s
      match next with
      | none => none
      | some (p, rest) =>
        match afterLine? rest with
        | none => none
        | some rest => statements? fuel p rest

/-- The object of a TOML text, which may start with a byte-order mark. -/
def parse? (text : List Char) : Option Json :=
  let text := match text with
    | '\ufeff' :: rest => rest
    | s => s
  (statements? (text.length + 1) ⟨[], []⟩ text).map fun p => .obj (fieldsToJson p.root)

end DesignCompiler.Toml
