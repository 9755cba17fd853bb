import DesignCompiler.Json.Numeral

/-!
# Reading JSON text

Reading has two steps, each one pass over its input. The first cuts the text into tokens; what it
is in the middle of is a `Mode`. The second assembles the tokens; the arrays and objects that are
still open are a stack of `Frame`s. The text must follow the grammar of JSON to the letter.
-/

namespace DesignCompiler.Json

/-- A lexical unit. -/
inductive Token where
  | openArray
  | closeArray
  | openObject
  | closeObject
  | comma
  | colon
  | text (s : String)
  /-- A numeral or one of the three words. -/
  | plain (v : Json)

/-- What the text is in the middle of; collected characters are kept latest first. -/
inductive Mode where
  | between
  /-- A numeral or a word. -/
  | bare (chars : List Char)
  | text (chars : List Char)
  /-- After a backslash. -/
  | escape (chars : List Char)
  /-- Within the four digits of an escaped code unit; `high` is a first half of a pair that came
  before. -/
  | unit (chars : List Char) (high : Option Nat) (count value : Nat)
  /-- After the first half of a pair. -/
  | secondHalf (chars : List Char) (high : Nat)
  /-- After the first half of a pair and a backslash. -/
  | secondEscape (chars : List Char) (high : Nat)

/-- The characters of numerals and words. -/
def isBareChar (c : Char) : Bool :=
  c.isAlphanum || c == '-' || c == '+' || c == '.'

/-- The token of a numeral or word. -/
def bareToken? (chars : List Char) : Option Token :=
  let s := chars.reverse
  if s == "true".toList then some (.plain (.bool true))
  else if s == "false".toList then some (.plain (.bool false))
  else if s == "null".toList then some (.plain .null)
  else (numeral? s).map .plain

/-- The value of a hexadecimal digit. -/
def hexDigit? (c : Char) : Option Nat :=
  let n := c.toNat
  if c.isDigit then some (n - 48)
  else if 97 ≤ n && n ≤ 102 then some (n - 87)
  else if 65 ≤ n && n ≤ 70 then some (n - 55)
  else none

/-- The character that a letter after a backslash stands for. -/
def escaped? (c : Char) : Option Char :=
  match c with
  | '"' => some '"'
  | '\\' => some '\\'
  | '/' => some '/'
  | 'b' => some '\x08'
  | 'f' => some '\x0c'
  | 'n' => some '\n'
  | 'r' => some '\r'
  | 't' => some '\t'
  | _ => none

/-- What a complete code unit leads to: a character, or the wait for the second half of a pair. -/
def closeUnit (chars : List Char) (high : Option Nat) (value : Nat) : Option Mode :=
  match high with
  | none =>
    if 0xD800 ≤ value && value < 0xDC00 then some (.secondHalf chars value)
    else if 0xDC00 ≤ value && value < 0xE000 then none
    else some (.text (Char.ofNat value :: chars))
  | some h =>
    if 0xDC00 ≤ value && value < 0xE000 then
      some (.text (Char.ofNat (0x10000 + (h - 0xD800) * 0x400 + (value - 0xDC00)) :: chars))
    else none

/-- The tokens that one character outside of texts and bare tokens completes, and the mode after
it. -/
def stepBetween (c : Char) : Option (List Token × Mode) :=
  match c with
  | ' ' | '\t' | '\n' | '\r' => some ([], .between)
  | '[' => some ([.openArray], .between)
  | ']' => some ([.closeArray], .between)
  | '\x7b' => some ([.openObject], .between)
  | '\x7d' => some ([.closeObject], .between)
  | ',' => some ([.comma], .between)
  | ':' => some ([.colon], .between)
  | '"' => some ([], .text [])
  | c => if isBareChar c then some ([], .bare [c]) else none

/-- The tokens that one character completes, and the mode after it. -/
def stepChar (mode : Mode) (c : Char) : Option (List Token × Mode) :=
  match mode with
  | .between => stepBetween c
  | .bare chars =>
    if isBareChar c then some ([], .bare (c :: chars))
    else do
      let token ← bareToken? chars
      let (tokens, mode) ← stepBetween c
      return (token :: tokens, mode)
  | .text chars =>
    if c == '"' then some ([.text (String.ofList chars.reverse)], .between)
    else if c == '\\' then some ([], .escape chars)
    else if c.toNat < 32 then none
    else some ([], .text (c :: chars))
  | .escape chars =>
    if c == 'u' then some ([], .unit chars none 0 0)
    else (escaped? c).map fun e => ([], .text (e :: chars))
  | .unit chars high count value => do
    let d ← hexDigit? c
    if count == 3 then return ([], ← closeUnit chars high (value * 16 + d))
    else return ([], .unit chars high (count + 1) (value * 16 + d))
  | .secondHalf chars high => if c == '\\' then some ([], .secondEscape chars high) else none
  | .secondEscape chars high => if c == 'u' then some ([], .unit chars (some high) 0 0) else none

/-- The tokens read so far, latest first, and the mode, after one more character. -/
def lexChar (state : List Token × Mode) (c : Char) : Option (List Token × Mode) :=
  (stepChar state.2 c).map fun (tokens, mode) => (tokens.reverse ++ state.1, mode)

/-- The tokens of a text. -/
def tokens? (text : List Char) : Option (List Token) :=
  match text.foldlM lexChar ([], .between) with
  | some (tokens, .between) => some tokens.reverse
  | some (tokens, .bare chars) => (bareToken? chars).map fun t => (t :: tokens).reverse
  | _ => none

/-- An array or object that is still open; its parts are kept latest first. -/
inductive Frame where
  | array (done : List Json)
  /-- The value of `key` is being read. -/
  | object (done : List (String × Json)) (key : String)

/-- What the next token must be. -/
inductive Assembly where
  | value (stack : List Frame)
  /-- After an opening bracket. -/
  | firstItem (stack : List Frame)
  /-- After an opening brace. -/
  | firstKey (stack : List Frame)
  | nextKey (stack : List Frame) (done : List (String × Json))
  | colon (stack : List Frame) (done : List (String × Json)) (key : String)
  /-- After a complete value. -/
  | complete (stack : List Frame) (v : Json)

/-- The assembly after the first token of a value. -/
def beginValue (stack : List Frame) : Token → Option Assembly
  | .plain v => some (.complete stack v)
  | .text s => some (.complete stack (.str s))
  | .openArray => some (.firstItem stack)
  | .openObject => some (.firstKey stack)
  | _ => none

/-- The assembly after one more token. -/
def stepToken : Assembly → Token → Option Assembly
  | .value stack, t => beginValue stack t
  | .firstItem stack, .closeArray => some (.complete stack (.arr []))
  | .firstItem stack, t => beginValue (.array [] :: stack) t
  | .firstKey stack, .closeObject => some (.complete stack (.obj []))
  | .firstKey stack, .text k => some (.colon stack [] k)
  | .nextKey stack done, .text k => some (.colon stack done k)
  | .colon stack done k, .colon => some (.value (.object done k :: stack))
  | .complete (.array done :: stack) v, .comma => some (.value (.array (v :: done) :: stack))
  | .complete (.array done :: stack) v, .closeArray =>
    some (.complete stack (.arr (v :: done).reverse))
  | .complete (.object done k :: stack) v, .comma => some (.nextKey stack ((k, v) :: done))
  | .complete (.object done k :: stack) v, .closeObject =>
    some (.complete stack (.obj ((k, v) :: done).reverse))
  | _, _ => none

/-- The value that the tokens make. -/
def assemble? (tokens : List Token) : Option Json :=
  match tokens.foldlM stepToken (.value []) with
  | some (.complete [] v) => some v
  | _ => none

/-- The value of a JSON text. Nesting is not limited, and a number that is too large is
infinite. -/
def parse? (text : List Char) : Option Json :=
  (tokens? text).bind assemble?

/-- The deepest nesting of a document. -/
def maxDepth : Nat :=
  127

/-- The value of a JSON document: not nested too deeply, and every number within the range of
doubles. -/
def parseDocument? (text : List Char) : Option Json :=
  (parse? text).filter fun v => decide (v.depth ≤ maxDepth) && v.isFinite

end DesignCompiler.Json
