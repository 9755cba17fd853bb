import DesignCompiler.Json.Reader

/-!
# Quoted texts of TOML

Texts in double quotes have escapes, texts in single quotes have none. Both may run over several
lines between three quotes; a backslash at the end of a line then takes the blanks and line breaks
behind it away.
-/

namespace DesignCompiler.Toml

/-- What a quoted text is in the middle of. -/
inductive QuoteMode where
  | plain
  /-- After a backslash. -/
  | escape
  /-- Within the digits of an escaped character. -/
  | code (left value : Nat)
  /-- After a backslash and blanks; the line must end. -/
  | lineEnd
  /-- After a carriage return; `taken` says that line breaks are being taken away. -/
  | feed (taken : Bool)
  /-- After a line end that was taken away. -/
  | skipping
deriving DecidableEq

/-- The characters that texts and comments may hold. -/
def isTextChar (c : Char) : Bool :=
  c == '\t' || (decide (32 ≤ c.toNat) && c.toNat != 127)

/-- Blanks within a line. -/
def isLineBlank (c : Char) : Bool :=
  c == ' ' || c == '\t'

/-- The character that a letter after a backslash stands for. -/
def escapedChar? (c : Char) : Option Char :=
  if c == '/' then none else Json.escaped? c

/-- The character of a code point. -/
def charOf? (n : Nat) : Option Char :=
  if h : n.isValidChar then some (Char.ofNatAux n h) else none

/-- The text up to the closing quotes, and what follows them; `done` holds what was read, latest
first. -/
def quotedFrom (quote : Char) (multiline : Bool) (mode : QuoteMode) (done : List Char) :
    List Char → Option (String × List Char)
  | [] => none
  | c :: rest =>
    match mode with
    | .escape =>
      match escapedChar? c with
      | some e => quotedFrom quote multiline .plain (e :: done) rest
      | none =>
        if c == 'u' then quotedFrom quote multiline (.code 4 0) done rest
        else if c == 'U' then quotedFrom quote multiline (.code 8 0) done rest
        else if !multiline then none
        else if isLineBlank c then quotedFrom quote multiline .lineEnd done rest
        else if c == '\n' then quotedFrom quote multiline .skipping done rest
        else if c == '\r' then quotedFrom quote multiline (.feed true) done rest
        else none
    | .code left value =>
      match Json.hexDigit? c with
      | none => none
      | some d =>
        if 1 < left then quotedFrom quote multiline (.code (left - 1) (value * 16 + d)) done rest
        else
          match charOf? (value * 16 + d) with
          | some e => quotedFrom quote multiline .plain (e :: done) rest
          | none => none
    | .lineEnd =>
      if isLineBlank c then quotedFrom quote multiline .lineEnd done rest
      else if c == '\n' then quotedFrom quote multiline .skipping done rest
      else if c == '\r' then quotedFrom quote multiline (.feed true) done rest
      else none
    | .feed taken =>
      if c == '\n' then
        if taken then quotedFrom quote multiline .skipping done rest
        else quotedFrom quote multiline .plain ('\n' :: done) rest
      else none
    | .plain | .skipping =>
      if mode == .skipping && (isLineBlank c || c == '\n') then
        quotedFrom quote multiline .skipping done rest
      else if mode == .skipping && c == '\r' then
        quotedFrom quote multiline (.feed true) done rest
      else if c == quote then
        if !multiline then some (String.ofList done.reverse, rest)
        else
          let run := min 5 ((c :: rest).takeWhile (· == quote)).length
          if 3 ≤ run then
            some (String.ofList (done.reverse ++ List.replicate (run - 3) quote),
              (c :: rest).drop run)
          else quotedFrom quote multiline .plain (c :: done) rest
      else if c == '\\' && quote == '"' then quotedFrom quote multiline .escape done rest
      else if multiline && c == '\n' then quotedFrom quote multiline .plain (c :: done) rest
      else if multiline && c == '\r' then quotedFrom quote multiline (.feed false) done rest
      else if isTextChar c then quotedFrom quote multiline .plain (c :: done) rest
      else none

/-- The text without a line break at its start. -/
def withoutFirstBreak : List Char → List Char
  | '\n' :: rest => rest
  | '\r' :: '\n' :: rest => rest
  | s => s

/-- The text in quotes on one line at the start of a text, and what follows it. -/
def lineText? : List Char → Option (String × List Char)
  | c :: rest => if c == '"' || c == '\x27' then quotedFrom c false .plain [] rest else none
  | [] => none

/-- The quoted text at the start of a text, and what follows it. -/
def quoted? (s : List Char) : Option (String × List Char) :=
  match s with
  | a :: b :: c :: rest =>
    if (a == '"' || a == '\x27') && a == b && b == c then
      quotedFrom a true .plain [] (withoutFirstBreak rest)
    else lineText? s
  | s => lineText? s

end DesignCompiler.Toml
