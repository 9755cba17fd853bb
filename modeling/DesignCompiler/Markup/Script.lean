import DesignCompiler.Markup.Anomaly
import DesignCompiler.Markup.Cursor

/-!
# Script text

The lexical rules of the text around and between elements: strings, comments, regular expressions
and type parameters are passed over as wholes, and a less-than sign starts an element only where
an operand may stand. One `step` says what begins at a cursor; it does not look into elements.
-/

namespace DesignCompiler.Markup

open Text (isBlank isNameChar isAlphabetic)

/-! ## What may stand at a place -/

/-- The characters after which an operand may follow. -/
def opensOperand (c : Char) : Bool :=
  "(,=:?&|\x7b[;!".toList.contains c

/-- The words after which an operand may follow. -/
def operandWords : List (List Char) :=
  ["return".toList, "yield".toList, "default".toList]

/-- Whether an operand may stand behind a text, which is read backwards. It tells an element from
a comparison and a regular expression from a division. -/
def operandMayFollow (before : List Char) : Bool :=
  match before.dropWhile isBlank with
  | [] => true
  | c :: earlier =>
    if opensOperand c then true
    else if c = '>' then earlier.head? == some '='
    else if isNameChar c then operandWords.contains ((c :: earlier).takeWhile isNameChar).reverse
    else false

/-- Whether a less-than sign with the given text behind it opens an element or type parameters. -/
def elementMayStart (before afterSign : List Char) : Bool :=
  match afterSign with
  | c :: _ => (isAlphabetic c || c == '>') && operandMayFollow before
  | [] => false

/-- Whether type parameters follow a less-than sign: a name, and then a comma or the word
`extends`. -/
def startsTypeParameters (afterSign : List Char) : Bool :=
  if (afterSign.takeWhile isNameChar).isEmpty then false
  else
    match (afterSign.dropWhile isNameChar).dropWhile isBlank with
    | ',' :: _ => true
    | c :: rest => c == 'e' && (c :: rest).takeWhile isNameChar == "extends".toList
    | [] => false

/-! ## Passing over wholes -/

namespace Cursor

/-- The place behind the end of a string whose opening quote was read; only a template string may
run over the end of a line. -/
def stringEnd? (quote : Char) (before : List Char) (line : Nat) : List Char → Option Cursor
  | [] => none
  | '\\' :: [] => none
  | '\\' :: c :: rest => stringEnd? quote (c :: '\\' :: before) (lineAfter line c) rest
  | c :: rest =>
    if c = '\n' ∧ quote.toNat ≠ 96 then none
    else if c = quote then some ⟨c :: before, rest, lineAfter line c⟩
    else stringEnd? quote (c :: before) (lineAfter line c) rest

/-- The place behind the closing slash of a regular expression, before its flags. -/
def regexEnd? (inClass : Bool) (before : List Char) (line : Nat) : List Char → Option Cursor
  | [] => none
  | '\\' :: [] => none
  | '\\' :: c :: rest => regexEnd? inClass (c :: '\\' :: before) (lineAfter line c) rest
  | c :: rest =>
    if c = '\n' then none
    else if c = '/' ∧ !inClass then some ⟨c :: before, rest, line⟩
    else regexEnd? (if c = '[' then true else if c = ']' then false else inClass) (c :: before)
      line rest

/-- The place behind the end of a block comment whose start was read, or the end of the text. -/
def blockCommentEnd (before : List Char) (line : Nat) : List Char → Cursor
  | [] => ⟨before, [], line⟩
  | '*' :: '/' :: rest => ⟨'/' :: '*' :: before, rest, line⟩
  | c :: rest => blockCommentEnd (c :: before) (lineAfter line c) rest

/-- The place behind the greater-than sign that closes type parameters; that of an arrow closes
nothing. -/
def typeParametersEnd (depth : Nat) (previous : Char) (before : List Char) (line : Nat) :
    List Char → Cursor
  | [] => ⟨before, [], line⟩
  | c :: rest =>
    if c = '<' then typeParametersEnd (depth + 1) c (c :: before) line rest
    else if c = '>' ∧ previous ≠ '=' then
      if depth ≤ 1 then ⟨c :: before, rest, line⟩
      else typeParametersEnd (depth - 1) c (c :: before) line rest
    else typeParametersEnd depth c (c :: before) (lineAfter line c) rest

theorem stringEnd?_lt {quote : Char} {before : List Char} {line : Nat} {rest : List Char}
    {stop : Cursor} (h : stringEnd? quote before line rest = some stop) :
    stop.rest.length < rest.length := by
  fun_induction stringEnd? quote before line rest with
  | case1 => simp at h
  | case2 => simp at h
  | case3 _ _ _ _ ih => have := ih h; simp; omega
  | case4 => simp at h
  | case5 => cases h; simp
  | case6 _ _ _ _ _ _ _ _ ih => have := ih h; simp; omega

theorem regexEnd?_lt {inClass : Bool} {before : List Char} {line : Nat} {rest : List Char}
    {stop : Cursor} (h : regexEnd? inClass before line rest = some stop) :
    stop.rest.length < rest.length := by
  fun_induction regexEnd? inClass before line rest with
  | case1 => simp at h
  | case2 => simp at h
  | case3 _ _ _ _ _ ih => have := ih h; simp; omega
  | case4 => simp at h
  | case5 => cases h; simp
  | case6 _ _ _ _ _ _ _ _ _ ih => have := ih h; simp; omega

theorem blockCommentEnd_le (before : List Char) (line : Nat) (rest : List Char) :
    (blockCommentEnd before line rest).rest.length ≤ rest.length := by
  fun_induction blockCommentEnd before line rest with
  | case1 => simp
  | case2 => simp; omega
  | case3 _ _ _ _ _ ih => simp; omega

theorem typeParametersEnd_le (depth : Nat) (previous : Char) (before : List Char) (line : Nat)
    (rest : List Char) : (typeParametersEnd depth previous before line rest).rest.length ≤
      rest.length := by
  fun_induction typeParametersEnd depth previous before line rest with
  | case1 => simp
  | case2 _ _ _ _ _ ih => simp; omega
  | case3 => simp
  | case4 _ _ _ _ _ _ _ _ ih => simp; omega
  | case5 _ _ _ _ _ _ _ _ ih => simp; omega

end Cursor

/-! ## One step -/

/-- What begins at a cursor in script text. Where something is passed over, less is left to
read. -/
inductive Step (c : Cursor) where
  | atEnd
  /-- A string, comment, regular expression, type parameter list or single character. -/
  | pass (stop : Cursor) (shorter : stop.rest.length < c.rest.length)
  | openBrace (stop : Cursor) (shorter : stop.rest.length < c.rest.length)
  | closeBrace (stop : Cursor) (shorter : stop.rest.length < c.rest.length)
  | element
  | broken (reason : Anomaly)

/-- Whether the character opens a string. -/
def isQuote (c : Char) : Bool :=
  c == '\x27' || c == '"' || c.toNat == 96

/-- What is at most the text behind a character is less than the text that starts with the
character. -/
theorem Cursor.lt_of_le_rest {c : Cursor} {ch : Char} {rest : List Char} {n : Nat}
    (hrest : c.rest = ch :: rest) (hn : n ≤ rest.length) : n < c.rest.length := by
  rw [hrest, List.length_cons]
  omega

/-- What begins at a cursor in script text. -/
def Cursor.step (c : Cursor) : Step c :=
  match h : c.rest with
  | [] => .atEnd
  | ch :: rest =>
    if isQuote ch then
      match hs : Cursor.stringEnd? ch (ch :: c.before) c.line rest with
      | some stop => .pass stop (Cursor.lt_of_le_rest h (Nat.le_of_lt (Cursor.stringEnd?_lt hs)))
      | none => .broken (.unterminatedString c.line)
    else if ch = '/' then
      if rest.head? == some '/' then
        .pass (c.next.skipWhile (· ≠ '\n'))
          (Cursor.lt_of_le_next h (Cursor.skipWhile_le _ c.next))
      else if rest.head? == some '*' then
        .pass (Cursor.blockCommentEnd c.next.next.before c.line c.next.next.rest)
          (Cursor.lt_of_le_next h
            (Nat.le_trans (Cursor.blockCommentEnd_le _ _ _) (Cursor.next_le c.next)))
      else if operandMayFollow c.before then
        match hr : Cursor.regexEnd? false (ch :: c.before) c.line rest with
        | some stop =>
          .pass (stop.skipWhile isNameChar)
            (Cursor.lt_of_le_rest h
              (Nat.le_trans (Cursor.skipWhile_le _ stop) (Nat.le_of_lt (Cursor.regexEnd?_lt hr))))
        | none => .broken (.unterminatedRegex c.line)
      else .pass c.next (Cursor.next_lt h)
    else if ch = '\x7b' then .openBrace c.next (Cursor.next_lt h)
    else if ch = '\x7d' then .closeBrace c.next (Cursor.next_lt h)
    else if ch = '<' ∧ elementMayStart c.before rest then
      if startsTypeParameters rest then
        .pass (Cursor.typeParametersEnd 1 ch (ch :: c.before) c.line rest)
          (Cursor.lt_of_le_rest h (Cursor.typeParametersEnd_le _ _ _ _ _))
      else .element
    else .pass c.next (Cursor.next_lt h)

end DesignCompiler.Markup
