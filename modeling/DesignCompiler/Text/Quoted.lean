import DesignCompiler.Text.Split

/-!
# Quoted texts

Texts between two equal quotes, as they stand in type descriptions and expressions. What is
between the quotes is taken as it is.
-/

namespace DesignCompiler.Text

/-- Whether the text starts and ends with the given quote, which may not be the same character. -/
def isQuotedBy (quote : Char) (s : List Char) : Bool :=
  decide (2 ≤ s.length) && s.head? == some quote && s.getLast? == some quote

/-- Whether the text is in single or in double quotes. -/
def isQuoted (s : List Char) : Bool :=
  isQuotedBy '\x27' s || isQuotedBy '"' s

/-- The text without its first and last character. -/
def unquote (s : List Char) : List Char :=
  s.tail.dropLast

end DesignCompiler.Text
