import DesignCompiler.Text.Ranges

/-!
# Classes of characters

The classes that the rest of the library asks about. Code points below 128 are settled by rule and
the others by the tables of `DesignCompiler.Text.Ranges`, so a statement about ASCII text never
unfolds a table.
-/

namespace DesignCompiler.Text

/-- White space in the sense of Unicode. The zero-width space and the byte-order mark are none. -/
def isBlank (c : Char) : Bool :=
  let n := c.toNat
  (9 ≤ n && n ≤ 13) || n == 32 || n == 0x85 || n == 0xA0 || n == 0x1680 ||
    (0x2000 ≤ n && n ≤ 0x200A) ||
    n == 0x2028 || n == 0x2029 || n == 0x202F || n == 0x205F || n == 0x3000

/-- Letters, and the marks that count as letters. -/
def isAlphabetic (c : Char) : Bool :=
  if c.toNat < 128 then c.isAlpha else inRanges alphabeticRanges c.toNat

/-- Letters and numbers of every kind, among them fractions and letter-like numerals. -/
def isAlphanumeric (c : Char) : Bool :=
  if c.toNat < 128 then c.isAlphanum
  else inRanges alphabeticRanges c.toNat || inRanges numericRanges c.toNat

/-- Decimal digits of every script. -/
def isDecimalDigit (c : Char) : Bool :=
  if c.toNat < 128 then c.isDigit else inRanges decimalRanges c.toNat

/-- The characters of words: letters, marks, decimal digits, connectors such as the low line, and
joiners. -/
def isWordChar (c : Char) : Bool :=
  if c.toNat < 128 then c.isAlphanum || c == '_'
  else inRanges alphabeticRanges c.toNat || inRanges decimalRanges c.toNat ||
    inRanges markRanges c.toNat

/-- The characters of names in component sources: letters, numbers, the low line and the dollar
sign. -/
def isNameChar (c : Char) : Bool :=
  isAlphanumeric c || c == '_' || c == '$'

/-- Letters that come in an upper, lower or title case. -/
def isCased (c : Char) : Bool :=
  if c.toNat < 128 then c.isAlpha else inRanges casedRanges c.toNat

/-- Characters that are passed over when the neighbours of a sigma are looked at. -/
def isCaseIgnorable (c : Char) : Bool :=
  if c.toNat < 128 then c == '\x27' || c == '.' || c == ':' || c == '^' || c.toNat == 96
  else inRanges caseIgnorableRanges c.toNat

end DesignCompiler.Text
