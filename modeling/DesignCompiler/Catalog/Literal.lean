import DesignCompiler.Text.Quoted

/-!
# Literals in type descriptions

A property whose type is a union of literals, such as `'small' | 'large'` or `1 | 2`, takes only
these values. Any other member makes the type open.
-/

namespace DesignCompiler.Catalog

/-- Whether the text is not empty and consists of digits. -/
def isDigits (s : List Char) : Bool :=
  !s.isEmpty && s.all Char.isDigit

/-- Whether the text is the exponent of a numeral, a sign allowed. -/
def isExponent : List Char → Bool
  | '+' :: rest => isDigits rest
  | '-' :: rest => isDigits rest
  | s => isDigits s

/-- Whether the text is digits with at most one point, at least one digit on either side of it. -/
def isMantissa (s : List Char) : Bool :=
  match Text.splitFirst '.' s with
  | none => isDigits s
  | some (whole, fraction) =>
    whole.all Char.isDigit && fraction.all Char.isDigit && !(whole.isEmpty && fraction.isEmpty)

/-- The words for infinity and for what is no number. -/
def numberWords : List (List Char) :=
  ["inf".toList, "infinity".toList, "nan".toList]

/-- Whether the text is the numeral of a double without a sign. -/
def isUnsignedNumeral (s : List Char) : Bool :=
  numberWords.contains (s.map Char.toLower) ||
    match Text.splitFirst 'e' (s.map Char.toLower) with
    | none => isMantissa s
    | some (mantissa, exponent) => isMantissa mantissa && isExponent exponent

/-- Whether the text is the numeral of a double. -/
def isNumeral : List Char → Bool
  | '+' :: rest => isUnsignedNumeral rest
  | '-' :: rest => isUnsignedNumeral rest
  | s => isUnsignedNumeral s

/-- The literal that a member of a union denotes: a quoted text without its quotes, or a numeral
as it stands. -/
def literal? (member : List Char) : Option (List Char) :=
  if Text.isQuoted member then some (Text.unquote member)
  else if isNumeral member then some member
  else none

/-- The literals of a union, or none at all if one of its members is no literal. -/
def unionLiterals (description : String) : List String :=
  match ((Text.splitAt '|' description.toList).map Text.trim).mapM literal? with
  | some literals => literals.map String.ofList
  | none => []

end DesignCompiler.Catalog
