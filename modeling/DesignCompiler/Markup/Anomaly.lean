/-!
# Anomalies

What keeps a component source from being taken apart.
-/

namespace DesignCompiler.Markup

/-- The deepest nesting of elements that is followed. -/
def maxNesting : Nat :=
  100

/-- A reason why a source cannot be taken apart; lines count from one. -/
inductive Anomaly where
  | empty
  | unterminatedTag (tag : String) (line : Nat)
  | unterminatedAttribute (tag name : String) (line : Nat)
  | malformedTag (tag : String) (found : Char) (line : Nat)
  | unterminatedString (line : Nat)
  | unterminatedExpression (line : Nat)
  | unterminatedRegex (line : Nat)
  | unbalancedBrace (line : Nat)
  | tooDeep (line : Nat)
deriving DecidableEq, Repr

namespace Anomaly

/-- The line of an anomaly. -/
def line? : Anomaly → Option Nat
  | .empty => none
  | .unterminatedTag _ line | .unterminatedAttribute _ _ line | .malformedTag _ _ line
  | .unterminatedString line | .unterminatedExpression line | .unterminatedRegex line
  | .unbalancedBrace line | .tooDeep line => some line

/-- The text of an anomaly. -/
def message : Anomaly → String
  | .empty => "source text is empty"
  | .unterminatedTag tag line => "unterminated tag <" ++ tag ++ "> starting on line " ++ line.repr
  | .unterminatedAttribute tag name line =>
    "unterminated value for attribute '" ++ name ++ "' on <" ++ tag ++ "> (line " ++
      line.repr ++ ")"
  | .malformedTag tag found line =>
    "unexpected character '" ++ found.toString ++ "' in tag <" ++ tag ++ "> on line " ++ line.repr
  | .unterminatedString line => "unterminated string literal starting on line " ++ line.repr
  | .unterminatedExpression line => "unterminated expression starting on line " ++ line.repr
  | .unterminatedRegex line => "unterminated regular expression starting on line " ++ line.repr
  | .unbalancedBrace line => "unbalanced closing brace on line " ++ line.repr
  | .tooDeep line =>
    "tags nested deeper than " ++ maxNesting.repr ++ " levels on line " ++ line.repr

end Anomaly

end DesignCompiler.Markup
