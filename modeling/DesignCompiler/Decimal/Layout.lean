import DesignCompiler.Decimal.Shortest

/-!
# Texts of doubles

Three ways to write a double. `scientific` is the number form of JSON: it keeps a fraction on
whole numbers and turns to an exponent for very large and very small values. `plain` never uses an
exponent and writes whole numbers without a fraction. `fixedOne` has exactly one place after the
point.
-/

namespace DesignCompiler.Decimal

/-- The decimal digits of a natural number. -/
def digitsOf (n : Nat) : List Char :=
  Nat.toDigits 10 n

/-- The decimal numeral of an integer. -/
def integer (n : Int) : List Char :=
  match n with
  | .ofNat k => digitsOf k
  | .negSucc k => '-' :: digitsOf (k + 1)

/-- Digits with the point moved `places` to the left, zeros filled in as needed. -/
def withPoint (ds : List Char) (places : Nat) : List Char :=
  let padded := List.replicate (places + 1 - ds.length) '0' ++ ds
  padded.take (padded.length - places) ++ '.' :: padded.drop (padded.length - places)

/-- The digits of a decimal written without an exponent; a whole number takes the given ending. -/
def Digits.positional (d : Digits) (wholeEnding : List Char) : List Char :=
  match d.exponent with
  | .ofNat zeros => digitsOf d.digits ++ List.replicate zeros '0' ++ wholeEnding
  | .negSucc k => withPoint (digitsOf d.digits) (k + 1)

/-- The digits of a decimal with one digit before the point and an exponent. -/
def Digits.withExponent (d : Digits) : List Char :=
  let ds := digitsOf d.digits
  let exponent := 'e' :: integer (d.exponent + ds.length - 1)
  match ds with
  | [c] => c :: exponent
  | c :: rest => c :: '.' :: (rest ++ exponent)
  | [] => exponent

/-- A minus sign for the doubles whose sign bit is set. -/
def signText (x : Float) : List Char :=
  if isNegative x then ['-'] else []

/-- The JSON numeral of a finite double. The exponent form begins at `10 ^ 16` and below
`10 ^ (-5)`; of two equally near decimals the even one is written. -/
def scientific (x : Float) : List Char :=
  let d := shortest .toEven x
  let point := d.exponent + (digitsOf d.digits).length
  signText x ++ if d.digits = 0 ∨ (-5 < point ∧ point ≤ 16) then d.positional ['.', '0']
    else d.withExponent

/-- The double without an exponent and without an empty fraction; of two equally near decimals the
upper one is written. -/
def plain (x : Float) : List Char :=
  if x.isNaN then "NaN".toList
  else if x.isInf then signText x ++ "inf".toList
  else signText x ++ (shortest .up x).positional []

/-- A quotient rounded to the nearest whole number, a half to the even one. -/
def roundDiv (num den : Nat) : Nat :=
  let below := num / den
  let twice := 2 * (num % den)
  if den < twice ∨ (twice = den ∧ below % 2 = 1) then below + 1 else below

/-- A finite double with one place after the point, rounded from its exact value. -/
def fixedOne (x : Float) : List Char :=
  let b := Binary.ofFloat x
  let (num, den) := scaled b.mantissa b.exponent
  signText x ++ withPoint (digitsOf (roundDiv (10 * num) den)) 1

end DesignCompiler.Decimal
