import DesignCompiler.Json.Basic

/-!
# JSON numerals

The value of a numeral. A numeral without fraction and exponent is a whole number while it fits in
64 bits; minus zero and everything else is a double. The double is computed from the leading
digits that fit in 64 bits, by one multiplication with or division by a power of ten, so it may
lie one place beside the nearest double. A numeral that is too large gives an infinite double.
-/

namespace DesignCompiler.Json

/-- The digit that a character stands for. -/
def digit? (c : Char) : Option Nat :=
  if c.isDigit then some (c.toNat - '0'.toNat) else none

/-- The digits at the start of a text and what follows them. -/
def spanDigits (s : List Char) : List Nat × List Char :=
  ((s.takeWhile Char.isDigit).filterMap digit?, s.dropWhile Char.isDigit)

/-- The largest significand that is kept, `2 ^ 64 - 1`. -/
def maxSignificand : Nat :=
  18446744073709551615

/-- Appends digits to a significand up to the first one that does not fit; the second number
counts those taken and the third those left. -/
def accumulate (significand taken : Nat) : List Nat → Nat × Nat × Nat
  | [] => (significand, taken, 0)
  | d :: rest =>
    if maxSignificand < significand * 10 + d then (significand, taken, rest.length + 1)
    else accumulate (significand * 10 + d) (taken + 1) rest

/-- A power of ten as a double. -/
def doublePowerOfTen (n : Nat) : Float :=
  Float.ofScientific 1 false n

/-- A significand times a power of ten. Very small values are reached in steps of `10 ^ 308`, at
most `fuel` of them. -/
def scaleByTen (x : Float) (exponent : Int) : Nat → Float
  | 0 => 0.0
  | fuel + 1 =>
    match exponent with
    | .ofNat n =>
      if n ≤ 308 then x * doublePowerOfTen n
      else if x == 0.0 then x else 1.0 / 0.0
    | .negSucc n =>
      if n + 1 ≤ 308 then x / doublePowerOfTen (n + 1)
      else if x == 0.0 then x
      else scaleByTen (x / doublePowerOfTen 308) (exponent + 308) fuel

/-- The value of an exponent mark with its sign and digits, and what follows; a numeral without
one has the exponent zero. -/
def exponentPart (s : List Char) : Option (Int × Bool × List Char) :=
  match s with
  | c :: rest =>
    if c == 'e' || c == 'E' then
      let (negative, rest) := match rest with
        | '-' :: r => (true, r)
        | '+' :: r => (false, r)
        | r => (false, r)
      match spanDigits rest with
      | ([], _) => none
      | (ds, rest) =>
        let n : Nat := List.foldl (fun (n d : Nat) => n * 10 + d) 0 ds
        some (if negative then -Int.ofNat n else Int.ofNat n, true, rest)
    else some (0, false, s)
  | [] => some (0, false, [])

/-- The value of the digits of a numeral; `exact` says that there is neither fraction nor
exponent. -/
def ofDigits (negative : Bool) (whole fraction : List Nat) (exponent : Int) (exact : Bool) :
    Json :=
  let (significand, _, dropped) := accumulate 0 0 whole
  if exact && dropped == 0 && !negative then .int significand
  else if exact && dropped == 0 && 0 < significand && significand ≤ 9223372036854775808 then
    .int (-significand)
  else
    let (significand, taken, _) := accumulate significand 0 fraction
    let x := scaleByTen (Float.ofNat significand) (dropped - taken + exponent) 5
    .float (if negative then -x else x)

/-- The value of a numeral without its sign. -/
def unsignedNumeral? (negative : Bool) (s : List Char) : Option Json :=
  match spanDigits s with
  | ([], _) => none
  | (whole, rest) =>
    if whole.length > 1 && whole.head? == some 0 then none
    else
      let fractionPart : Option (List Nat × Bool × List Char) := match rest with
        | '.' :: r => match spanDigits r with
          | ([], _) => none
          | (ds, r) => some (ds, true, r)
        | r => some ([], false, r)
      match fractionPart with
      | none => none
      | some (fraction, hasFraction, rest) =>
        match exponentPart rest with
        | some (exponent, hasExponent, []) =>
          some (ofDigits negative whole fraction exponent (!hasFraction && !hasExponent))
        | _ => none

/-- The value of a numeral. -/
def numeral? : List Char → Option Json
  | '-' :: rest => unsignedNumeral? true rest
  | s => unsignedNumeral? false s

end DesignCompiler.Json
