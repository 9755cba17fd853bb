import DesignCompiler.Decimal.Layout
import DesignCompiler.Json.Reader

/-!
# Scalars of TOML

Truth values, numbers, dates and times, given as the whole run of characters between two
separators. Low lines may stand between two digits of a number. A whole number fits in 64 bits; a
date or time must exist, and is kept as its text in an object of its own.
-/

namespace DesignCompiler.Toml

/-- The digits of a number without the low lines between them. -/
def ungrouped? (isDigit : Char → Bool) : List Char → Option (List Char)
  | [] => none
  | [c] => if isDigit c then some [c] else none
  | c :: '_' :: rest => if isDigit c then (ungrouped? isDigit rest).map (c :: ·) else none
  | c :: rest => if isDigit c then (ungrouped? isDigit rest).map (c :: ·) else none

/-- The number that digits write in a base. -/
def natOf (base : Nat) (digits : List Char) : Nat :=
  digits.foldl (fun n c => n * base + (Json.hexDigit? c).getD 0) 0

/-- A sign at the start of a number, true for minus, and what follows it. -/
def splitSign : List Char → Bool × List Char
  | '-' :: rest => (true, rest)
  | '+' :: rest => (false, rest)
  | s => (false, s)

/-! ## Numbers -/

/-- The digits of a decimal whole number, which does not start with a superfluous zero. -/
def wholeDigits? (s : List Char) : Option (List Char) :=
  (ungrouped? Char.isDigit s).filter fun ds => ds.length == 1 || ds.head? != some '0'

/-- A whole number that fits in 64 bits. -/
def inRange? (n : Int) : Option Json :=
  if -9223372036854775808 ≤ n ∧ n < 9223372036854775808 then some (.int n) else none

/-- A whole number without sign in another base. -/
def basedInteger? (base : Nat) (s : List Char) : Option Json :=
  (ungrouped? (fun c => (Json.hexDigit? c).any fun d => decide (d < base)) s).bind
    fun ds => inRange? (natOf base ds)

/-- A whole number. -/
def integer? : List Char → Option Json
  | '0' :: 'x' :: rest => basedInteger? 16 rest
  | '0' :: 'o' :: rest => basedInteger? 8 rest
  | '0' :: 'b' :: rest => basedInteger? 2 rest
  | s =>
    let (negative, s) := splitSign s
    (wholeDigits? s).bind fun ds =>
      let n : Int := natOf 10 ds
      inRange? (if negative then -n else n)

/-- The double next to `significand * 10 ^ exponent`; exponents far out of range are settled
without powers. -/
def decimalFloat (significand : Nat) (exponent : Int) : Float :=
  if significand = 0 then 0.0
  else if 400 < exponent then 1.0 / 0.0
  else if exponent < -(400 + (Decimal.digitsOf significand).length : Int) then 0.0
  else if exponent < 0 then Float.ofScientific significand true exponent.natAbs
  else Float.ofScientific significand false exponent.natAbs

/-- The exponent of a number; its digits may start with zeros. -/
def exponent? : List Char → Option Int
  | c :: rest =>
    if c == 'e' || c == 'E' then
      let (negative, s) := splitSign rest
      (ungrouped? Char.isDigit s).map
        fun ds => if negative then -(natOf 10 ds : Int) else natOf 10 ds
    else none
  | [] => some 0

/-- The characters of digit groups. -/
def isGroupChar (c : Char) : Bool :=
  c.isDigit || c == '_'

/-- The digits after the point, and the exponent; one of the two must be there. -/
def fractionAndExponent? : List Char → Option (List Char × Int)
  | [] => none
  | '.' :: rest => do
    let fraction ← ungrouped? Char.isDigit (rest.takeWhile isGroupChar)
    return (fraction, ← exponent? (rest.dropWhile isGroupChar))
  | s => (exponent? s).map fun e => ([], e)

/-- A double with a fraction or an exponent; it must not be too large. -/
def float? (s : List Char) : Option Json := do
  let (negative, s) := splitSign s
  let whole ← wholeDigits? (s.takeWhile isGroupChar)
  let (fraction, exponent) ← fractionAndExponent? (s.dropWhile isGroupChar)
  let x := decimalFloat (natOf 10 (whole ++ fraction)) (exponent - fraction.length)
  let x := if negative then -x else x
  if x == 1.0 / 0.0 then none else some (.float x)

/-- The numbers that are written as words. -/
def specialFloat? (s : List Char) : Option Json :=
  let (negative, word) := splitSign s
  if word == "inf".toList then some (.float (if negative then -1.0 / 0.0 else 1.0 / 0.0))
  else if word == "nan".toList then some (.float (0.0 / 0.0))
  else none

/-! ## Dates and times -/

/-- The number of the given count of digits at the start of a text, and what follows them. -/
def fixedNumber? (count : Nat) (s : List Char) : Option (Nat × List Char) :=
  let ds := s.take count
  if ds.length == count && ds.all Char.isDigit then some (natOf 10 ds, s.drop count) else none

/-- What follows a character at the start of a text. -/
def after? (c : Char) : List Char → Option (List Char)
  | d :: rest => if d == c then some rest else none
  | [] => none

/-- The number of days of a month. -/
def daysOf (year month : Nat) : Nat :=
  if month == 2 then if year % 4 == 0 && (year % 100 != 0 || year % 400 == 0) then 29 else 28
  else if month == 4 || month == 6 || month == 9 || month == 11 then 30
  else 31

/-- What follows a date. -/
def afterDate? (s : List Char) : Option (List Char) := do
  let (year, s) ← fixedNumber? 4 s
  let (month, s) ← fixedNumber? 2 (← after? '-' s)
  let (day, s) ← fixedNumber? 2 (← after? '-' s)
  if 1 ≤ month && month ≤ 12 && 1 ≤ day && day ≤ daysOf year month then some s else none

/-- What follows a time of day, of which the seconds may have a fraction. -/
def afterTime? (s : List Char) : Option (List Char) := do
  let (hour, s) ← fixedNumber? 2 s
  let (minute, s) ← fixedNumber? 2 (← after? ':' s)
  let (second, s) ← fixedNumber? 2 (← after? ':' s)
  if 23 < hour || 59 < minute || 60 < second then none
  else
    match s with
    | '.' :: rest =>
      match rest.dropWhile Char.isDigit with
      | rest' => if rest'.length < rest.length then some rest' else none
    | s => some s

/-- Whether the text is empty or an offset from universal time. -/
def isOffset : List Char → Bool
  | [] | ['Z'] | ['z'] => true
  | c :: rest =>
    (c == '+' || c == '-') &&
      (do
        let (hour, s) ← fixedNumber? 2 rest
        let (minute, s) ← fixedNumber? 2 (← after? ':' s)
        if hour ≤ 23 && minute ≤ 59 && s.isEmpty then some () else none).isSome

/-- Whether the text is a date, a time, or both. -/
def isDateTime (s : List Char) : Bool :=
  match afterDate? s with
  | some [] => true
  | some (c :: rest) => (c == 'T' || c == 't' || c == ' ') && (afterTime? rest).any isOffset
  | none => afterTime? s == some []

/-- A date or time as a value. -/
def dateTime? (s : List Char) : Option Json :=
  if isDateTime s then some (.obj [("datetime", .str (String.ofList s))]) else none

/-! ## Runs -/

/-- The characters of scalars. -/
def isScalarChar (c : Char) : Bool :=
  c.isAlphanum || c == '_' || c == '+' || c == '-' || c == '.' || c == ':'

/-- The value of a scalar. -/
def scalarOf? (s : List Char) : Option Json :=
  if s == "true".toList then some (.bool true)
  else if s == "false".toList then some (.bool false)
  else (((dateTime? s).or (float? s)).or (integer? s)).or (specialFloat? s)

/-- The scalar at the start of a text and what follows it. A blank may stand between a date and a
time. -/
def scalar? (s : List Char) : Option (Json × List Char) :=
  let first := s.takeWhile isScalarChar
  match afterDate? first, s.dropWhile isScalarChar with
  | some [], ' ' :: a :: b :: ':' :: rest =>
    let rest := a :: b :: ':' :: rest
    (scalarOf? (first ++ ' ' :: rest.takeWhile isScalarChar)).map
      fun v => (v, rest.dropWhile isScalarChar)
  | _, rest => (scalarOf? first).map fun v => (v, rest)

end DesignCompiler.Toml
