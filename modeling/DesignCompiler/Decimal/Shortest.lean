/-!
# The shortest decimal of a double

A finite double is a whole number times a power of two. Among the decimals that read back as the
same double, this module finds one with the fewest digits, and among those the nearest. The search
is exact: for one digit, two digits, and so on, it tests the two neighbours of the value on that
decimal grid against the interval of the reals that round to the value.
-/

namespace DesignCompiler.Decimal

/-- The positive number `mantissa · 2 ^ exponent`, as the parts of a double. -/
structure Binary where
  mantissa : Nat
  exponent : Int
deriving DecidableEq, Repr

/-- The number `digits · 10 ^ exponent`. -/
structure Digits where
  digits : Nat
  exponent : Int
deriving DecidableEq, Repr

/-- Which of two equally near decimals is taken. -/
inductive Tie where
  | toEven
  | up
deriving DecidableEq, Repr

/-- A power of two. -/
def powerOfTwo (k : Nat) : Nat :=
  Nat.pow 2 k

/-- A power of ten. -/
def powerOfTen (k : Nat) : Nat :=
  Nat.pow 10 k

/-- The leading bit of a mantissa, which doubles of full precision do not store: `2 ^ 52`. -/
def leadingBit : Nat :=
  4503599627370496

/-- Whether the sign bit of a double is set. -/
def isNegative (x : Float) : Bool :=
  x.toBits >>> 63 == 1

/-- The absolute value of a finite double in its parts; the mantissa of zero is zero. -/
def Binary.ofFloat (x : Float) : Binary :=
  let bits := x.toBits.toNat
  let fraction := bits % leadingBit
  let biased := bits / leadingBit % 2048
  if biased = 0 then ⟨fraction, -1074⟩ else ⟨leadingBit + fraction, Int.ofNat biased - 1075⟩

/-- A quotient of natural numbers that stands for the value times `2 ^ shift`, taken apart into
numerator and denominator. -/
def scaled (n : Nat) (shift : Int) : Nat × Nat :=
  match shift with
  | .ofNat k => (n * powerOfTwo k, 1)
  | .negSucc k => (n, powerOfTwo (k + 1))

/-- The number of decimal places to the right by which a quotient below one must move to reach
one; `fuel` bounds the search. -/
def leadingZeros (num den : Nat) : Nat → Nat
  | 0 => 0
  | fuel + 1 => if den ≤ num then 0 else leadingZeros (num * 10) den fuel + 1

/-- The exponent `e` with `10 ^ e ≤ num / den < 10 ^ (e + 1)`. -/
def magnitude (num den : Nat) : Int :=
  if den ≤ num then (Nat.toDigits 10 (num / den)).length - 1
  else -(leadingZeros num den 400 : Int)

/-- Drops the zeros at the end of the digits, at most `fuel` of them. -/
def Digits.trimZeros (d : Digits) : Nat → Digits
  | 0 => d
  | fuel + 1 =>
    if d.digits % 10 = 0 then Digits.trimZeros ⟨d.digits / 10, d.exponent + 1⟩ fuel else d

/-- The value and the bounds of the interval that rounds to it, as multiples of one quarter of its
last place. -/
structure Interval where
  low : Nat
  value : Nat
  high : Nat
  /-- The bounds themselves round to the value. -/
  closed : Bool
  exponent : Int

/-- The interval of the reals that round to a double; below a power of two the doubles lie twice
as dense. -/
def Binary.interval (b : Binary) : Interval where
  low := if b.mantissa = leadingBit ∧ b.exponent ≠ -1074 then 4 * b.mantissa - 1
    else 4 * b.mantissa - 2
  value := 4 * b.mantissa
  high := 4 * b.mantissa + 2
  closed := b.mantissa % 2 == 0
  exponent := b.exponent - 2

/-- Whether the decimal `d · 10 ^ p` lies in the interval. -/
def Interval.holds (i : Interval) (d : Nat) (p : Int) : Bool :=
  let (num, den) := scaled d i.exponent.neg
  let num := match p with | .ofNat k => num * powerOfTen k | .negSucc _ => num
  let den := match p with | .ofNat _ => den | .negSucc k => den * powerOfTen (k + 1)
  if i.closed then decide (i.low * den ≤ num) && decide (num ≤ i.high * den)
  else decide (i.low * den < num) && decide (num < i.high * den)

/-- The nearer to the value of the two neighbours of the value on the grid of step `10 ^ p`, if
one of them lies in the interval. -/
def Interval.onGrid (i : Interval) (tie : Tie) (p : Int) : Option Nat :=
  let (num, den) := scaled i.value i.exponent
  let num := match p with | .ofNat _ => num | .negSucc k => num * powerOfTen (k + 1)
  let den := match p with | .ofNat k => den * powerOfTen k | .negSucc _ => den
  let below := num / den
  let twice := 2 * (num % den)
  let takeUp := if twice = den then (match tie with | .up => true | .toEven => below % 2 == 1)
    else decide (den < twice)
  match i.holds below p, i.holds (below + 1) p with
  | true, true => some (if takeUp then below + 1 else below)
  | true, false => some below
  | false, true => some (below + 1)
  | false, false => none

/-- Tries the grids of step `10 ^ p`, `10 ^ (p - 1)`, … in turn, at most `fuel` of them. -/
def Interval.firstGrid (i : Interval) (tie : Tie) (p : Int) : Nat → Option Digits
  | 0 => none
  | fuel + 1 =>
    match i.onGrid tie p with
    | some d => some ⟨d, p⟩
    | none => i.firstGrid tie (p - 1) fuel

/-- The shortest digits of the absolute value of a finite double; those of zero are zero.
Seventeen digits always suffice. -/
def shortest (tie : Tie) (x : Float) : Digits :=
  let b := Binary.ofFloat x
  if b.mantissa = 0 then ⟨0, 0⟩
  else
    let (num, den) := scaled b.mantissa b.exponent
    match b.interval.firstGrid tie (magnitude num den) 18 with
    | some d => d.trimZeros 20
    | none => ⟨0, 0⟩

end DesignCompiler.Decimal
