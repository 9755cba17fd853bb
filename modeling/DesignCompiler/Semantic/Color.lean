import DesignCompiler.Decimal.Layout
import DesignCompiler.Design.Node

/-!
# Colours and shadows

Colours as style sheets write them: each channel becomes a byte and each byte two hexadecimal
digits.
-/

namespace DesignCompiler.Semantic

/-- The nearest number from `low` to `high`. -/
def clamp (low high x : Float) : Float :=
  if x < low then low else if high < x then high else x

/-- The number itself if it is positive and finite, else zero. -/
def nonNegative (x : Float) : Float :=
  if x.isFinite && 0.0 < x then x else 0.0

/-- The byte of a channel, a half rounded up; what is no number counts as zero. -/
def channelByte (x : Float) : Nat :=
  if x.isNaN then 0 else (clamp 0.0 1.0 x * 255.0 + 0.5).floor.toUInt8.toNat

/-- Two lower-case hexadecimal digits. -/
def hexByte (n : Nat) : String :=
  String.ofList [Nat.digitChar (n / 16), Nat.digitChar (n % 16)]

/-- The two digits of a channel. -/
def channelHex (x : Float) : String :=
  hexByte (channelByte x)

/-- A colour without its opacity, as a number sign and six digits. -/
def colorHex (c : Design.Color) : String :=
  "#" ++ channelHex c.red ++ channelHex c.green ++ channelHex c.blue

/-- A shadow with its colour as text and its opacity apart. -/
structure Shadow where
  inset : Bool
  offsetX : Float
  offsetY : Float
  blur : Float
  spread : Float
  color : String
  alpha : Float
deriving Repr, Inhabited

/-- A number as a length in pixels. -/
def pixels (x : Float) : String :=
  String.ofList (Decimal.plain x) ++ "px"

/-- The shadow as a style sheet writes it; an opacity below one is appended to the colour. -/
def Shadow.toCss (s : Shadow) : String :=
  let color := if s.alpha < 1.0 then s.color ++ channelHex s.alpha else s.color
  (if s.inset then "inset " else "") ++ pixels s.offsetX ++ " " ++ pixels s.offsetY ++ " " ++
    pixels s.blur ++ " " ++ pixels s.spread ++ " " ++ color

end DesignCompiler.Semantic
