import DesignCompiler.Json.Decoder

/-!
# Weights and thresholds of the mapping
-/

namespace DesignCompiler.Mapping

/-- The numbers that the mapping can be tuned with. Weights and confidences are below `2 ^ 32`. -/
structure Config where
  /-- What a fitting kind adds to a score. -/
  typeWeight : Nat
  /-- What a fitting name adds to a score. -/
  nameWeight : Nat
  /-- A score must lie above it to count. -/
  minConfidence : Nat
  maxConfidence : Nat
  /-- Boxes up to this height are small. -/
  smallSizeThreshold : Float
  /-- Boxes above this height are large. -/
  largeSizeThreshold : Float
  /-- Nodes less opaque than this are disabled. -/
  disabledOpacity : Float
deriving Repr

namespace Config

/-- The usual numbers. -/
def default : Config :=
  { typeWeight := 20, nameWeight := 30, minConfidence := 20, maxConfidence := 100,
    smallSizeThreshold := 24.0
    largeSizeThreshold := 36.0, disabledOpacity := 0.5 }

instance : Inhabited Config := ⟨default⟩

/-- The names of the numbers in their declared order. -/
def fieldNames : List String :=
  ["type_weight", "name_weight", "min_confidence", "max_confidence", "small_size_threshold",
    "large_size_threshold", "disabled_opacity"]

/-- The numbers in a record, doubles read in the given way; what the record leaves out is as
usual. -/
def ofRecord? (float? : Json → Option Float) (r : Record) : Option Config := do
  return {
    typeWeight := ← r.withDefault "type_weight" default.typeWeight Json.nat32?
    nameWeight := ← r.withDefault "name_weight" default.nameWeight Json.nat32?
    minConfidence := ← r.withDefault "min_confidence" default.minConfidence Json.nat32?
    maxConfidence := ← r.withDefault "max_confidence" default.maxConfidence Json.nat32?
    smallSizeThreshold := ← r.withDefault "small_size_threshold" default.smallSizeThreshold float?
    largeSizeThreshold := ← r.withDefault "large_size_threshold" default.largeSizeThreshold float?
    disabledOpacity := ← r.withDefault "disabled_opacity" default.disabledOpacity float? }

/-- The numbers as a value. -/
def toJson (c : Config) : Json :=
  .obj [("type_weight", .ofNat c.typeWeight), ("name_weight", .ofNat c.nameWeight),
    ("min_confidence", .ofNat c.minConfidence), ("max_confidence", .ofNat c.maxConfidence),
    ("small_size_threshold", .ofFloat c.smallSizeThreshold),
    ("large_size_threshold", .ofFloat c.largeSizeThreshold),
    ("disabled_opacity", .ofFloat c.disabledOpacity)]

end Config

/-- How tall a box is. -/
inductive SizeTier where
  | small
  | middle
  | large
deriving DecidableEq, Repr

/-- The word of a tier. -/
def SizeTier.word : SizeTier → String
  | .small => "small"
  | .middle => "middle"
  | .large => "large"

/-- The tier of a height. -/
def Config.sizeTier (c : Config) (height : Float) : SizeTier :=
  if height ≤ c.smallSizeThreshold then .small
  else if c.largeSizeThreshold < height then .large
  else .middle

end DesignCompiler.Mapping
