import DesignCompiler.Mapping.Config
import DesignCompiler.Synthesis.Options
import DesignCompiler.Validation.Options

/-!
# Options of a conversion
-/

namespace DesignCompiler

/-- How documents are converted. -/
structure ConversionOptions where
  /-- The name of the component; without it the name of the converted node is taken. -/
  componentName : Option String
  mapping : Mapping.Config
  synthesis : Synthesis.Options
  validation : Validation.Options
  /-- The source is validated after it was made. -/
  validatesOutput : Bool

namespace ConversionOptions

/-- The usual options. -/
def default : ConversionOptions :=
  { componentName := none, mapping := .default, synthesis := .default, validation := .default
    validatesOutput := true }

instance : Inhabited ConversionOptions := ⟨default⟩

end ConversionOptions

end DesignCompiler
