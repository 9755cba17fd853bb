/-!
# About the program
-/

namespace DesignCompiler

/-- What the program says about itself. -/
structure About where
  name : String
  version : String
  description : String
  targetLibrary : String
  features : List String
deriving DecidableEq, Repr

/-- This program. -/
def about : About :=
  { name := "antforge"
    version := "0.1.0"
    description :=
      "Design-to-Ant-Design compiler - map design documents to validated React components"
    targetLibrary := "antd"
    features := ["auto-layout", "typography", "forms", "shadows", "image-fills",
      "custom-catalogs", "validation"] }

/-- Whether the program has a feature. -/
def About.supports (a : About) (feature : String) : Bool :=
  a.features.contains feature

end DesignCompiler
