import DesignCompiler.Catalog.Index
import DesignCompiler.Mapping.Config
import DesignCompiler.Mapping.Rule

/-!
# Scores and candidates

Scoring the rules for a node. The candidates of a node are the rules that score above the
threshold and whose component is in the catalog, best first; of equal scores the earlier rule
stands first.
-/

namespace DesignCompiler.Mapping

open Semantic (Node)

/-- What nodes are mapped with. -/
structure Engine where
  catalog : Catalog.Index
  rules : List Rule
  config : Config

/-- An engine with the rules for the component library. -/
def Engine.ofCatalog (catalog : Catalog.Index) (config : Config) : Engine :=
  ⟨catalog, libraryRules, config⟩

/-- A rule that fits a node, with its place among the rules, its component and its score. -/
structure Candidate where
  index : Nat
  rule : Rule
  entry : Catalog.Entry
  confidence : Nat

namespace Engine

/-- The greatest score that is kept while weights are added up, `2 ^ 32 - 1`. -/
def maxScore : Nat :=
  4294967295

/-- Adds a weight to a score; a score that would pass the greatest one stays there. -/
def addWeight (total weight : Nat) : Nat :=
  min (total + weight) maxScore

/-- What the fitting parts of a rule add up to: its kinds, its names, and its conditions one after
the other. -/
def rawScore (config : Config) (rule : Rule) (node : Node) (context : Option String) : Nat :=
  let total := if rule.kinds.contains node.kind then addWeight 0 config.typeWeight else 0
  let total := if rule.matchesName node.name then addWeight total config.nameWeight else total
  rule.conditions.foldl (fun total w =>
    if w.predicate.holds node context then addWeight total w.weight else total)
    total

/-- The score of a rule for a node, cut off at the greatest confidence. -/
def score (engine : Engine) (rule : Rule) (node : Node) (context : Option String) : Nat :=
  min (rawScore engine.config rule node context) engine.config.maxConfidence

/-- The candidate that a rule makes for a node. -/
def candidate? (engine : Engine) (node : Node) (context : Option String) (p : Rule × Nat) :
    Option Candidate :=
  let confidence := engine.score p.1 node context
  if confidence ≤ engine.config.minConfidence then none
  else (engine.catalog.entry? p.1.target).map fun entry => ⟨p.2, p.1, entry, confidence⟩

/-- The candidates for a node, best first. -/
def candidates (engine : Engine) (node : Node) (context : Option String) : List Candidate :=
  (engine.rules.zipIdx.filterMap (engine.candidate? node context)).mergeSort
    fun a b => decide (b.confidence ≤ a.confidence)

/-- The best candidate for a node. -/
def best? (engine : Engine) (node : Node) (context : Option String) : Option Candidate :=
  (engine.candidates node context).head?

/-- The components that are proposed for a node with their confidences, best first. -/
def proposals (engine : Engine) (node : Node) (context : Option String) :
    List (Catalog.Entry × Nat) :=
  (engine.candidates node context).map fun c => (c.entry, c.confidence)

/-- The component that is selected for a node, with its confidence. -/
def selection? (engine : Engine) (node : Node) (context : Option String) :
    Option (Catalog.Entry × Nat) :=
  (engine.proposals node context).head?

/-- The names that are looked up in the catalog for a node. -/
def lookups (engine : Engine) (node : Node) (context : Option String) : List String :=
  (engine.rules.filter fun r =>
    decide (engine.config.minConfidence < engine.score r node context)).map (·.target)

end Engine

/-- The context of the nodes inside a component. -/
def contextInside (context : Option String) (component : String) : String :=
  match context with
  | some path => path ++ "/" ++ component
  | none => component

end DesignCompiler.Mapping
