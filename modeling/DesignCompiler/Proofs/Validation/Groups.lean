import DesignCompiler.Proofs.Validation.Pairing

/-!
# Groups of checks

The options switch five groups of checks, two of them with two rules. The rules write into one
report, yet no rule depends on another one or on a switch, so a verdict sums up what the enabled
rules report alone (`sums_validate`), and a switch takes the findings of its group out of it and
leaves the rest (`drops_validate`). The findings of a group are told by their kinds, which no two
groups share (`covers_eq_gates`).
-/

namespace DesignCompiler.Validation

open Markup (Structure)

/-- A group of checks that one of the options switches. -/
inductive CheckGroup where
  | imports
  | props
  | accessibility
  | performance
  | bestPractices
deriving DecidableEq, Repr

namespace CheckGroup

/-- The options with the group switched off. -/
def off (g : CheckGroup) (o : Options) : Options :=
  match g with
  | .imports => { o with checkImports := false }
  | .props => { o with checkProps := false }
  | .accessibility => { o with checkAccessibility := false }
  | .performance => { o with checkPerformance := false }
  | .bestPractices => { o with checkBestPractices := false }

/-- Whether the rules of the group report under the kind. -/
def covers : CheckGroup → DiagnosticKind → Bool
  | .imports, .imports => true
  | .props, .libraryUsage => true
  | .props, .property => true
  | .accessibility, .accessibility => true
  | .performance, .performance => true
  | .bestPractices, .bestPractice => true
  | .bestPractices, .style => true
  | _, _ => false

/-- Whether the rule does not run when the group alone is switched off. -/
def gates (g : CheckGroup) (r : Rule) : Bool :=
  !r.enabled (g.off .default)

/-- `after` is `before` without the findings of the group, and no worse for it. -/
structure Drops (g : CheckGroup) (before after : Verdict) : Prop where
  errors : after.errors = before.errors.filter fun d => !g.covers d.kind
  warnings : after.warnings = before.warnings.filter fun d => !g.covers d.kind
  suggestions : after.suggestions = if g = .bestPractices then [] else before.suggestions
  score : before.score ≤ after.score
  isValid : before.isValid = true → after.isValid = true

end CheckGroup

/-- The verdict lists the findings in their order, errors and warnings apart. Its score is that of
all it lists, and it is valid if none of them is an error. -/
structure Verdict.Sums (v : Verdict) (found : List Diagnostic) : Prop where
  errors : v.errors = found.filter (·.listedAsError)
  warnings : v.warnings = found.filter (!·.listedAsError)
  score : v.score = qualityScore (v.errors ++ v.warnings)
  isValid : v.isValid = true ↔ ∀ d ∈ v.errors ++ v.warnings, d.severity ≠ .error

/-! ## Verdicts on reports -/

section Verdicts

variable {g : CheckGroup} {r r' : Report} {ds ds' : List Diagnostic} {p : Diagnostic → Bool}

/-- The order of findings does not matter for the score. -/
theorem qualityScore_perm (h : ds.Perm ds') : qualityScore ds = qualityScore ds' :=
  congrArg (100 - ·) (h.map penalty).sum_nat

/-- Fewer findings do not lower the score. -/
theorem qualityScore_le_filter (p : Diagnostic → Bool) (ds : List Diagnostic) :
    qualityScore ds ≤ qualityScore (ds.filter p) := by
  have hsplit : (ds.map penalty).sum =
      ((ds.filter p).map penalty).sum + ((ds.filter (!p ·)).map penalty).sum := by
    rw [← List.sum_append_nat, ← List.map_append]
    exact ((List.filter_append_perm p ds).map penalty).sum_nat.symm
  show 100 - (ds.map penalty).sum ≤ 100 - ((ds.filter p).map penalty).sum
  omega

theorem sums_ofReport (r : Report) : (Verdict.ofReport r).Sums r.diagnostics where
  errors := rfl
  warnings := rfl
  score := qualityScore_perm (List.filter_append_perm Diagnostic.listedAsError r.diagnostics).symm
  isValid := by
    have hmem (d : Diagnostic) :
        d ∈ (Verdict.ofReport r).errors ++ (Verdict.ofReport r).warnings ↔ d ∈ r.diagnostics :=
      mem_diagnostics_ofReport
    have hvalid : (Verdict.ofReport r).isValid = !r.diagnostics.any (·.isError) := rfl
    simp only [hmem, hvalid, Bool.not_eq_true', List.any_eq_false, Diagnostic.isError, beq_iff_eq]

/-- A report without the findings of a group has a verdict without them. -/
theorem drops_ofReport (hfound : r'.diagnostics = r.diagnostics.filter fun d => !g.covers d.kind)
    (hsuggestions : r'.suggestions = if g = .bestPractices then [] else r.suggestions) :
    g.Drops (.ofReport r) (.ofReport r') where
  errors := by
    show r'.diagnostics.filter _ = _
    rw [hfound]
    exact List.filter_comm _ _ _
  warnings := by
    show r'.diagnostics.filter _ = _
    rw [hfound]
    exact List.filter_comm _ _ _
  suggestions := hsuggestions
  score := by
    show qualityScore r.diagnostics ≤ qualityScore r'.diagnostics
    rw [hfound]
    exact qualityScore_le_filter _ _
  isValid h := by
    refine (sums_ofReport r').isValid.2 fun d hd => (sums_ofReport r).isValid.1 h d ?_
    have hd : d ∈ r'.diagnostics := mem_diagnostics_ofReport.1 hd
    rw [hfound] at hd
    exact mem_diagnostics_ofReport.2 (List.mem_filter.1 hd).1

end Verdicts

/-! ## Switches and rules -/

section Rules

variable (g : CheckGroup) (catalog : Catalog.Index) (options : Options) (s : Structure)

/-- A switch is all that a rule knows of its group. -/
theorem check_off : ∀ r ∈ defaultRules,
  r.check ⟨catalog, g.off options⟩ s = r.check ⟨catalog, options⟩ s := by
  simp only [defaultRules, List.forall_mem_cons]
  cases g <;> exact ⟨rfl, rfl, rfl, rfl, rfl, rfl, rfl, rfl, List.forall_mem_nil _⟩

theorem enabled_off : ∀ r ∈ defaultRules,
    r.enabled (g.off options) = (!g.gates r && r.enabled options) := by
  simp only [defaultRules, List.forall_mem_cons]
  cases g <;> exact ⟨rfl, rfl, rfl, rfl, rfl, rfl, rfl, rfl, List.forall_mem_nil _⟩

/-- The kind of a finding tells whether the rule that reported it belongs to a group. -/
theorem covers_eq_gates : ∀ r ∈ defaultRules, ∀ d ∈ (r.check ⟨catalog, options⟩ s).diagnostics,
    g.covers d.kind = g.gates r := by
  have hrule {r : Rule} (kind : DiagnosticKind) (hcovers : g.covers kind = g.gates r)
      (hkind : ∀ d ∈ (r.check ⟨catalog, options⟩ s).diagnostics, d.kind = kind) :
      ∀ d ∈ (r.check ⟨catalog, options⟩ s).diagnostics, g.covers d.kind = g.gates r :=
    fun d hd => by
      rw [hkind d hd, hcovers]
  simp only [defaultRules, List.forall_mem_cons]
  refine ⟨hrule .grammar ?_ fun d => kind_of_mem_pairingRule,
    hrule .imports ?_ fun d => kind_of_mem_importRule,
    hrule .libraryUsage ?_ fun d => kind_of_mem_usage,
    hrule .property ?_ fun d => kind_of_mem_valueRule,
    hrule .accessibility ?_ fun d hd => (of_mem_accessibilityRule hd).1,
    hrule .performance ?_ fun d => kind_of_mem_performanceRule,
    hrule .bestPractice ?_ fun d => kind_of_mem_practiceRule,
    hrule .style ?_ fun d hd => (of_mem_styleRule hd).1, List.forall_mem_nil _⟩
  all_goals cases g <;> rfl

/-- Only the rule on names and size makes suggestions. -/
theorem suggestions_runRules : (runRules defaultRules ⟨catalog, options⟩ s).suggestions =
    if options.checkBestPractices then sizeSuggestions ⟨catalog, options⟩ s else [] := by
  rw [runRules_eq appends_of_mem_defaultRules, suggestions_reportsOf, flatMap_filter]
  unfold defaultRules
  simp only [List.flatMap_cons, List.flatMap_nil, check_eq_of_write_eq (write_pairingRule _ s),
    check_eq_of_write_eq (write_importRule _ s), check_eq_of_write_eq (write_usageRule _ s),
    check_eq_of_write_eq (write_valueRule _ s),
    check_eq_of_write_eq (write_accessibilityRule _ s),
    check_eq_of_write_eq (write_performanceRule _ s),
    check_eq_of_write_eq (write_practiceRule _ s), check_eq_of_write_eq (write_styleRule _ s),
    Report.ofDiagnostics, ite_self, List.nil_append, List.append_nil]
  rfl

/-- A switch takes the findings of its group out of the report. -/
theorem diagnostics_off : (runRules defaultRules ⟨catalog, g.off options⟩ s).diagnostics =
    (runRules defaultRules ⟨catalog, options⟩ s).diagnostics.filter
      fun d => !g.covers d.kind := by
  rw [diagnostics_runRules appends_of_mem_defaultRules,
    diagnostics_runRules appends_of_mem_defaultRules, List.filter_flatMap]
  refine List.flatMap_congr fun r hr => ?_
  rw [enabled_off g options r hr, check_off g catalog options s r hr]
  have hkept : (r.check ⟨catalog, options⟩ s).diagnostics.filter (fun d => !g.covers d.kind) =
      if g.gates r then [] else (r.check ⟨catalog, options⟩ s).diagnostics := by
    rw [List.filter_congr fun d hd =>
      congrArg not (covers_eq_gates g catalog options s r hr d hd)]
    cases g.gates r <;> simp
  cases r.enabled options <;> cases hgates : g.gates r <;> simp [hkept, hgates]

theorem suggestions_off : (runRules defaultRules ⟨catalog, g.off options⟩ s).suggestions =
    if g = .bestPractices then []
    else (runRules defaultRules ⟨catalog, options⟩ s).suggestions := by
  rw [suggestions_runRules, suggestions_runRules]
  cases g <;> rfl

end Rules

/-! ## Verdicts on sources -/

/-- **Rules do not interfere, and options act group by group.** A source that cannot be taken
apart gets the same verdict under all options: one error on its syntax. On any other source, a
verdict sums up what each enabled rule reports alone, in the order of the rules; and switching a
group off takes exactly the findings of the rules of that group out of the verdict. -/
theorem validate_groups (source : String) :
    match Structure.ofText source with
    | .error _ => ∃ d : Diagnostic, d.kind = .grammar ∧ d.severity = .error ∧
        ∀ context, validate context source = ⟨false, [d], [], [], 0⟩
    | .ok s => ∀ (catalog : Catalog.Index) (options : Options),
        (validate ⟨catalog, options⟩ source).Sums
          ((defaultRules.filter (·.enabled options)).flatMap
            fun r => (r.check ⟨catalog, options⟩ s).diagnostics) ∧
        ∀ g : CheckGroup,
          (∀ r ∈ defaultRules, ∀ d ∈ (r.check ⟨catalog, options⟩ s).diagnostics,
            g.covers d.kind = g.gates r) ∧
          g.Drops (validate ⟨catalog, options⟩ source)
            (validate ⟨catalog, g.off options⟩ source) := by
  unfold validate validateWith
  cases Structure.ofText source with
  | error a => exact ⟨Verdict.anomalyFinding a, rfl, rfl, fun context => rfl⟩
  | ok s =>
    intro catalog options
    constructor
    · rw [← diagnostics_reportsOf, ← runRules_eq appends_of_mem_defaultRules ⟨catalog, options⟩]
      exact sums_ofReport _
    · intro g
      exact ⟨covers_eq_gates g catalog options s,
        drops_ofReport (diagnostics_off g catalog options s)
          (suggestions_off g catalog options s)⟩

/-- A column outside of a row makes a source invalid, but not where properties are not checked. -/
example :
    let context (options : Options) : Context :=
      ⟨.ofSource Catalog.builtinSource, CheckGroup.imports.off options⟩
    (validate (context .default) "const A = () => (<Col/>);").isValid = false ∧
      (validate (context (CheckGroup.props.off .default)) "const A = () => (<Col/>);").isValid =
        true := by
  decide +kernel

end DesignCompiler.Validation
