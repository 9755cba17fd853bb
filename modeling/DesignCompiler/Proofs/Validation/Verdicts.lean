import DesignCompiler.Proofs.Validation.Rules

/-!
# Verdicts on conforming sources

The rules together, on a source that was made from a tree and gives them no cause.

* `diagnostics_runRules`: the report of rules is that of the enabled ones, one after the other.
* `diagnostics_defaultRules`: on a conforming source only three rules can say anything.
* `kind_of_mem_validate`, `exists_error_validate_iff` and `messages_validate` read this off the
  verdict: what it mentions, when it rejects, and what it misses for those who cannot see.
-/

namespace DesignCompiler.Validation

open Markup (Structure Element)
open Synthesis (IsMade)

section Reports

variable {context : Context} {s : Structure} {r : Report} {d : Diagnostic}

/-- Rules report one after the other, those that are not enabled nothing. -/
theorem diagnostics_runRules {rules : List Rule} (h : ∀ r ∈ rules, r.Appends) :
    (runRules rules context s).diagnostics =
      rules.flatMap fun r =>
        if r.enabled context.options then (r.check context s).diagnostics else [] := by
  rw [runRules_eq h, diagnostics_reportsOf, flatMap_filter]

theorem mem_diagnostics_ofReport : d ∈ (Verdict.ofReport r).diagnostics ↔ d ∈ r.diagnostics := by
  show d ∈ r.diagnostics.filter (·.listedAsError) ++ r.diagnostics.filter (!·.listedAsError) ↔ _
  rw [List.mem_append, List.mem_filter, List.mem_filter, ← and_or_left]
  cases d.listedAsError <;> simp

/-- The findings of a kind that only warns stand in a verdict as they stand in the report. -/
theorem filter_diagnostics_ofReport {kind : DiagnosticKind}
    (h : ∀ d ∈ r.diagnostics, d.kind = kind → d.listedAsError = false) :
    ((Verdict.ofReport r).diagnostics.filter fun d => d.kind == kind) =
      r.diagnostics.filter fun d => d.kind == kind := by
  have herrors : (r.diagnostics.filter (·.listedAsError)).filter (fun d => d.kind == kind) =
      [] := by
    rw [List.filter_filter, List.filter_eq_nil_iff]
    intro d hd hboth
    obtain ⟨hkind, hlisted⟩ := Bool.and_eq_true_iff.1 hboth
    rw [h d hd (beq_iff_eq.1 hkind)] at hlisted
    exact Bool.false_ne_true hlisted
  show (r.diagnostics.filter (·.listedAsError) ++ r.diagnostics.filter (!·.listedAsError)).filter
    _ = _
  rw [List.filter_append, herrors, List.nil_append, List.filter_filter]
  refine List.filter_congr fun d hd => ?_
  by_cases hkind : d.kind = kind
  · rw [h d hd hkind, Bool.not_false, Bool.and_true]
  · rw [beq_false_of_ne hkind, Bool.false_and]

end Reports

section Verdicts

variable {context : Context} {s : Structure} {imports : List (String × String)}
  {shown : List Element} {source : String} {d : Diagnostic}

/-- On a conforming source only the rules on usage, on accessibility and on styles can say
anything. -/
theorem diagnostics_defaultRules (hmade : IsMade s imports shown)
    (hconforms : Conforms context.catalog imports shown) :
    (runRules defaultRules context s).diagnostics =
      (if context.options.checkProps then (usageRule.check context s).diagnostics else []) ++
        ((if context.options.checkAccessibility then
          (accessibilityRule.check context s).diagnostics else []) ++
          (if context.options.checkBestPractices then (styleRule.check context s).diagnostics
            else [])) := by
  rw [diagnostics_runRules appends_of_mem_defaultRules]
  unfold defaultRules
  simp only [List.flatMap_cons, List.flatMap_nil, check_pairingRule hmade,
    check_importRule hmade hconforms, check_valueRule hmade hconforms,
    check_performanceRule hmade hconforms, check_practiceRule hmade, ite_self,
    List.nil_append, List.append_nil]
  rfl

/-- What a verdict on a conforming source lists, by rule. -/
theorem mem_validate_iff (hs : Structure.ofText source = .ok s) (hmade : IsMade s imports shown)
    (hconforms : Conforms context.catalog imports shown) :
    d ∈ (validate context source).diagnostics ↔
      (context.options.checkProps = true ∧ d ∈ (usageRule.check context s).diagnostics) ∨
      (context.options.checkAccessibility = true ∧
        d ∈ (accessibilityRule.check context s).diagnostics) ∨
      (context.options.checkBestPractices = true ∧
        d ∈ (styleRule.check context s).diagnostics) := by
  rw [validate_eq_ofReport hs, mem_diagnostics_ofReport, diagnostics_defaultRules hmade hconforms,
    List.mem_append, List.mem_append]
  simp only [List.mem_ite_nil_right]

theorem kind_of_mem_usageRule (hmade : IsMade s imports shown)
    (hconforms : Conforms context.catalog imports shown)
    (hd : d ∈ (usageRule.check context s).diagnostics) :
    d.kind = .libraryUsage ∧ d.isError = true := by
  rw [check_usageRule hmade hconforms] at hd
  exact of_mem_orphanFindings hd

/-- A conforming source is only found fault with for the use of components, for accessibility, and
for style, and only the first of these are errors. -/
theorem kind_of_mem_validate (hs : Structure.ofText source = .ok s)
    (hmade : IsMade s imports shown) (hconforms : Conforms context.catalog imports shown)
    (hd : d ∈ (validate context source).diagnostics) :
    d.kind ∈ [.libraryUsage, .accessibility, .style] ∧
      (d.isError = true → d.kind = .libraryUsage) := by
  rcases (mem_validate_iff hs hmade hconforms).1 hd with ⟨-, hd⟩ | ⟨-, hd⟩ | ⟨-, hd⟩
  · obtain ⟨hkind, -⟩ := kind_of_mem_usageRule hmade hconforms hd
    rw [hkind]
    exact ⟨by decide, fun _ => rfl⟩
  · obtain ⟨hkind, hwarning⟩ := of_mem_accessibilityRule hd
    rw [hkind, hwarning]
    exact ⟨by decide, fun herror => absurd herror Bool.false_ne_true⟩
  · obtain ⟨hkind, hwarning⟩ := of_mem_styleRule hd
    rw [hkind, hwarning]
    exact ⟨by decide, fun herror => absurd herror Bool.false_ne_true⟩

/-- A conforming source is rejected exactly for a form item outside of forms. -/
theorem exists_error_validate_iff (hs : Structure.ofText source = .ok s)
    (hmade : IsMade s imports shown) (hconforms : Conforms context.catalog imports shown) :
    (∃ d ∈ (validate context source).diagnostics, d.isError = true) ↔
      context.options.checkProps = true ∧
        ∃ e ∈ shown, e.tag = "Form.Item" ∧ "Form" ∉ e.ancestors := by
  rw [← check_usageRule_ne_nil_iff hmade hconforms]
  constructor
  · rintro ⟨d, hd, herror⟩
    rcases (mem_validate_iff hs hmade hconforms).1 hd with ⟨hchecks, hd⟩ | ⟨-, hd⟩ | ⟨-, hd⟩
    · exact ⟨hchecks, List.ne_nil_of_mem hd⟩
    · rw [(of_mem_accessibilityRule hd).2] at herror
      exact absurd herror Bool.false_ne_true
    · rw [(of_mem_styleRule hd).2] at herror
      exact absurd herror Bool.false_ne_true
  · rintro ⟨hchecks, hne⟩
    obtain ⟨d, hd⟩ := List.exists_mem_of_ne_nil _ hne
    exact ⟨d, (mem_validate_iff hs hmade hconforms).2 (.inl ⟨hchecks, hd⟩),
      (kind_of_mem_usageRule hmade hconforms hd).2⟩

/-- The findings on accessibility are those on elements that say nothing, in the order of the
elements. -/
theorem messages_validate (hs : Structure.ofText source = .ok s) (hmade : IsMade s imports shown)
    (hconforms : Conforms context.catalog imports shown)
    (hchecks : context.options.checkAccessibility = true) :
    ((validate context source).diagnostics.filter fun d => d.kind == .accessibility).map
      (·.message) =
      shown.flatMap fun e => (labelFindings e).map (·.message) := by
  have hlisted : ∀ d ∈ (runRules defaultRules context s).diagnostics, d.kind = .accessibility →
      d.listedAsError = false := by
    intro d hd hkind
    rw [← mem_diagnostics_ofReport, ← validate_eq_ofReport hs] at hd
    obtain ⟨-, herror⟩ := kind_of_mem_validate hs hmade hconforms hd
    rw [hkind] at herror
    unfold Diagnostic.listedAsError
    rw [hkind]
    cases hisError : d.isError with
    | true => exact absurd (herror hisError) (by decide)
    | false => rfl
  have husage :
      (if context.options.checkProps then (usageRule.check context s).diagnostics else []).filter
        (fun d => d.kind == .accessibility) = [] := by
    rw [List.filter_eq_nil_iff]
    intro d hd
    rw [(kind_of_mem_usageRule hmade hconforms (List.mem_ite_nil_right.1 hd).2).1]
    decide
  have hstyle :
      (if context.options.checkBestPractices then (styleRule.check context s).diagnostics
        else []).filter
        (fun d => d.kind == .accessibility) = [] := by
    rw [List.filter_eq_nil_iff]
    intro d hd
    rw [(of_mem_styleRule (List.mem_ite_nil_right.1 hd).2).1]
    decide
  have hkept : (accessibilityRule.check context s).diagnostics.filter
      (fun d => d.kind == .accessibility) =
      (accessibilityRule.check context s).diagnostics := by
    rw [List.filter_eq_self]
    intro d hd
    rw [(of_mem_accessibilityRule hd).1]
    rfl
  rw [validate_eq_ofReport hs, filter_diagnostics_ofReport hlisted,
    diagnostics_defaultRules hmade hconforms, List.filter_append, List.filter_append, husage,
    hstyle, List.nil_append, List.append_nil, if_pos hchecks, hkept,
    messages_accessibilityRule hmade hconforms]

end Verdicts

end DesignCompiler.Validation
