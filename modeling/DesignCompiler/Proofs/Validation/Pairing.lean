import DesignCompiler.Catalog.Builtin
import DesignCompiler.Proofs.Markup.Strays
import DesignCompiler.Proofs.Validation.Verdicts

/-!
# Findings on the syntax of a source

Every rule reports under kinds of its own, and only the one on pairing reports on syntax. So what
a verdict says about the syntax of a source are the tags that the structure of the source lists as
not paired (`filter_syntax_validate`).

`validate_strays` uses this for closing tags behind the root element: no verdict mentions them.
-/

namespace DesignCompiler.Validation

open Markup (Structure Element Attribute TagEvent IsTag SingleRooted closings taggedSource
  rootPrefix maxNesting)

/-! ## The kinds that a rule reports under -/

section Kinds

variable {context : Context} {s : Structure} {d : Diagnostic}

theorem kind_of_mem_pairingRule (hd : d ∈ (pairingRule.check context s).diagnostics) :
    d.kind = .grammar := by
  rw [check_eq_of_write_eq (write_pairingRule context s)] at hd
  rcases List.mem_append.1 hd with hd | hd
  · obtain ⟨p, -, rfl⟩ := List.mem_map.1 hd
    rfl
  · obtain ⟨p, -, rfl⟩ := List.mem_map.1 hd
    rfl

theorem kind_of_mem_unboundFindings {reported : List String} {elements : List Element}
    (hd : d ∈ unboundFindings s reported elements) : d.kind = .imports := by
  induction elements generalizing reported with
  | nil => cases hd
  | cons e rest ih =>
    rw [unboundFindings] at hd
    split at hd
    · exact ih hd
    · rcases List.mem_cons.1 hd with rfl | hd
      · rfl
      · exact ih hd

theorem kind_of_mem_importRule (hd : d ∈ (importRule.check context s).diagnostics) :
    d.kind = .imports := by
  rw [check_eq_of_write_eq (write_importRule context s)] at hd
  unfold Report.ofDiagnostics at hd
  split at hd
  · cases hd
  · rcases List.mem_append.1 hd with hd | hd
    · rcases List.mem_append.1 hd with hd | hd
      · unfold missingReactFindings at hd
        rw [List.mem_singleton.1 (List.mem_ite_nil_right.1 hd).2]
        rfl
      · exact kind_of_mem_unboundFindings hd
    · obtain ⟨i, -, hd⟩ := List.mem_flatMap.1 hd
      obtain ⟨n, -, rfl⟩ := List.mem_map.1 hd
      rfl

theorem kind_of_mem_deprecatedFindings {library component advice : String}
    (hd : d ∈ deprecatedFindings s library component advice) : d.kind = .libraryUsage := by
  unfold deprecatedFindings at hd
  split at hd
  · rw [List.mem_singleton.1 hd]
    rfl
  · cases hd

theorem kind_of_mem_usage (hd : d ∈ (usageRule.check context s).diagnostics) :
    d.kind = .libraryUsage := by
  rw [check_eq_of_write_eq (write_usageRule context s)] at hd
  rcases List.mem_append.1 hd with hd | hd
  · obtain ⟨_, -, hd⟩ := List.mem_flatMap.1 hd
    exact (of_mem_orphanFindings hd).1
  · obtain ⟨_, -, hd⟩ := List.mem_flatMap.1 hd
    exact kind_of_mem_deprecatedFindings hd

theorem kind_of_mem_valueFindings {entry : Catalog.Entry} {tag : String} {a : Attribute}
    (hd : d ∈ valueFindings entry tag a) : d.kind = .property := by
  unfold valueFindings at hd
  split at hd
  · cases hd
  · split at hd
    · cases hd
    · split at hd
      · cases hd
      · rw [List.mem_singleton.1 hd]
        rfl

theorem kind_of_mem_valueRule (hd : d ∈ (valueRule.check context s).diagnostics) :
    d.kind = .property := by
  rw [check_eq_of_write_eq (write_valueRule context s)] at hd
  obtain ⟨e, -, hd⟩ := List.mem_flatMap.1 hd
  unfold elementValueFindings at hd
  split at hd
  · cases hd
  · obtain ⟨a, -, hd⟩ := List.mem_flatMap.1 hd
    exact kind_of_mem_valueFindings hd

theorem kind_of_mem_performanceRule (hd : d ∈ (performanceRule.check context s).diagnostics) :
    d.kind = .performance := by
  rw [check_eq_of_write_eq (write_performanceRule context s)] at hd
  obtain ⟨e, -, hd⟩ := List.mem_flatMap.1 hd
  obtain ⟨a, -, hd⟩ := List.mem_flatMap.1 hd
  unfold handlerFindings at hd
  split at hd
  · rw [List.mem_singleton.1 (List.mem_ite_nil_right.1 hd).2]
    rfl
  · cases hd

theorem kind_of_mem_practiceRule (hd : d ∈ (practiceRule.check context s).diagnostics) :
    d.kind = .bestPractice := by
  rw [check_eq_of_write_eq (write_practiceRule context s)] at hd
  obtain ⟨e, -, hd⟩ := List.mem_flatMap.1 hd
  unfold nameFindings at hd
  rw [List.mem_singleton.1 (List.mem_ite_nil_right.1 hd).2]
  rfl

end Kinds

/-! ## Findings on syntax -/

/-- Findings on syntax are listed under errors, so a verdict has them in the order of the
report. -/
theorem filter_syntax_ofReport (r : Report) :
    (Verdict.ofReport r).diagnostics.filter (fun d => d.kind == .grammar) =
      r.diagnostics.filter fun d => d.kind == .grammar := by
  have hlisted (d : Diagnostic) (hkind : (d.kind == .grammar) = true) :
      d.listedAsError = true := by
    unfold Diagnostic.listedAsError
    rw [beq_iff_eq.1 hkind]
    exact Bool.or_true _
  show (r.diagnostics.filter (·.listedAsError) ++ r.diagnostics.filter (!·.listedAsError)).filter
    _ = _
  have hwarnings : (r.diagnostics.filter (!·.listedAsError)).filter
      (fun d => d.kind == .grammar) = [] := by
    rw [List.filter_filter, List.filter_eq_nil_iff]
    intro d _ hboth
    obtain ⟨hkind, hnot⟩ := Bool.and_eq_true_iff.1 hboth
    rw [hlisted d hkind] at hnot
    cases hnot
  rw [List.filter_append, hwarnings, List.append_nil, List.filter_filter]
  refine List.filter_congr fun d _ => ?_
  cases hkind : d.kind == .grammar with
  | true => rw [hlisted d hkind, Bool.true_and]
  | false => rw [Bool.false_and]

/-- The findings of a verdict on syntax are the tags of the source that are not paired, the open
ones first. -/
theorem filter_syntax_validate (context : Context) {source : String} {s : Structure}
    (hs : Structure.ofText source = .ok s) :
    (validate context source).diagnostics.filter (fun d => d.kind == .grammar) =
      s.unclosed.map unclosedFinding ++ s.unexpectedClosings.map unexpectedFinding := by
  have hother {r : Rule} {kind : DiagnosticKind} (hkind : kind ≠ .grammar)
      (h : ∀ d ∈ (r.check context s).diagnostics, d.kind = kind) :
      (if r.enabled context.options then (r.check context s).diagnostics else []).filter
        (fun d => d.kind == .grammar) = [] := by
    rw [List.filter_eq_nil_iff]
    intro d hd
    rw [h d (List.mem_ite_nil_right.1 hd).2]
    simpa using hkind
  have hpairing : (pairingRule.check context s).diagnostics.filter (fun d => d.kind == .grammar) =
      s.unclosed.map unclosedFinding ++ s.unexpectedClosings.map unexpectedFinding := by
    rw [List.filter_eq_self.2 fun d hd => beq_iff_eq.2 (kind_of_mem_pairingRule hd),
      check_eq_of_write_eq (write_pairingRule context s)]
    rfl
  rw [validate_eq_ofReport hs, filter_syntax_ofReport,
    diagnostics_runRules appends_of_mem_defaultRules]
  unfold defaultRules
  simp only [List.flatMap_cons, List.flatMap_nil, List.filter_append,
    hother (by decide) fun d => kind_of_mem_importRule,
    hother (by decide) fun d => kind_of_mem_usage,
    hother (by decide) fun d => kind_of_mem_valueRule,
    hother (by decide) fun d => kind_of_mem_performanceRule,
    hother (by decide) fun d hd => (of_mem_accessibilityRule hd).1,
    hother (by decide) fun d => kind_of_mem_practiceRule,
    hother (by decide) fun d hd => (of_mem_styleRule hd).1, List.append_nil]
  exact hpairing

/-! ## Closing tags behind the root -/

section Strays

variable {e : List TagEvent} {strays : List String}

/-- **Closing tags behind the root element are never reported.** Whatever element a component
returns, nested within the levels that are followed, and however many closing tags stand directly
behind it: the source is taken apart without a tag that is not paired, and no verdict on it has a
finding on syntax. -/
theorem validate_strays (he : SingleRooted maxNesting e) (hnames : ∀ d ∈ e, IsTag d.tag.toList)
    (hstrays : ∀ t ∈ strays, IsTag t.toList) (hne : strays ≠ []) :
    ∃ s, Structure.ofText (taggedSource (e ++ closings strays)) = .ok s ∧ s.unclosed = [] ∧
      s.unexpectedClosings = [] ∧
      ∀ context, ∀ d ∈ (validate context (taggedSource (e ++ closings strays))).diagnostics,
        d.kind ≠ .grammar := by
  have hmem : 'c' ∈ rootPrefix ++ (Markup.tagText (e ++ closings strays) ++ [')', ';']) :=
    List.mem_append_left _ (by decide)
  have htext : Structure.ofText (taggedSource (e ++ closings strays)) = _ :=
    Markup.ofText_of_scanSource hmem (by decide)
  obtain ⟨found, hscan, hunclosed, hclosings⟩ := Markup.scanSource_strays he hnames hstrays hne
  rw [hscan] at htext
  refine ⟨_, htext, hunclosed, hclosings, fun context d hd hkind => ?_⟩
  have hnone := filter_syntax_validate context htext
  simp only [hunclosed, hclosings, List.map_nil, List.append_nil, List.filter_eq_nil_iff] at hnone
  exact hnone d hd (beq_iff_eq.2 hkind)

theorem validate_strays_link :
    ∃ s, Structure.ofText (taggedSource ([.opening "a", .closing "a"] ++ closings ["b"])) =
      .ok s ∧
      s.unclosed = [] ∧ s.unexpectedClosings = [] := by
  have hroot : SingleRooted maxNesting [.opening "a", .closing "a"] := .element "a" (.nil 99)
  have hstrays : ∀ t ∈ ["b"], IsTag t.toList := by unfold IsTag; decide
  obtain ⟨s, hs, hunclosed, hclosings, -⟩ :=
    validate_strays hroot (by unfold IsTag; decide) hstrays (by decide)
  exact ⟨s, hs, hunclosed, hclosings⟩

/-- A link with a closing tag of another name behind it passes all checks without an error. -/
theorem validate_strays_isValid :
    SingleRooted maxNesting [.opening "a", .closing "a"] ∧
      taggedSource ([.opening "a", .closing "a"] ++ closings ["b"]) =
        "const A = () => (<a></a></b>);" ∧
      (validate ⟨.ofSource Catalog.builtinSource, .default⟩
        "const A = () => (<a></a></b>);").isValid = true ∧
      ∀ d ∈
        (validate ⟨.ofSource Catalog.builtinSource, .default⟩
          "const A = () => (<a></a></b>);").diagnostics,
        d.kind ≠ .grammar :=
  ⟨.element "a" (.nil 99), by decide, by decide +kernel, by decide +kernel⟩

end Strays

end DesignCompiler.Validation
