import DesignCompiler.Validation.Verdict
import Mathlib.Data.List.Find

/-!
# The report that rules share

Rules push into one report. A rule `Appends` if it leaves what is there and adds behind it what it
reports alone; the report of a run of such rules is what the enabled ones report alone, in their
order (`runRules_eq`). All default rules append (`appends_of_mem_defaultRules`);
`write_pairingRule` and its siblings say what each of them adds.

`ResolvesAlike` relates two structures whose tags are resolved to the same components, element by
element. The rule on usage finds the same on both, apart from the lines.
-/

namespace DesignCompiler.Validation

open Markup (Structure Element)

/-! ## Reports -/

namespace Report

variable {report : Report}

theorem none_append (report : Report) : none ++ report = report := by
  show Report.mk ([] ++ report.diagnostics) ([] ++ report.suggestions) = report
  rw [List.nil_append, List.nil_append]

theorem append_none (report : Report) : report ++ none = report := by
  show Report.mk (report.diagnostics ++ []) (report.suggestions ++ []) = report
  rw [List.append_nil, List.append_nil]

theorem append_assoc (a b c : Report) : a ++ b ++ c = a ++ (b ++ c) := by
  show Report.mk (a.diagnostics ++ b.diagnostics ++ c.diagnostics)
    (a.suggestions ++ b.suggestions ++ c.suggestions) =
    Report.mk (a.diagnostics ++ (b.diagnostics ++ c.diagnostics))
      (a.suggestions ++ (b.suggestions ++ c.suggestions))
  rw [List.append_assoc, List.append_assoc]

theorem ofDiagnostics_append (ds ds' : List Diagnostic) :
    ofDiagnostics (ds ++ ds') = ofDiagnostics ds ++ ofDiagnostics ds' := rfl

/-- Pushing findings one by one puts them behind the report. -/
theorem pushEach_eq (report : Report) (ds : List Diagnostic) :
    report.pushEach ds = report ++ ofDiagnostics ds := by
  induction ds generalizing report with
  | nil => exact (append_none report).symm
  | cons d ds ih =>
    have hpush : report.push d = report ++ ofDiagnostics [d] := by
      show Report.mk _ _ = Report.mk (report.diagnostics ++ [d]) (report.suggestions ++ [])
      rw [List.append_nil]
    show (report.push d).pushEach ds = _
    rw [ih, hpush, append_assoc, ← ofDiagnostics_append, List.singleton_append]

/-- Making suggestions one by one puts them behind the report. -/
theorem suggestEach_eq (report : Report) (suggestions : List String) :
    report.suggestEach suggestions = report ++ ⟨[], suggestions⟩ := by
  induction suggestions generalizing report with
  | nil => exact (append_none report).symm
  | cons suggestion suggestions ih =>
    have hsuggest : report.suggest suggestion = report ++ ⟨[], [suggestion]⟩ := by
      show Report.mk _ _ = Report.mk (report.diagnostics ++ [])
        (report.suggestions ++ [suggestion])
      rw [List.append_nil]
    show (report.suggest suggestion).suggestEach suggestions = _
    rw [ih, hsuggest, append_assoc]
    rfl

end Report

/-! ## Rules that append -/

/-- The rule leaves the report as it is and adds what it reports alone. -/
def Rule.Appends (r : Rule) : Prop :=
  ∀ context s report, r.write context s report = report ++ r.check context s

section Runs

variable {rules : List Rule}

/-- What the rules report, each alone, one after the other. -/
def reportsOf (rules : List Rule) (context : Context) (s : Structure) : Report :=
  rules.foldr (fun r later => r.check context s ++ later) .none

theorem foldl_write (h : ∀ r ∈ rules, r.Appends) (context : Context) (s : Structure)
    (report : Report) :
    rules.foldl (fun report r => r.write context s report) report =
      report ++ reportsOf rules context s := by
  induction rules generalizing report with
  | nil => exact (Report.append_none report).symm
  | cons r rules ih =>
    rw [List.foldl_cons, ih (fun r' hr' => h r' (List.mem_cons_of_mem r hr')),
      h r List.mem_cons_self, Report.append_assoc]
    rfl

/-- Rules that append do not see each other: a run reports what the enabled ones report alone. -/
theorem runRules_eq (h : ∀ r ∈ rules, r.Appends) (context : Context) (s : Structure) :
    runRules rules context s =
      reportsOf (rules.filter (·.enabled context.options)) context s := by
  unfold runRules
  rw [foldl_write fun r hr => h r (List.mem_filter.1 hr).1, Report.none_append]

theorem diagnostics_reportsOf (rules : List Rule) (context : Context) (s : Structure) :
    (reportsOf rules context s).diagnostics =
      rules.flatMap fun r => (r.check context s).diagnostics := by
  induction rules with
  | nil => rfl
  | cons r rules ih =>
    rw [List.flatMap_cons, ← ih]
    rfl

theorem suggestions_reportsOf (rules : List Rule) (context : Context) (s : Structure) :
    (reportsOf rules context s).suggestions =
      rules.flatMap fun r => (r.check context s).suggestions := by
  induction rules with
  | nil => rfl
  | cons r rules ih =>
    rw [List.flatMap_cons, ← ih]
    rfl

/-- What is gathered from those that pass is gathered from all, from the others nothing. -/
theorem flatMap_filter {ι α : Type} (p : ι → Bool) (f : ι → List α) (items : List ι) :
    (items.filter p).flatMap f = items.flatMap fun i => if p i then f i else [] := by
  induction items with
  | nil => rfl
  | cons i items ih =>
    rw [List.flatMap_cons, ← ih, List.filter_cons]
    split
    · rw [List.flatMap_cons]
    · rw [List.nil_append]

end Runs

/-! ## The default rules -/

section Defaults

/-- A rule that puts the same report behind every other one appends it. -/
theorem check_eq_of_write_eq {r : Rule} {context : Context} {s : Structure} {own : Report}
    (h : ∀ report, r.write context s report = report ++ own) : r.check context s = own := by
  rw [Rule.check, h, Report.none_append]

theorem Rule.Appends.of_write_eq {r : Rule} {own : Context → Structure → Report}
    (h : ∀ context s report, r.write context s report = report ++ own context s) : r.Appends := by
  intro context s report
  rw [h, check_eq_of_write_eq (h context s)]

variable (context : Context) (s : Structure) (report : Report)

theorem write_pairingRule : pairingRule.write context s report =
    report ++ .ofDiagnostics
      (s.unclosed.map unclosedFinding ++ s.unexpectedClosings.map unexpectedFinding) := by
  show (report.pushEach _).pushEach _ = _
  rw [Report.pushEach_eq, Report.pushEach_eq, Report.append_assoc, ← Report.ofDiagnostics_append]

theorem write_importRule : importRule.write context s report =
    report ++ .ofDiagnostics (if s.elements.isEmpty then [] else
      missingReactFindings s ++ unboundFindings s [] (s.elements.filter (·.isComponent)) ++
        (s.importsFrom context.options.libraryModule).flatMap
          (unusedFindings (s.elements.map (·.rootBinding)))) := by
  show (if s.elements.isEmpty then report else ((report.pushEach _).pushEach _).pushEach _) = _
  split
  · exact (Report.append_none report).symm
  · rw [Report.pushEach_eq, Report.pushEach_eq, Report.pushEach_eq, Report.append_assoc,
      Report.append_assoc, ← Report.ofDiagnostics_append, ← Report.ofDiagnostics_append,
      List.append_assoc]

theorem write_usageRule : usageRule.write context s report =
    report ++ .ofDiagnostics
      ((requiredAncestors.flatMap
        fun p => orphanFindings s context.options.libraryModule p.1 p.2) ++
        deprecated.flatMap fun p =>
          deprecatedFindings s context.options.libraryModule p.1 p.2) := by
  show (report.pushEach _).pushEach _ = _
  rw [Report.pushEach_eq, Report.pushEach_eq, Report.append_assoc, ← Report.ofDiagnostics_append]

theorem write_valueRule : valueRule.write context s report =
    report ++ .ofDiagnostics
      ((s.elements.filter (·.isComponent)).flatMap (elementValueFindings context s)) :=
  Report.pushEach_eq _ _

theorem write_accessibilityRule : accessibilityRule.write context s report =
    report ++ .ofDiagnostics
      ((s.elements.filter (!·.hasSpread)).flatMap fun e => imageFindings e ++ labelFindings e) :=
  Report.pushEach_eq _ _

theorem write_performanceRule : performanceRule.write context s report =
    report ++ .ofDiagnostics
      (s.elements.flatMap fun e => e.attributes.flatMap (handlerFindings e)) :=
  Report.pushEach_eq _ _

theorem write_practiceRule : practiceRule.write context s report =
    report ++ ⟨s.declarations.flatMap (nameFindings s), sizeSuggestions context s⟩ := by
  show (report.pushEach _).suggestEach _ = _
  rw [Report.suggestEach_eq, Report.pushEach_eq, Report.append_assoc]
  show report ++ Report.mk (s.declarations.flatMap (nameFindings s) ++ [])
    ([] ++ sizeSuggestions context s) = _
  rw [List.append_nil, List.nil_append]

theorem write_styleRule : styleRule.write context s report =
    report ++ .ofDiagnostics (s.elements.flatMap (styleFindings context)) :=
  Report.pushEach_eq _ _

theorem appends_of_mem_defaultRules : ∀ r ∈ defaultRules, r.Appends := by
  simp only [defaultRules, List.forall_mem_cons]
  exact ⟨.of_write_eq write_pairingRule, .of_write_eq write_importRule,
    .of_write_eq write_usageRule, .of_write_eq write_valueRule,
    .of_write_eq write_accessibilityRule, .of_write_eq write_performanceRule,
    .of_write_eq write_practiceRule, .of_write_eq write_styleRule, List.forall_mem_nil _⟩

/-- The verdict on a source is that on what the default rules report of its structure. -/
theorem validate_eq_ofReport {context : Context} {source : String} {s : Structure}
    (hs : Structure.ofText source = .ok s) :
    validate context source = .ofReport (runRules defaultRules context s) := by
  unfold validate validateWith
  rw [hs]

end Defaults

/-! ## Structures that are resolved alike -/

/-- The second structure has the elements of the first one changed by `f`, and their tags and
those around them are resolved as they are there. -/
structure ResolvesAlike (library : String) (f : Element → Element) (s s' : Structure) : Prop where
  elements : s'.elements = s.elements.map f
  tag : ∀ e ∈ s.elements, resolveTag s' library (f e).tag = resolveTag s library e.tag
  ancestors : ∀ e ∈ s.elements,
    (f e).ancestors.map (resolveTag s' library) = e.ancestors.map (resolveTag s library)

namespace ResolvesAlike

variable {library : String} {f : Element → Element} {s s' : Structure}
  (h : ResolvesAlike library f s s')

include h

theorem orphans_eq (component ancestor : String) :
    orphans s' library component ancestor = (orphans s library component ancestor).map f := by
  unfold orphans
  rw [h.elements, List.filter_map]
  refine congrArg (List.map f) (List.filter_congr fun e he => ?_)
  show (resolveTag s' library (f e).tag == component &&
    !(f e).ancestors.any ((· == ancestor) ∘ resolveTag s' library)) = _
  rw [h.tag e he, ← List.any_map, h.ancestors e he, List.any_map]
  rfl

variable {g : Diagnostic → Diagnostic}
  (hline : ∀ (d : Diagnostic) (e : Element), d.atLine (f e).line = g (d.atLine e.line))

include hline

theorem orphanFindings_eq (component ancestor : String) :
    orphanFindings s' library component ancestor =
      (orphanFindings s library component ancestor).map g := by
  unfold orphanFindings
  rw [h.orphans_eq]
  cases orphans s library component ancestor with
  | nil => rfl
  | cons first rest =>
    simp only [List.map_cons, List.length_cons, List.length_map, hline]
    rfl

theorem deprecatedFindings_eq (component advice : String) :
    deprecatedFindings s' library component advice =
      (deprecatedFindings s library component advice).map g := by
  have hfind : (s'.elements.find? fun e => resolveTag s' library e.tag == component) =
      (s.elements.find? fun e => resolveTag s library e.tag == component).map f := by
    rw [h.elements, List.find?_map]
    exact congrArg (Option.map f)
      (List.find?_congr fun e he => congrArg (· == component) (h.tag e he))
  unfold deprecatedFindings
  rw [hfind]
  cases s.elements.find? fun e => resolveTag s library e.tag == component with
  | none => rfl
  | some e => exact congrArg (fun d => [d]) (hline _ e)

end ResolvesAlike

end DesignCompiler.Validation
