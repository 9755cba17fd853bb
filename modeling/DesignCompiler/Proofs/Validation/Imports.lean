import DesignCompiler.Catalog.Builtin
import DesignCompiler.Proofs.Validation.Reports

/-!
# Findings on imports

What the rule on imports reports, said of the names that a source binds and of those that its
elements go by. A name is reported where the first component goes by it, and only there: `Firsts`
relates the elements of a source to the first ones of each name that is called for, and there is
one lemma for an element that is passed over and one for an element that is taken.
`check_importRule_eq` is the whole report.
-/

namespace DesignCompiler.Validation

open Markup (Structure Element NamedImport)

/-! ## Names that are bound -/

/-- The name is bound by an import, in whatever way, or declared. -/
def IsBound (s : Structure) (name : String) : Prop :=
  (∃ i ∈ s.imports, i.defaultName = some name ∨ i.namespaceName = some name ∨
    ∃ n ∈ i.named, n.bound = name) ∨
    ∃ d ∈ s.declarations, d.name = name

theorem mem_locals_iff {i : Markup.Import} {name : String} :
    name ∈ i.locals ↔ i.defaultName = some name ∨ i.namespaceName = some name ∨
      ∃ n ∈ i.named, n.bound = name := by
  unfold Markup.Import.locals
  rw [List.mem_append, List.mem_append, Option.mem_toList, Option.mem_toList, List.mem_map,
    or_assoc]

theorem isBound_iff {s : Structure} {name : String} : s.isBound name = true ↔ IsBound s name := by
  unfold Structure.isBound IsBound
  simp only [Bool.or_eq_true, List.any_eq_true, List.contains_iff_mem, beq_iff_eq, mem_locals_iff]

instance (s : Structure) (name : String) : Decidable (IsBound s name) :=
  decidable_of_iff _ isBound_iff

/-! ## The first elements of each name -/

/-- The first elements of the names that are called for, in the order of the elements. -/
structure Firsts (elements : List Element) (called : String → Prop) (firsts : List Element) :
    Prop where
  sublist : firsts.Sublist elements
  nodup : (firsts.map (·.rootBinding)).Nodup
  first : ∀ e ∈ firsts, elements.find? (fun e' => e'.rootBinding == e.rootBinding) = some e
  names : ∀ name, name ∈ firsts.map (·.rootBinding) ↔
    called name ∧ ∃ e ∈ elements, e.rootBinding = name

section Firsts

variable {elements firsts : List Element} {called : String → Prop} {e : Element}

theorem firsts_nil (called : String → Prop) : Firsts [] called [] := by
  refine ⟨.slnil, List.nodup_nil, List.forall_mem_nil _, fun name => ?_⟩
  simp

theorem Firsts.called_of_mem (h : Firsts elements called firsts) {e' : Element}
    (he' : e' ∈ firsts) :
    called e'.rootBinding :=
  ((h.names e'.rootBinding).1 (List.mem_map_of_mem he')).1

/-- An element in front is not the first of another name. -/
theorem find?_cons_of_ne {e' : Element} (hne : e.rootBinding ≠ e'.rootBinding)
    (h : elements.find? (fun f => f.rootBinding == e'.rootBinding) = some e') :
    (e :: elements).find? (fun f => f.rootBinding == e'.rootBinding) = some e' := by
  rw [List.find?_cons_of_neg (by simpa using hne)]
  exact h

/-- An element whose name is not called for is passed over. -/
theorem Firsts.skip (h : Firsts elements called firsts) (he : ¬called e.rootBinding) :
    Firsts (e :: elements) called firsts := by
  refine ⟨h.sublist.cons e, h.nodup, ?_, fun name => ?_⟩
  · intro e' he'
    refine find?_cons_of_ne ?_ (h.first e' he')
    intro hname
    exact he (hname ▸ h.called_of_mem he')
  · rw [h.names]
    refine and_congr_right fun hcalled => ?_
    constructor
    · rintro ⟨e', he', rfl⟩
      exact ⟨e', List.mem_cons_of_mem e he', rfl⟩
    · rintro ⟨e', he', rfl⟩
      rcases List.mem_cons.1 he' with rfl | he'
      · exact absurd hcalled he
      · exact ⟨e', he', rfl⟩

/-- An element whose name is called for is taken, and its name is not called for any more. -/
theorem Firsts.take (h : Firsts elements (fun name => called name ∧ name ≠ e.rootBinding) firsts)
    (he : called e.rootBinding) : Firsts (e :: elements) called (e :: firsts) := by
  refine ⟨h.sublist.cons_cons e, ?_, ?_, fun name => ?_⟩
  · rw [List.map_cons, List.nodup_cons]
    refine ⟨fun hmem => ?_, h.nodup⟩
    exact ((h.names _).1 hmem).1.2 rfl
  · intro e' he'
    rcases List.mem_cons.1 he' with rfl | he'
    · exact List.find?_cons_of_pos (by simp)
    · exact find?_cons_of_ne (h.called_of_mem he').2.symm (h.first e' he')
  · rw [List.map_cons, List.mem_cons, h.names]
    by_cases hname : name = e.rootBinding
    · subst hname
      exact iff_of_true (.inl rfl) ⟨he, e, List.mem_cons_self, rfl⟩
    · constructor
      · rintro (rfl | ⟨⟨hcalled, -⟩, e', he', rfl⟩)
        · exact absurd rfl hname
        · exact ⟨hcalled, e', List.mem_cons_of_mem e he', rfl⟩
      · rintro ⟨hcalled, e', he', rfl⟩
        rcases List.mem_cons.1 he' with rfl | he'
        · exact absurd rfl hname
        · exact .inr ⟨⟨hcalled, hname⟩, e', he', rfl⟩

theorem Firsts.congr {called' : String → Prop} (h : Firsts elements called firsts)
    (hcalled : ∀ name, called name ↔ called' name) : Firsts elements called' firsts := by
  obtain rfl : called = called' := funext fun name => propext (hcalled name)
  exact h

end Firsts

/-- The findings on names that are not bound are those on the first elements of them; a name that
was reported is not called for again. -/
theorem exists_firsts (s : Structure) (reported : List String) (elements : List Element) :
    ∃ firsts, Firsts elements (fun name => ¬IsBound s name ∧ name ∉ reported) firsts ∧
      unboundFindings s reported elements = firsts.map unboundFinding := by
  induction elements generalizing reported with
  | nil => exact ⟨[], firsts_nil _, rfl⟩
  | cons e elements ih =>
    have hpassed : (s.isBound e.rootBinding || reported.contains e.rootBinding) = true ↔
        ¬(¬IsBound s e.rootBinding ∧ e.rootBinding ∉ reported) := by
      rw [Bool.or_eq_true, isBound_iff, List.contains_iff_mem, not_and_or, not_not, not_not]
    rw [unboundFindings]
    split
    · rename_i hskip
      obtain ⟨firsts, hfirsts, hfindings⟩ := ih reported
      exact ⟨firsts, hfirsts.skip (hpassed.1 hskip), hfindings⟩
    · rename_i htake
      obtain ⟨firsts, hfirsts, hfindings⟩ := ih (e.rootBinding :: reported)
      have hcalled := not_not.1 (mt hpassed.2 htake)
      refine ⟨e :: firsts, Firsts.take (hfirsts.congr fun name => ?_) hcalled, by
        rw [hfindings, List.map_cons]⟩
      rw [List.mem_cons, not_or, and_assoc, and_comm (a := name ≠ _)]

/-! ## The report -/

/-- The names that are imported in braces from a module, each with its import. -/
def namedFrom (s : Structure) (module : String) : List (Markup.Import × NamedImport) :=
  (s.imports.filter (·.module = module)).flatMap fun i => i.named.map fun n => (i, n)

/-- The finding of an imported name that no element goes by. -/
def unusedFinding (p : Markup.Import × NamedImport) : Diagnostic :=
  (Diagnostic.warning .imports
    ("'" ++ p.2.bound ++ "' is imported from '" ++ p.1.module ++ "' but never rendered")).atLine
    p.1.line

/-- The first component among the elements that goes by the name. -/
def firstUse? (s : Structure) (name : String) : Option Element :=
  s.elements.find? fun e => e.isComponent = true ∧ e.rootBinding = name

theorem missingReactFindings_eq (s : Structure) :
    missingReactFindings s =
      if ∃ i ∈ s.imports, i.module = "react" then []
      else [.warning .imports "JSX is used but React is not imported"] := by
  have hnone : (s.importsFrom "react").isEmpty = true ↔ ¬∃ i ∈ s.imports, i.module = "react" := by
    unfold Structure.importsFrom
    simp
  unfold missingReactFindings
  by_cases hreact : ∃ i ∈ s.imports, i.module = "react"
  · rw [if_pos hreact, if_neg fun h => hnone.1 h hreact]
  · rw [if_neg hreact, if_pos (hnone.2 hreact)]

theorem flatMap_unusedFindings (s : Structure) (module : String) :
    (s.importsFrom module).flatMap (unusedFindings (s.elements.map (·.rootBinding))) =
      ((namedFrom s module).filter fun p => ∀ e ∈ s.elements, e.rootBinding ≠ p.2.bound).map
        unusedFinding := by
  have hunused (name : String) : (!(s.elements.map (·.rootBinding)).contains name) =
      decide (∀ e ∈ s.elements, e.rootBinding ≠ name) := by
    rw [Bool.eq_iff_iff]
    simp
  unfold namedFrom Structure.importsFrom unusedFindings
  rw [List.filter_flatMap, List.map_flatMap]
  simp only [List.filter_map, List.map_map, hunused]
  rfl

/-- **The report of the rule on imports**, for a source with elements. There is a warning just if
nothing is imported from React. Behind it each name that a component goes by, and that is neither
bound by an import nor declared, is reported once, on the first component that goes by it. Then
each name that is imported from the library, and that no element goes by, is reported on the line
of its import. That is all. -/
theorem check_importRule_eq (context : Context) (s : Structure) (hs : s.elements ≠ []) :
    ∃ firsts : List Element,
      importRule.check context s = .ofDiagnostics
        ((if ∃ i ∈ s.imports, i.module = "react" then []
          else [.warning .imports "JSX is used but React is not imported"]) ++
          firsts.map unboundFinding ++
          ((namedFrom s context.options.libraryModule).filter
            fun p => ∀ e ∈ s.elements, e.rootBinding ≠ p.2.bound).map unusedFinding) ∧
      firsts.Sublist s.elements ∧
      (firsts.map (·.rootBinding)).Nodup ∧
      (∀ name, name ∈ firsts.map (·.rootBinding) ↔
        (∃ e ∈ s.elements, e.isComponent = true ∧ e.rootBinding = name) ∧ ¬IsBound s name) ∧
      ∀ e ∈ firsts, firstUse? s e.rootBinding = some e := by
  obtain ⟨firsts, hfirsts, hfindings⟩ := exists_firsts s [] (s.elements.filter (·.isComponent))
  refine ⟨firsts, ?_, hfirsts.sublist.trans List.filter_sublist, hfirsts.nodup, fun name => ?_,
    fun e he => ?_⟩
  · have hsome : ¬s.elements.isEmpty = true := by simpa using hs
    rw [check_eq_of_write_eq (write_importRule context s), if_neg hsome, hfindings,
      missingReactFindings_eq, flatMap_unusedFindings]
  · rw [hfirsts.names, and_comm]
    simp only [List.mem_filter, List.not_mem_nil, not_false_iff, and_true, and_assoc]
  · have hfirst := hfirsts.first e he
    simpa only [firstUse?, List.find?_filter, beq_iff_eq] using hfirst

/-- A button under an alias, a form item that is imported from nowhere twice, a component of the
source's own, and a tag that is imported and not shown. -/
def strayItems : Structure where
  imports := [⟨"antd", none, none, [⟨"Button", "Btn"⟩, ⟨"Tag", "Tag"⟩], 1⟩]
  declarations := [⟨"Page", 2⟩]
  elements :=
    [⟨"Page", [], 3, [], "", false, true, false⟩,
      ⟨"Form.Item", [], 4, ["Page"], "", false, true, false⟩,
      ⟨"Btn", [], 5, ["Page", "Form.Item"], "Go", false, false, false⟩,
      ⟨"Form.Item", [], 6, ["Page"], "", false, false, true⟩]
  unexpectedClosings := []
  unclosed := []
  lineCount := 7

/-- The form items are reported once, on the line of the first one. -/
theorem check_importRule_strayItems :
    strayItems.elements ≠ [] ∧
    (importRule.check ⟨.ofSource Catalog.builtinSource, .default⟩ strayItems).diagnostics =
      [.warning .imports "JSX is used but React is not imported",
        (Diagnostic.error .imports
          "<Form.Item> is used but 'Form' is not imported or declared").atLine 4,
        (Diagnostic.warning .imports "'Tag' is imported from 'antd' but never rendered").atLine
          1] ∧
    ∃ firsts : List Element, ⟨"Form.Item", [], 4, ["Page"], "", false, true, false⟩ ∈ firsts ∧
      (firsts.map (·.rootBinding)).Nodup ∧ firsts.Sublist strayItems.elements := by
  have hne : strayItems.elements ≠ [] := List.cons_ne_nil _ _
  obtain ⟨firsts, -, hsublist, hnodup, hnames, hfirst⟩ :=
    check_importRule_eq ⟨.ofSource Catalog.builtinSource, .default⟩ strayItems hne
  refine ⟨hne, by decide, firsts, ?_, hnodup, hsublist⟩
  obtain ⟨e, he, hname : e.rootBinding = "Form"⟩ := List.mem_map.1 ((hnames "Form").2 (by decide))
  have hitem := hfirst e he
  rw [hname] at hitem
  obtain rfl := Option.some.inj (hitem.symm.trans (by rfl : _ = some _))
  exact he

end DesignCompiler.Validation
