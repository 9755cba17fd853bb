import DesignCompiler.Proofs.Synthesis.Outputs
import DesignCompiler.Proofs.Validation.Reports

/-!
# What the rules report

Each rule on a source that was made from a tree: what it can report at all, and when it reports
nothing. `Conforms` says of the elements and imports of a source what keeps the rules quiet; only
a component that stands outside of the one it belongs in, an element to act on that says nothing,
and a long style are left to report.
-/

namespace DesignCompiler.Validation

open Markup (Structure Element Attribute)
open Synthesis (Binds IsMade)

/-! ## Elements without their lines -/

section Unplaced

variable {e : Element}

theorem hasAttribute_unplaced (e : Element) (name : String) :
    e.unplaced.hasAttribute name = e.hasAttribute name := by
  unfold Element.hasAttribute Element.attribute? Element.unplaced
  rw [List.find?_map, Option.isSome_map]
  rfl

theorem hasSpread_unplaced (e : Element) : e.unplaced.hasSpread = e.hasSpread := by
  unfold Element.hasSpread Element.unplaced
  rw [List.any_map]
  rfl

theorem isImageLike_unplaced (e : Element) : isImageLike e.unplaced = isImageLike e := by
  unfold isImageLike
  rw [hasAttribute_unplaced]
  rfl

/-- Whether an element is found fault with does not depend on where it stands. -/
theorem message_labelFindings_unplaced (e : Element) :
    (labelFindings e.unplaced).map (·.message) = (labelFindings e).map (·.message) := by
  have hlabels : e.unplaced.hasAttribute = e.hasAttribute := funext (hasAttribute_unplaced e)
  unfold labelFindings
  rw [hlabels]
  have htag : e.unplaced.tag = e.tag := rfl
  have hcontent : e.unplaced.hasContent = e.hasContent := rfl
  rw [htag, hcontent]
  split <;> rfl

theorem imageFindings_eq_nil_iff :
    imageFindings e = [] ↔ (isImageLike e = true → e.hasAttribute "alt" = true) := by
  unfold imageFindings
  cases isImageLike e <;> cases e.hasAttribute "alt" <;> simp

theorem valueFindings_unplaced_eq_nil {entry : Catalog.Entry} {tag : String} {a : Attribute}
    (h : valueFindings entry tag a.unplaced = []) : valueFindings entry tag a = [] := by
  unfold valueFindings at h ⊢
  have hname : a.unplaced.name = a.name := rfl
  have hvalue : a.unplaced.value = a.value := rfl
  rw [hname, hvalue] at h
  split
  · rfl
  · rename_i p hp
    rw [hp] at h
    simp only at h ⊢
    split
    · rfl
    · rename_i value hliteral
      rw [hliteral] at h
      simp only at h ⊢
      split at h
      · rename_i hallowed
        rw [if_pos hallowed]
      · cases h

end Unplaced

/-! ## Sources of trees -/

/-- Elements and imports that give the rules no cause: every component is bound and every binding
is used, nothing is out of date, values are allowed, nothing is spread or handled in place, and
images have an alternative text. -/
structure Conforms (catalog : Catalog.Index) (imports : List (String × String))
    (shown : List Element) : Prop where
  bound : ∀ e ∈ shown, e.isComponent = true → ∃ i ∈ imports, i.2 = e.rootBinding
  used : ∀ i ∈ imports, ∃ e ∈ shown, e.rootBinding = i.2
  current : ∀ e ∈ shown, e.tag ≠ "Col" ∧ e.tag ≠ "Tabs.TabPane"
  values : ∀ e ∈ shown, ∀ entry, catalog.entry? e.tag = some entry → ∀ a ∈ e.attributes,
    valueFindings entry e.tag a = []
  images : ∀ e ∈ shown, isImageLike e = true → e.hasAttribute "alt" = true
  spreads : ∀ e ∈ shown, ∀ a ∈ e.attributes, a.isSpread = false
  handlers : ∀ e ∈ shown, ∀ a ∈ e.attributes, isEventName a.name = false

section Rules

variable {s : Structure} {imports : List (String × String)} {shown : List Element}
  {context : Context}

theorem unplaced_mem (hmade : IsMade s imports shown) {e : Element} (he : e ∈ s.elements) :
    e.unplaced ∈ shown := by
  rw [← hmade.elements]
  exact List.mem_map_of_mem he

theorem exists_unplaced_eq (hmade : IsMade s imports shown) {e : Element} (he : e ∈ shown) :
    ∃ e' ∈ s.elements, e'.unplaced = e := by
  rw [← hmade.elements] at he
  exact List.mem_map.1 he

theorem unplaced_mem_attributes {e : Element} {a : Attribute} (ha : a ∈ e.attributes) :
    a.unplaced ∈ e.unplaced.attributes :=
  List.mem_map_of_mem ha

theorem check_pairingRule (hmade : IsMade s imports shown) :
    (pairingRule.check context s).diagnostics = [] := by
  rw [check_eq_of_write_eq (write_pairingRule context s), hmade.unclosed,
    hmade.unexpectedClosings]
  rfl

theorem unboundFindings_eq_nil {reported : List String} {elements : List Element}
    (h : ∀ e ∈ elements, s.isBound e.rootBinding = true) :
    unboundFindings s reported elements = [] := by
  induction elements with
  | nil => rfl
  | cons e elements ih =>
    rw [unboundFindings, h e List.mem_cons_self, Bool.true_or, if_pos rfl]
    exact ih fun e' he' => h e' (List.mem_cons_of_mem e he')

/-- All that is rendered is bound, and all that is bound is rendered. -/
theorem check_importRule (hmade : IsMade s imports shown)
    (hconforms : Conforms context.catalog imports shown) :
    (importRule.check context s).diagnostics = [] := by
  have hreact : missingReactFindings s = [] := by
    obtain ⟨i, hi, hmodule⟩ := hmade.binds.react
    have hmem : i ∈ s.importsFrom "react" := List.mem_filter.2 ⟨hi, by simpa using hmodule⟩
    unfold missingReactFindings
    rw [if_neg]
    simpa using List.ne_nil_of_mem hmem
  have hbound : unboundFindings s [] (s.elements.filter (·.isComponent)) = [] := by
    refine unboundFindings_eq_nil fun e he => ?_
    obtain ⟨hmem, hcomponent⟩ := List.mem_filter.1 he
    obtain ⟨i, hi, hroot⟩ := hconforms.bound e.unplaced (unplaced_mem hmade hmem) hcomponent
    obtain ⟨j, hj, hlocal⟩ := hmade.binds.bound i hi
    have hmem : e.rootBinding ∈ j.locals := by
      rw [hroot] at hlocal
      exact hlocal
    have hany : s.imports.any (fun i => i.locals.contains e.rootBinding) = true :=
      List.any_eq_true.2 ⟨j, hj, by simpa using hmem⟩
    unfold Structure.isBound
    rw [hany, Bool.true_or]
  have hused : (s.importsFrom context.options.libraryModule).flatMap
      (unusedFindings (s.elements.map (·.rootBinding))) = [] := by
    rw [List.flatMap_eq_nil_iff]
    intro i hi
    unfold unusedFindings
    rw [List.map_eq_nil_iff, List.filter_eq_nil_iff]
    intro n hn
    obtain ⟨-, himport⟩ := hmade.binds.named i (List.mem_filter.1 hi).1 n hn
    obtain ⟨e, he, hroot⟩ := hconforms.used _ himport
    obtain ⟨e', he', rfl⟩ := exists_unplaced_eq hmade he
    have hmem : n.bound ∈ s.elements.map (·.rootBinding) := List.mem_map.2 ⟨e', he', hroot⟩
    simpa using List.mem_map.1 hmem
  rw [check_eq_of_write_eq (write_importRule context s), hreact, hbound, hused]
  exact ite_self _

/-- What is imported goes by its own name. -/
theorem resolveTag_eq (hmade : IsMade s imports shown) (library tag : String) :
    resolveTag s library tag = tag := by
  unfold resolveTag
  simp only
  split
  · rename_i n hn
    have hroot : n.bound = Markup.rootOfTag tag := by simpa using List.find?_some hn
    obtain ⟨i, hi, hnamed⟩ := List.mem_flatMap.1 (List.mem_of_find?_eq_some hn)
    rw [if_pos]
    rw [(hmade.binds.named i (List.mem_filter.1 hi).1 n hnamed).1, hroot]
  · rfl

theorem orphans_eq (hmade : IsMade s imports shown) (library component ancestor : String) :
    orphans s library component ancestor =
      s.elements.filter fun e => e.tag == component && !e.ancestors.contains ancestor := by
  unfold orphans
  congr 1
  funext e
  rw [resolveTag_eq hmade, List.contains_eq_any_beq]
  congr 2
  refine congrArg (fun p => e.ancestors.any p) (funext fun a => ?_)
  rw [resolveTag_eq hmade]
  exact Bool.beq_comm

theorem orphanFindings_eq_nil_iff (library component ancestor : String) :
    orphanFindings s library component ancestor = [] ↔
      orphans s library component ancestor = [] := by
  unfold orphanFindings
  cases orphans s library component ancestor <;> simp

theorem of_mem_orphanFindings {library component ancestor : String} {d : Diagnostic}
    (hd : d ∈ orphanFindings s library component ancestor) :
    d.kind = .libraryUsage ∧ d.isError = true := by
  unfold orphanFindings at hd
  simp only at hd
  split at hd
  · cases hd
  · rw [List.mem_singleton.1 hd]
    exact ⟨rfl, rfl⟩

/-- The rule on usage reports form items outside of forms. -/
theorem check_usageRule (hmade : IsMade s imports shown)
    (hconforms : Conforms context.catalog imports shown) :
    (usageRule.check context s).diagnostics =
      orphanFindings s context.options.libraryModule "Form.Item" "Form" := by
  have hcolumns : orphanFindings s context.options.libraryModule "Col" "Row" = [] := by
    rw [orphanFindings_eq_nil_iff, orphans_eq hmade, List.filter_eq_nil_iff]
    intro e he
    have htag : e.tag ≠ "Col" := (hconforms.current e.unplaced (unplaced_mem hmade he)).1
    simp [htag]
  have hpanes : deprecatedFindings s context.options.libraryModule "Tabs.TabPane"
      "use the \x60items\x60 prop of <Tabs> instead" = [] := by
    have hnone : (s.elements.find? fun e =>
        resolveTag s context.options.libraryModule e.tag == "Tabs.TabPane") = none := by
      rw [List.find?_eq_none]
      intro e he
      have htag : e.tag ≠ "Tabs.TabPane" :=
        (hconforms.current e.unplaced (unplaced_mem hmade he)).2
      rw [resolveTag_eq hmade]
      simpa using htag
    unfold deprecatedFindings
    rw [hnone]
  rw [check_eq_of_write_eq (write_usageRule context s)]
  unfold Report.ofDiagnostics requiredAncestors deprecated
  simp only [List.flatMap_cons, List.flatMap_nil, hcolumns, hpanes, List.append_nil]

theorem check_usageRule_ne_nil_iff (hmade : IsMade s imports shown)
    (hconforms : Conforms context.catalog imports shown) :
    (usageRule.check context s).diagnostics ≠ [] ↔
      ∃ e ∈ shown, e.tag = "Form.Item" ∧ "Form" ∉ e.ancestors := by
  rw [check_usageRule hmade hconforms, Ne, orphanFindings_eq_nil_iff, orphans_eq hmade,
    List.filter_eq_nil_iff, ← hmade.elements]
  simp only [List.mem_map, exists_exists_and_eq_and]
  push Not
  refine exists_congr fun e => and_congr_right fun _ => ?_
  simp [Element.unplaced]

/-- Values that are written are allowed. -/
theorem check_valueRule (hmade : IsMade s imports shown)
    (hconforms : Conforms context.catalog imports shown) :
    (valueRule.check context s).diagnostics = [] := by
  rw [check_eq_of_write_eq (write_valueRule context s)]
  refine List.flatMap_eq_nil_iff.2 fun e he => ?_
  have hmem := unplaced_mem hmade (List.mem_filter.1 he).1
  unfold elementValueFindings
  rw [resolveTag_eq hmade]
  split
  · rfl
  · rename_i entry hentry
    rw [List.flatMap_eq_nil_iff]
    intro a ha
    exact valueFindings_unplaced_eq_nil
      (hconforms.values e.unplaced hmem entry hentry a.unplaced (unplaced_mem_attributes ha))

/-- The findings on accessibility are those on elements that say nothing. -/
theorem messages_accessibilityRule (hmade : IsMade s imports shown)
    (hconforms : Conforms context.catalog imports shown) :
    (accessibilityRule.check context s).diagnostics.map (·.message) =
      shown.flatMap fun e => (labelFindings e).map (·.message) := by
  have hspread : s.elements.filter (!·.hasSpread) = s.elements := by
    rw [List.filter_eq_self]
    intro e he
    have hmem := unplaced_mem hmade he
    have hnone : e.unplaced.hasSpread = false := by
      rw [Element.hasSpread, List.any_eq_false]
      intro a ha
      rw [hconforms.spreads _ hmem a ha]
      exact Bool.false_ne_true
    rw [hasSpread_unplaced] at hnone
    rw [hnone]
    rfl
  have himages : ∀ e ∈ s.elements, imageFindings e ++ labelFindings e = labelFindings e := by
    intro e he
    have halt := hconforms.images _ (unplaced_mem hmade he)
    rw [isImageLike_unplaced, hasAttribute_unplaced, ← imageFindings_eq_nil_iff] at halt
    rw [halt, List.nil_append]
  rw [check_eq_of_write_eq (write_accessibilityRule context s)]
  show ((s.elements.filter (!·.hasSpread)).flatMap
    fun e => imageFindings e ++ labelFindings e).map (·.message) = _
  rw [hspread, List.flatMap_congr himages, ← hmade.elements, List.flatMap_map, List.map_flatMap]
  exact List.flatMap_congr fun e _ => (message_labelFindings_unplaced e).symm

theorem of_mem_accessibilityRule {d : Diagnostic}
    (hd : d ∈ (accessibilityRule.check context s).diagnostics) :
    d.kind = .accessibility ∧ d.isError = false := by
  rw [check_eq_of_write_eq (write_accessibilityRule context s)] at hd
  obtain ⟨e, -, hd⟩ := List.mem_flatMap.1 hd
  rcases List.mem_append.1 hd with hd | hd
  · unfold imageFindings at hd
    split at hd
    · rw [List.mem_singleton.1 hd]
      exact ⟨rfl, rfl⟩
    · cases hd
  · unfold labelFindings at hd
    split at hd
    · rw [List.mem_singleton.1 hd]
      exact ⟨rfl, rfl⟩
    · cases hd

theorem check_performanceRule (hmade : IsMade s imports shown)
    (hconforms : Conforms context.catalog imports shown) :
    (performanceRule.check context s).diagnostics = [] := by
  rw [check_eq_of_write_eq (write_performanceRule context s)]
  refine List.flatMap_eq_nil_iff.2 fun e he => List.flatMap_eq_nil_iff.2 fun a ha => ?_
  have hname : isEventName a.name = false :=
    hconforms.handlers _ (unplaced_mem hmade he) a.unplaced (unplaced_mem_attributes ha)
  unfold handlerFindings
  rw [hname]
  split <;> rfl

theorem check_practiceRule (hmade : IsMade s imports shown) :
    (practiceRule.check context s).diagnostics = [] := by
  rw [check_eq_of_write_eq (write_practiceRule context s)]
  refine List.flatMap_eq_nil_iff.2 fun d hd => ?_
  unfold nameFindings
  rw [hmade.capital d hd, Bool.not_true, Bool.and_false, if_neg Bool.false_ne_true]

theorem of_mem_styleRule {d : Diagnostic} (hd : d ∈ (styleRule.check context s).diagnostics) :
    d.kind = .style ∧ d.isError = false := by
  rw [check_eq_of_write_eq (write_styleRule context s)] at hd
  obtain ⟨e, -, hd⟩ := List.mem_flatMap.1 hd
  unfold styleFindings at hd
  split at hd
  · cases hd
  · split at hd
    · cases hd
    · split at hd
      · rw [List.mem_singleton.1 hd]
        exact ⟨rfl, rfl⟩
      · cases hd

end Rules

end DesignCompiler.Validation
