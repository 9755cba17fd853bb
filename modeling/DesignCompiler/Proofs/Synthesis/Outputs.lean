import DesignCompiler.Proofs.Synthesis.RoundTrip
import DesignCompiler.Proofs.Synthesis.Structures

/-!
# Every output taken apart

`exists_isMade_synthesize`: whatever a synthesis comes to, its source is taken apart, and what is
found is either what the tree shows and uses or the element that stands in place of a tree that
was given up.
-/

namespace DesignCompiler.Synthesis

open Mapping (MappedNode MappedTree)
open Markup (Cursor Element IsRead SpelledAttribute Structure)

/-! ## The fallback -/

section Fallback

variable {options : Options} {name message : String}

/-- The style of the fallback, which stands in the braces of its attribute. -/
def fallbackStyle : List Char :=
  "\x7b color: 'red' \x7d".toList

/-- The element in place of a tree that was given up. Its text is an expression. -/
def fallbackElement : Element where
  tag := "div"
  attributes := [⟨"style", .expression (String.ofList fallbackStyle), 0⟩]
  line := 0
  ancestors := []
  text := ""
  hasExpressionChild := true
  hasElementChild := false
  selfClosing := false

/-- The fallback between the blanks and the end of its line. -/
def fallbackTag (message : String) : List Char :=
  "<div style=\x7b\x7b color: 'red' \x7d\x7d>".toList ++
    (inBraces (Json.quote message) ++ "</div>".toList)

theorem fallbackTag_eq (message : String) (rest : List Char) :
    fallbackTag message ++ rest =
      Markup.tagStart "div" [⟨"style", .braces fallbackStyle⟩] [] ++
        '>' ::
          ('\x7b' ::
            (Json.quote message ++ '\x7d' :: ('<' :: '/' :: ("div".toList ++ '>' :: rest)))) := by
  have hopening : "<div style=\x7b\x7b color: 'red' \x7d\x7d>".toList =
      Markup.tagStart "div" [⟨"style", .braces fallbackStyle⟩] [] ++ ['>'] := rfl
  show "<div style=\x7b\x7b color: 'red' \x7d\x7d>".toList ++
    (inBraces (Json.quote message) ++ "</div>".toList) ++ rest = _
  rw [hopening]
  simp [inBraces]

theorem passable_fallbackStyle : Markup.Passable fallbackStyle := by
  have hquoted : Markup.Passable ('\x27' :: ("red".toList ++ ['\x27'])) :=
    Markup.passable_quoted (by decide) (Markup.enclosed_of_plain (by decide))
  have hinside : Markup.Passable
      (" color: ".toList ++ ('\x27' :: ("red".toList ++ ['\x27']) ++ [' '])) :=
    (Markup.passable_of_inert (by decide)).append
      (hquoted.append (Markup.passable_of_inert (by decide)))
  exact hinside.braces

theorem readable_fallbackStyle :
    ∀ a ∈ [(⟨"style", .braces fallbackStyle⟩ : SpelledAttribute)], a.Readable := by
  intro a ha
  rw [List.mem_singleton.1 ha]
  exact ⟨⟨by decide, by decide⟩, by decide, passable_fallbackStyle⟩

theorem step_fallbackTag {before : List Char} (hbefore : Markup.operandMayFollow before = true)
    (rest : List Char) (line : Nat) :
    (Cursor.mk before (fallbackTag message ++ rest) line).step = .element := by
  rw [fallbackTag_eq]
  refine Markup.step_element line ?_ ?_
  · simp [Markup.elementMayStart, hbefore, Text.isAlphabetic]
  · have htag : ∀ d ∈ "div".toList, Markup.isTagChar d = true := by decide
    exact Markup.startsTypeParameters_openingTag htag
      (fun a ha => (readable_fallbackStyle a ha).tag) (fun _ => by decide) (List.forall_mem_nil _)
      (.inl rfl) _

theorem reads_fallbackTag {c : Cursor} {rest : List Char}
    (hc : c.rest = fallbackTag message ++ rest) :
    Markup.Reads (Markup.scanElement Markup.maxNesting [] c) [fallbackElement] rest := by
  rw [fallbackTag_eq] at hc
  have htag : Markup.IsTag "div".toList := ⟨by decide, by decide⟩
  refine Markup.reads_closed htag readable_fallbackStyle (by simp) hc ?_
  intro bound d hd
  obtain ⟨e, he, hcontinues⟩ :=
    Markup.continues_expression _ _ _ _ (Json.passable_quote message) hd
  rw [showsSomething_quote] at hcontinues
  exact ⟨_, _, e, hcontinues, he, Markup.Findings.clean_none, rfl, rfl, rfl⟩

/-- The source of a tree that was given up is read back as the fallback. -/
theorem isRead_fallbackText (options : Options)
    (hname : Catalog.isNameSegment name.toList = true) :
    IsRead (sourceText options name (importLines []) (some (fallbackText options message)))
      [fallbackElement] :=
  isRead_sourceText (fallbackTag message) hname (passable_importLines (by simp))
    (fun _ rest line hbefore => step_fallbackTag hbefore rest line)
    fun _ _ hc => reads_fallbackTag hc

/-- The source of a tree that was given up imports React only and shows nothing but the
fallback. -/
theorem exists_isMade_fallback (options : Options) (name message : String) :
    ∃ s, Structure.ofText
        (String.ofList (sourceText options (componentIdentifier name) (importLines [])
          (some (fallbackText options message)))) = .ok s ∧
      IsMade s [] [fallbackElement] := by
  have hname := isNameSegment_componentIdentifier name
  have hbody : ∀ text, some (fallbackText options message) = some text → QuietLines text := by
    rintro text ⟨⟩
    exact quietLines_fallbackText message
  exact exists_isMade (by simp) hname hbody (isRead_fallbackText options hname)

end Fallback

/-! ## Outputs -/

/-- The elements of a tree; there are none without a root. -/
def shownTree (tree : MappedTree) : List Element :=
  match tree.root with
  | some root => shown [] root
  | none => []

/-- A tree whose source is taken apart: what it uses can be read from import lines, its texts
stand alone between two tags, and no property reads like the bound of a type parameter. -/
structure IsLegible (tree : MappedTree) : Prop where
  readable : ∀ i ∈ usedBindings tree.nodes, IsReadable i
  tidy : ∀ m ∈ tree.nodes, IsTidy m
  keys : ∀ m ∈ tree.nodes, ∀ key ∈ m.props.keys, ¬ "extends".toList <+: key.toList

section Outputs

variable {synthesizer : Synthesizer} {tree : MappedTree} {name : String}

/-- A tree that was given up leaves the fallback and no imports. -/
theorem synthesize_of_not_writes (name : String) (hwritten : ¬ Writes synthesizer.options tree) :
    ∃ message, (synthesizer.synthesize tree name).2.sourceText =
      String.ofList (sourceText synthesizer.options (componentIdentifier name) (importLines [])
        (some (fallbackText synthesizer.options message))) := by
  obtain ⟨root, fault, hroot, hfault⟩ := exists_fault_of_not_writes hwritten
  rw [synthesize_of_root hroot]
  unfold Output.ofDraft
  rw [hfault]
  exact ⟨_, rfl⟩

theorem exists_isMade_of_writes (name : String)
    (hdepth : synthesizer.options.maxDepth ≤ Markup.maxNesting) (htree : IsLegible tree)
    (hwritten : Writes synthesizer.options tree) :
    ∃ s, Structure.ofText (synthesizer.synthesize tree name).2.sourceText = .ok s ∧
      IsMade s (usedBindings tree.nodes) (shownTree tree) := by
  obtain ⟨hreadable, htidy, hkeys⟩ := htree
  have hname := isNameSegment_componentIdentifier name
  cases hroot : tree.root with
  | none =>
    have hnodes : tree.nodes = [] := by
      unfold MappedTree.nodes
      rw [hroot]
    have hsource : (synthesizer.synthesize tree name).2.sourceText =
        String.ofList (sourceText synthesizer.options (componentIdentifier name) (importLines [])
          none) := by
      unfold Synthesizer.synthesize
      rw [hroot]
      rfl
    have hlines : ∀ i ∈ importLines [], Markup.Passable i.toList := passable_importLines (by simp)
    have hread := isRead_sourceText_none synthesizer.options hname hlines
    rw [hsource, hnodes]
    unfold shownTree
    rw [hroot]
    exact exists_isMade (by simp) hname (by simp) hread
  | some root =>
    have hnodes : tree.nodes = root.preorder := by
      unfold MappedTree.nodes
      rw [hroot]
    rw [hnodes] at hreadable htidy hkeys
    have hfault := hwritten root hroot
    have houtput : (synthesizer.synthesize tree name).2.diagnostics = [] := by
      rw [synthesize_of_root hroot, ofDraft_of_fault_eq_none hfault]
      rfl
    have hread := isRead_synthesize hroot hdepth (fun i hi => (hreadable i hi).toIsImportable)
      (hkeys root root.self_mem_preorder) houtput
    have hsource : (synthesizer.synthesize tree name).2.sourceText =
        String.ofList (sourceText synthesizer.options (componentIdentifier name)
          (importLines (usedBindings root.preorder))
          (some (write synthesizer.options 0 root).text)) := by
      rw [synthesize_of_root hroot, ofDraft_of_fault_eq_none hfault, ← imports_write root hfault]
      rfl
    rw [hsource, String.toList_ofList] at hread
    rw [hsource, hnodes]
    unfold shownTree
    rw [hroot]
    refine exists_isMade hreadable hname ?_ hread
    rintro text ⟨⟩
    exact quietLines_write root htidy hfault

/-- **Every output is taken apart**: into the tree with what it uses, or into the fallback. -/
theorem exists_isMade_synthesize (synthesizer : Synthesizer) (name : String)
    (hdepth : synthesizer.options.maxDepth ≤ Markup.maxNesting) (htree : IsLegible tree) :
    ∃ s, Structure.ofText (synthesizer.synthesize tree name).2.sourceText = .ok s ∧
      (Writes synthesizer.options tree → IsMade s (usedBindings tree.nodes) (shownTree tree)) ∧
      (¬ Writes synthesizer.options tree → IsMade s [] [fallbackElement]) := by
  by_cases hwritten : Writes synthesizer.options tree
  · obtain ⟨s, hs, hmade⟩ := exists_isMade_of_writes name hdepth htree hwritten
    exact ⟨s, hs, fun _ => hmade, fun hnot => absurd hwritten hnot⟩
  · obtain ⟨message, hsource⟩ := synthesize_of_not_writes name hwritten
    obtain ⟨s, hs, hmade⟩ := exists_isMade_fallback synthesizer.options name message
    rw [hsource]
    exact ⟨s, hs, fun hwrites => absurd hwrites hwritten, fun _ => hmade⟩

end Outputs

end DesignCompiler.Synthesis
