import DesignCompiler.Proofs.Markup.Spelling

/-!
# Sources with one element

The scan of a source in which nothing is met, and of one in which the scan meets one element
between texts that are passed over.
-/

namespace DesignCompiler.Markup

open Text (isBlank isNameChar takeWhile_append_head dropWhile_append_head
  takeWhile_append_of_head?)

/-- The structure of a text that is not blank is what its scan finds, with its imports and
declarations. -/
theorem ofText_of_scanSource {text : List Char} {ch : Char} (hmem : ch ∈ text)
    (hch : isBlank ch = false) :
    Structure.ofText (String.ofList text) = (scanSource text).map fun found =>
      { imports := importsOf text, declarations := declarationsOf text, elements := found.elements
        unexpectedClosings := found.unexpectedClosings, unclosed := found.unclosed
        lineCount := Text.lineCount text } := by
  have htrim := Text.trim_ne_nil hmem hch
  simp only [Structure.ofText, String.toList_ofList]
  rw [if_neg (by simpa using htrim)]

/-- A source is taken apart into its imports, its declarations, and the given elements apart from
their lines, and all its tags pair. -/
def IsRead (text : List Char) (shown : List Element) : Prop :=
  ∃ s, Structure.ofText (String.ofList text) = .ok s ∧ s.imports = importsOf text ∧
    s.declarations = declarationsOf text ∧ s.unclosed = [] ∧ s.unexpectedClosings = [] ∧
    s.elements.map Element.unplaced = shown

theorem isRead_of_scanSource {text : List Char} {shown : List Element} {ch : Char}
    (hmem : ch ∈ text) (hch : isBlank ch = false)
    (hscan : ∃ found, scanSource text = .ok found ∧ found.Clean ∧
      found.elements.map Element.unplaced = shown) :
    IsRead text shown := by
  obtain ⟨found, hfound, ⟨hunclosed, hclosings⟩, hshown⟩ := hscan
  have hparsed := ofText_of_scanSource hmem hch
  rw [hfound] at hparsed
  exact ⟨_, hparsed, rfl, rfl, hunclosed, hclosings, hshown⟩

section Scans

variable {text : List Char} {c : Cursor} {depth : Nat}

/-- The scan of a source goes on from every place that its start passes to. -/
theorem scanSource_of_passes (hrun : Passes (.start text) 0 c depth) :
    ∃ hc, scanSource text =
      (scanScript (scanElement maxNesting) [] .source text.length depth c hc).map
        (·.findings) := by
  obtain ⟨hc, hscan⟩ :=
    scanScript_of_passes (scanElement maxNesting) [] .source hrun (Nat.le_refl text.length)
  exact ⟨hc, congrArg (Except.map Scanned.findings) hscan⟩

/-- Nothing is found in a source that is passed over. -/
theorem scanSource_of_passes_atEnd (hrun : Passes (.start text) 0 c 0) (hlast : c.rest = []) :
    scanSource text = .ok .none := by
  obtain ⟨hc, hscan⟩ := scanSource_of_passes hrun
  obtain ⟨stop, hend, hnothing⟩ := yields_scanScript_atEnd (scanElement maxNesting) [] (c := c)
    (hlast ▸ passable_nil) hc
  rw [hscan, hnothing]
  rfl

theorem scanSource_of_passable (htext : Passable text) : scanSource text = .ok .none := by
  have hrun := htext [] [] 1 0
  rw [List.append_nil] at hrun
  exact scanSource_of_passes_atEnd hrun rfl

/-- A source in which an element is met cannot be taken apart when the element cannot. -/
theorem scanSource_element_error {reason : Anomaly} (hrun : Passes (.start text) 0 c depth)
    (hstep : c.step = .element) (hrest : c.rest ≠ [])
    (helement : scanElement maxNesting [] c = .error reason) :
    scanSource text = .error reason := by
  obtain ⟨hc, hscan⟩ := scanSource_of_passes hrun
  rw [hscan, scanScript_element_error hstep hrest helement]
  rfl

/-- What is found in a source with one element is what is found in the element. -/
theorem scanSource_element {found : Findings} {stop last : Cursor}
    (hrun : Passes (.start text) 0 c depth) (hstep : c.step = .element) (hrest : c.rest ≠ [])
    (helement : Yields (scanElement maxNesting [] c) () found stop)
    (hlater : Passes stop depth last 0) (hlast : last.rest = []) :
    scanSource text = .ok found := by
  obtain ⟨hc, hscan⟩ := scanSource_of_passes hrun
  obtain ⟨hstop, hbehind⟩ := scanScript_element .source depth hstep hrest helement hc
  obtain ⟨hend, hpassed⟩ := scanScript_of_passes (scanElement maxNesting) [] .source hlater hstop
  obtain ⟨final, hfinal, hnothing⟩ :=
    yields_scanScript_atEnd (scanElement maxNesting) [] (c := last) (hlast ▸ passable_nil) hend
  rw [hscan, hbehind, hpassed, hnothing]
  simp [Except.map, Scanned.after]

end Scans

/-! ## Where an element may start -/

/-- Where a less-than sign opens nothing, it is passed over alone. -/
theorem step_sign {before rest : List Char} (line : Nat)
    (hstart : elementMayStart before rest = false) :
    ∃ h, (Cursor.mk before ('<' :: rest) line).step = .pass ⟨'<' :: before, rest, line⟩ h :=
  step_pass (.single (by decide) (fun h => absurd h (by decide)) (by decide) (by decide)
    fun _ => hstart)

/-- A capital behind a less-than sign in place of an operand starts an element, unless the text
reads like type parameters. -/
theorem startsTypeParameters_eq_false {name rest : List Char}
    (hname : ∀ ch ∈ name, isNameChar ch = true) (hend : ∀ ch ∈ rest.head?, isNameChar ch = false)
    (hcomma : (rest.dropWhile isBlank).head? ≠ some ',')
    (hword : (rest.dropWhile isBlank).takeWhile isNameChar ≠ "extends".toList) :
    startsTypeParameters (name ++ rest) = false := by
  unfold startsTypeParameters
  rw [takeWhile_append_head hname hend, dropWhile_append_head hname hend]
  split
  · rfl
  · split
    · rename_i hhead
      rw [hhead] at hcomma
      exact absurd rfl hcomma
    · rename_i c more _ hhead
      rw [hhead] at hword
      simpa using fun _ => hword
    · rfl

theorem isNameChar_eq_false {ch : Char} (hch : isTagChar ch = false) : isNameChar ch = false := by
  cases hname : isNameChar ch with
  | false => rfl
  | true =>
    rw [isTagChar_of_isNameChar hname] at hch
    cases hch

/-- An opening tag does not read like type parameters, unless nothing but a name stands in front
of a first attribute that starts with the word that bounds one. -/
theorem startsTypeParameters_openingTag {tag : List Char} (htag : ∀ d ∈ tag, isTagChar d = true)
    {as : List SpelledAttribute} (has : ∀ a ∈ as, IsTag a.name.toList)
    (hwords : (∀ d ∈ tag, isNameChar d = true) → ∀ a ∈ as.head?,
      a.name.toList.takeWhile isNameChar ≠ "extends".toList)
    {gap : List Char} (hgap : ∀ d ∈ gap, isBlank d = true) {ch : Char} (hch : ch = '>' ∨ ch = '/')
    (rest : List Char) :
    startsTypeParameters (tag ++ (attributeText as ++ (gap ++ ch :: rest))) = false := by
  have hword : ∀ d ∈ tag.takeWhile isNameChar, isNameChar d = true :=
    fun d hd => List.mem_takeWhile_imp hd
  rw [← List.takeWhile_append_dropWhile (p := isNameChar) (l := tag), List.append_assoc]
  cases hmore : tag.dropWhile isNameChar with
  | cons d more =>
    -- A dot, a hyphen or a colon in the tag is no sign of type parameters.
    have hmem : d ∈ tag.dropWhile isNameChar := hmore ▸ List.mem_cons_self
    have hd : isTagChar d = true := htag d ((List.dropWhile_sublist isNameChar).subset hmem)
    have hname : isNameChar d = false := by
      have := List.head?_dropWhile_not isNameChar tag
      simpa [hmore] using this
    rw [List.cons_append]
    refine startsTypeParameters_eq_false hword (by rintro c ⟨⟩; exact hname) ?_ ?_
    · rw [List.dropWhile_cons, isBlank_eq_false_of_isTagChar hd]
      rintro ⟨⟩
      exact absurd hd (by decide)
    · rw [List.dropWhile_cons, isBlank_eq_false_of_isTagChar hd]
      simp [hname]
  | nil =>
    have hcomma : ch ≠ ',' := by rcases hch with rfl | rfl <;> decide
    rw [List.nil_append]
    refine startsTypeParameters_eq_false hword
      (fun d hd => isNameChar_eq_false (not_isTagChar_head _ as hgap hch d hd))
      (dropWhile_attributes_head?_ne has hgap hch (by decide) hcomma) ?_
    cases as with
    | nil =>
      rw [dropWhile_attributes_nil hgap hch]
      rcases hch with rfl | rfl <;> rintro ⟨⟩
    | cons a as =>
      have hend := not_isTagChar_spelling a.spelling (not_isTagChar_head rest as hgap hch)
      rw [dropWhile_attributes_cons (has a List.mem_cons_self),
        takeWhile_append_of_head? _ fun d hd => isNameChar_eq_false (hend d hd)]
      exact hwords (List.dropWhile_eq_nil_iff.1 hmore) a rfl

end DesignCompiler.Markup
