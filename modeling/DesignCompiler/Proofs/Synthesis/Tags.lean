import DesignCompiler.Proofs.Catalog.Names
import DesignCompiler.Proofs.Markup.Termination
import DesignCompiler.Proofs.Markup.TypeParameters
import DesignCompiler.Proofs.Synthesis.Literals

/-!
# Written tags and type parameters

A tag that is written for a component and the type parameters of an arrow function both start with
a less-than sign, a name and white space, and a scan tells them apart by the next word.
`tags_apart_from_typeParameters` says when it is right: a tag with a dot in it, or whose first
attribute is not named like the word that bounds a type parameter, is scanned as an element, and a
list of type parameters is passed over. Next to it stand a tag and a list that are taken for one
another.
-/

namespace DesignCompiler.Synthesis

open Markup (Cursor Element ElementScanner Extent IsBalanced Scanned SpelledAttribute inAngles
  operandMayFollow scanElement scanScript tagStart)
open Text (isAlphabetic isNameChar)

/-- A self-closing tag with attributes for properties. -/
def selfClosingText (tag : String) (properties : List (String × Json)) : List Char :=
  '<' ::
    (tag.toList ++ ((properties.filterMap fun p => attributeText p.1 p.2).flatMap (' ' :: ·) ++
      " />".toList))

/-- The tag has a dot in it, or its first attribute is not named by the word that bounds a type
parameter, alone or in front of a hyphen. -/
def StandsApart (tag : String) (properties : List (String × Json)) : Prop :=
  '.' ∈ tag.toList ∨ ∀ p ∈ properties.find? fun p => (attributeText p.1 p.2).isSome,
    p.1 ≠ "extends" ∧ ¬ "extends-".toList <+: p.1.toList

/-! ## The word behind the name -/

section Words

variable {name tag : String} {properties : List (String × Json)}

theorem isNameChar_or_hyphen_of_mem (hname : isAttributeName name = true) {c : Char}
    (hc : c ∈ name.toList) :
    isNameChar c = true ∨ c = '-' := by
  have hword {d : Char} (h : d.isAlphanum = true ∨ d = '_') : isNameChar d = true := by
    rcases h with halnum | rfl
    · exact Text.isNameChar_of_isAlphanum halnum
    · decide
  unfold isAttributeName at hname
  split at hname
  · rename_i first rest hchars
    simp only [Bool.and_eq_true, Bool.or_eq_true, beq_iff_eq, List.all_eq_true] at hname
    rw [hchars] at hc
    rcases List.mem_cons.1 hc with rfl | hc
    · exact .inl (hword (hname.1.imp_left Text.isAlphanum_of_isAlpha))
    · exact (hname.2 c hc).imp_left hword
  · cases hname

/-- The word that the name of an attribute starts with is the whole name, or a hyphen ends it. -/
theorem takeWhile_isNameChar_ne (hname : isAttributeName name = true) {word : String}
    (hne : name ≠ word) (hhyphen : ¬ word.toList ++ ['-'] <+: name.toList) :
    name.toList.takeWhile isNameChar ≠ word.toList := by
  intro hword
  have hsplit := List.takeWhile_append_dropWhile (p := isNameChar) (l := name.toList)
  rw [hword] at hsplit
  cases hlater : name.toList.dropWhile isNameChar with
  | nil =>
    rw [hlater, List.append_nil] at hsplit
    exact hne (String.toList_inj.1 hsplit.symm)
  | cons c later =>
    have hend : isNameChar c = false := by
      have := List.head?_dropWhile_not isNameChar name.toList
      simpa [hlater] using this
    have hmem : c ∈ name.toList :=
      (List.dropWhile_sublist isNameChar).subset (hlater ▸ List.mem_cons_self)
    rcases isNameChar_or_hyphen_of_mem hname hmem with hc | rfl
    · rw [hend] at hc
      cases hc
    · rw [hlater] at hsplit
      exact hhyphen ⟨later, by simpa using hsplit⟩

/-- The first attribute that is written is that of the first property with one. -/
theorem find?_of_mem_head?_spelledProperties {a : SpelledAttribute}
    (ha : a ∈ (spelledProperties properties).head?) :
    ∃ p, p ∈ properties.find? (fun p => (attributeText p.1 p.2).isSome) ∧ p.1 = a.name := by
  have hwritten (p : String × Json) :
      (attributeText p.1 p.2).isSome = (spellingOf p.2).isSome := by
    rw [attributeText_eq, Option.isSome_map]
  unfold spelledProperties at ha
  rw [List.head?_filterMap] at ha
  obtain ⟨earlier, p, later, hsplit, hp, hearlier⟩ := List.findSome?_eq_some_iff.1 ha
  obtain ⟨spelling, hspelling, rfl⟩ := Option.map_eq_some_iff.1 hp
  refine ⟨p, List.find?_eq_some_iff_append.2
    ⟨by rw [hwritten, hspelling]; rfl, earlier, later, hsplit, ?_⟩, rfl⟩
  intro q hq
  rw [hwritten, Option.map_eq_none_iff.1 (hearlier q hq)]
  rfl

end Words

/-! ## Tags -/

section Tags

variable {tag : String} {properties : List (String × Json)} {c d : Cursor}

theorem selfClosingText_eq (tag : String) (properties : List (String × Json)) :
    selfClosingText tag properties =
      tagStart tag (spelledProperties properties) [' '] ++ ['/', '>'] := by
  unfold selfClosingText tagStart
  rw [← text_spelledProperties, List.flatMap_map]
  simp [Markup.attributeText]

/-- In place of an operand a tag that stands apart starts an element. -/
theorem step_selfClosingText (htag : Catalog.isComponentName tag = true)
    (hnames : ∀ p ∈ properties, isAttributeName p.1 = true) (hapart : StandsApart tag properties)
    (hplace : operandMayFollow c.before = true)
    (hspans : c.Spans (selfClosingText tag properties) d) :
    c.step = .element := by
  obtain ⟨before, rest, line⟩ := c
  obtain ⟨first, more, hroot, hupper, -⟩ :=
    Catalog.isNameSegment_eq_true (Catalog.isNameSegment_rootSegment htag)
  have halpha : isAlphabetic first = true :=
    Text.isAlphabetic_of_isAlpha (Text.isAlpha_of_isUpper hupper)
  have hrest :
      rest = '<' :: (tag.toList ++ (Markup.attributeText (spelledProperties properties) ++
        ([' '] ++ '/' :: ('>' :: d.rest)))) := by
    have h := hspans.rest
    rw [selfClosingText_eq] at h
    simpa [tagStart] using h
  subst hrest
  refine Markup.step_element line ?_ ?_
  · rw [Catalog.toList_eq_rootSegment_append tag, hroot]
    simp [Markup.elementMayStart, halpha, hplace]
  · refine Markup.startsTypeParameters_openingTag (Catalog.isTag_of_isComponentName htag).2
      (fun a ha => (readable_spelledProperties hnames a ha).tag) ?_ (by decide) (.inr rfl) _
    intro hundotted a ha
    obtain ⟨p, hp, hname⟩ := find?_of_mem_head?_spelledProperties ha
    rcases hapart with hdot | hfirst
    · exact absurd (hundotted '.' hdot) (by decide)
    · obtain ⟨hne, hhyphen⟩ := hfirst p hp
      rw [← hname]
      exact takeWhile_isNameChar_ne (hnames p (List.mem_of_find?_eq_some hp)) hne hhyphen

/-- A tag that starts an element is scanned with its attributes, up to its end. -/
theorem yields_scanElement_selfClosingText (nesting : Nat) (stack : List String)
    (htag : Catalog.isComponentName tag = true)
    (hnames : ∀ p ∈ properties, isAttributeName p.1 = true)
    (hspans : c.Spans (selfClosingText tag properties) d) :
    ∃ attributes, attributes.map Markup.Attribute.unplaced = shownProperties properties ∧
      Markup.Yields (scanElement (nesting + 1) stack c) ()
        (.element (.bare tag attributes c.line stack true)) d := by
  have hrest : c.rest = tagStart tag (spelledProperties properties) [' '] ++
      '/' :: '>' :: d.rest := by
    rw [hspans.rest, selfClosingText_eq, List.append_assoc]
    rfl
  obtain ⟨attributes, stop, hattributes, hstop, hscan⟩ :=
    Markup.yields_selfClosingTag (scanElement nesting) stack
      (Catalog.isTag_of_isComponentName htag).2 (readable_spelledProperties hnames)
      (by decide) hrest
  refine ⟨attributes, hattributes.trans (readBack_spelledProperties properties), ?_⟩
  obtain ⟨hwithin, hresult⟩ := hscan
  have hne : c.rest ≠ [] := by
    rw [hrest]
    exact List.cons_ne_nil _ _
  have hscan : scanElement (nesting + 1) stack c = _ := hresult
  have hahead : c.Ahead stop := Markup.ahead_scanElement hne hscan
  obtain rfl : stop = d := hahead.leads.unique ⟨_, hspans⟩ hstop
  exact ⟨hwithin, hresult⟩

end Tags

/-! ## Tags and lists -/

/-- **Tags are told from type parameters.** In place of an operand, a self-closing tag that is
written for a component and stands apart is one element with the attributes of the properties,
after which the scan goes on behind the tag. A name with a comma behind it in angle brackets is
passed over wherever it stands; so is a name that starts with a letter and is bounded by a
balanced text, in place of an operand. -/
theorem tags_apart_from_typeParameters (nesting : Nat) (stack : List String) (extent : Extent)
    (bound depth : Nat) (c d : Cursor) (hc : c.rest.length ≤ bound) :
    (∀ (tag : String) (properties : List (String × Json)), Catalog.isComponentName tag = true →
      (∀ p ∈ properties, isAttributeName p.1 = true) → StandsApart tag properties →
      operandMayFollow c.before = true → c.Spans (selfClosingText tag properties) d →
      ∃ attributes hd, attributes.map Markup.Attribute.unplaced = shownProperties properties ∧
        scanScript (scanElement (nesting + 1)) stack extent bound depth c hc =
          (scanScript (scanElement (nesting + 1)) stack extent bound depth d hd).map
            (Scanned.after (.element (.bare tag attributes c.line stack true)) id)) ∧
    (∀ name : List Char, name ≠ [] → (∀ ch ∈ name, isNameChar ch = true) →
      c.Spans (inAngles (name ++ [','])) d →
      ∀ element : ElementScanner, ∃ hd,
        scanScript element stack extent bound depth c hc =
          scanScript element stack extent bound depth d hd) ∧
    ∀ name limit : List Char, (∀ ch ∈ name, isNameChar ch = true) →
      (∃ ch ∈ name.head?, isAlphabetic ch = true) →
      IsBalanced limit → operandMayFollow c.before = true →
      c.Spans (inAngles (name ++ (" extends ".toList ++ limit))) d →
      ∀ element : ElementScanner, ∃ hd,
        scanScript element stack extent bound depth c hc =
          scanScript element stack extent bound depth d hd := by
  refine ⟨?_, ?_, ?_⟩
  · intro tag properties htag hnames hapart hplace hspans
    obtain ⟨attributes, hattributes, hyields⟩ :=
      yields_scanElement_selfClosingText nesting stack htag hnames hspans
    have hstep := step_selfClosingText htag hnames hapart hplace hspans
    obtain ⟨hd, hscan⟩ :=
      Markup.scanScript_element extent depth hstep (Markup.rest_ne_nil_of_step hstep) hyields hc
    exact ⟨attributes, hd, hattributes, hscan⟩
  · intro name hne hname hspans element
    exact Markup.scanScript_of_passes element stack extent
      (Markup.passes_nameComma hne hname hspans depth) hc
  · intro name limit hname hletter hlimit hplace hspans element
    exact Markup.scanScript_of_passes element stack extent
      (Markup.passes_nameExtends hname hletter hlimit hplace hspans depth) hc

theorem tags_apart_from_typeParameters_card :
    (∃ attributes hd, attributes.map Markup.Attribute.unplaced = [⟨"extent", .text "x", 0⟩] ∧
      scanScript (scanElement 1) [] .source 23 0 ⟨['('], "<Card extent=\"x\" />);".toList, 1⟩
        (by decide) =
        (scanScript (scanElement 1) [] .source 23 0
          ⟨"(<Card extent=\"x\" />".toList.reverse, ");".toList, 1⟩ hd).map
          (Scanned.after (.element (.bare "Card" attributes 1 [] true)) id)) ∧
    (∃ hd, scanScript (scanElement 1) [] .source 9 0 ⟨['='], "<T,>() =>".toList, 1⟩ (by decide) =
      scanScript (scanElement 1) [] .source 9 0 ⟨"=<T,>".toList.reverse, "() =>".toList, 1⟩ hd) ∧
    ∃ hd, scanScript (scanElement 1) [] .source 32 0
        ⟨['='], "<T extends Map<K, () => K>>() =>".toList, 1⟩ (by decide) =
      scanScript (scanElement 1) [] .source 32 0
        ⟨"=<T extends Map<K, () => K>>".toList.reverse, "() =>".toList, 1⟩ hd := by
  have hlimit : IsBalanced "Map<K, () => K>".toList :=
    .plain_append (s := "Map".toList) (by decide) (@IsBalanced.brackets "K, () => K".toList []
      (.plain_append (s := "K, () ".toList) (by decide)
        (.arrow (.plain_append (s := " K".toList) (by decide) .nil)))
      .nil)
  refine ⟨?_, ?_, ?_⟩
  · have hboth := tags_apart_from_typeParameters 0 [] .source 23 0
      ⟨['('], "<Card extent=\"x\" />);".toList, 1⟩
      ⟨"(<Card extent=\"x\" />".toList.reverse, ");".toList, 1⟩ (by decide)
    exact hboth.1 "Card" [("extent", .str "x")] (by decide) (by decide) (.inr (by decide))
      (by decide) ⟨by decide, by decide, by decide⟩
  · have hboth := tags_apart_from_typeParameters 0 [] .source 9 0 ⟨['='], "<T,>() =>".toList, 1⟩
      ⟨"=<T,>".toList.reverse, "() =>".toList, 1⟩ (by decide)
    exact hboth.2.1 ['T'] (by decide) (by decide) ⟨by decide, by decide, by decide⟩ _
  · have hboth := tags_apart_from_typeParameters 0 [] .source 32 0
      ⟨['='], "<T extends Map<K, () => K>>() =>".toList, 1⟩
      ⟨"=<T extends Map<K, () => K>>".toList.reverse, "() =>".toList, 1⟩ (by decide)
    exact hboth.2.2 ['T'] _ (by decide) ⟨'T', rfl, by decide⟩ hlimit (by decide)
      ⟨by decide, by decide, by decide⟩ _

/-! ## Mistaken ones -/

/-- A card with an attribute that bears the name of the word. -/
def extendingCard : String :=
  "const A = () => (<Card extends=\"x\" />);"

/-- An arrow function whose type parameter starts with a low line. -/
def lowLineParameter : String :=
  "const A = <_T extends (<K>(x: K) => K)>(x: _T) => x;"

/-- The tags of the elements that are found in a source. -/
def tagsIn (source : String) : Option (List String) :=
  (Markup.Structure.ofText source).toOption.map fun s => s.elements.map (·.tag)

/-- The card is taken for type parameters, and a bound of the type parameters for an element. -/
theorem mistaken_tags :
    (Catalog.isComponentName "Card" = true ∧ isAttributeName "extends" = true ∧
      operandMayFollow "const A = () => (".toList.reverse = true ∧
      extendingCard.toList =
        "const A = () => (".toList ++ selfClosingText "Card" [("extends", .str "x")] ++
          ");".toList ∧
      tagsIn extendingCard = some []) ∧
    ((∀ ch ∈ "_T".toList, isNameChar ch = true) ∧ IsBalanced "(<K>(x: K) => K)".toList ∧
      operandMayFollow "const A = ".toList.reverse = true ∧
      lowLineParameter.toList = "const A = ".toList ++
        inAngles ("_T".toList ++ (" extends ".toList ++ "(<K>(x: K) => K)".toList)) ++
        "(x: _T) => x;".toList ∧
      tagsIn lowLineParameter = some ["K"]) := by
  have hlimit : IsBalanced "(<K>(x: K) => K)".toList :=
    .plain (by decide) (@IsBalanced.brackets ['K'] "(x: K) => K)".toList (.plain (by decide) .nil)
      (.plain_append (s := "(x: K) ".toList) (by decide)
        (.arrow (.plain_append (s := " K)".toList) (by decide) .nil))))
  exact ⟨⟨by decide, by decide, by decide, by decide, by decide +kernel⟩, by decide,
    hlimit, by decide, by decide, by decide +kernel⟩

end DesignCompiler.Synthesis
