import DesignCompiler.Proofs.Json.Printing
import DesignCompiler.Proofs.Markup.Spelling
import DesignCompiler.Synthesis.Literal

/-!
# Literals read back

The spellings of attributes, styles and texts, and what a scan reads from them: an attribute keeps
its value, a style is one expression, and a text between tags comes back as its words or as an
expression.
-/

namespace DesignCompiler.Synthesis

open Markup (Spelling SpelledAttribute Passable Enclosed isInert isPlain IsTag Inside Continues
  ElementScanner Cursor)
open Text (isBlank isNameChar)

/-! ## Attributes -/

/-- The spelling of a property; null is not written. -/
def spellingOf : Json → Option Spelling
  | .null => none
  | .bool true => some .bare
  | .str s => some (if isPlainValue s.toList then .quoted s.toList else .braces (Json.quote s))
  | v => some (.braces v.compact)

/-- The value as which a property is read back: a set flag for true, the text itself for a plain
text, and an expression of its JSON text for everything else. -/
def shownValue : Json → Option Markup.Value
  | .null => none
  | .bool true => some .flag
  | .str s => some (if isPlainValue s.toList then .text s else .expression (Json.str s).toText)
  | v => some (.expression v.toText)

theorem value_spellingOf (v : Json) : (spellingOf v).map Spelling.value = shownValue v := by
  cases v with
  | bool b => cases b <;> rfl
  | str s =>
    by_cases hplain : isPlainValue s.toList = true
    · simp [spellingOf, shownValue, hplain, Spelling.value]
    · simp [spellingOf, shownValue, hplain, Spelling.value, Json.toText, Json.compact,
        Json.scalar]
  | null | int | float | arr | obj => rfl

theorem attributeText_eq (name : String) (v : Json) :
    attributeText name v =
      (spellingOf v).map fun spelling => (SpelledAttribute.mk name spelling).text := by
  cases v with
  | bool b =>
    cases b <;> simp [attributeText, spellingOf, SpelledAttribute.text, Spelling.text, inBraces]
  | str s =>
    by_cases hplain : isPlainValue s.toList = true
    · simp [attributeText, spellingOf, hplain, SpelledAttribute.text, Spelling.text]
    · simp [attributeText, spellingOf, hplain, SpelledAttribute.text, Spelling.text, inBraces]
  | null | int | float | arr | obj => rfl

theorem readable_spellingOf {v : Json} {spelling : Spelling} (h : spellingOf v = some spelling) :
    spelling.Readable := by
  cases v with
  | null => cases h
  | bool b =>
    cases b with
    | false => cases h; exact Json.passable_compact (.bool false)
    | true => cases h; trivial
  | str s =>
    by_cases hplain : isPlainValue s.toList = true
    · simp only [spellingOf, hplain, if_true, Option.some.injEq] at h
      subst h
      intro hmem
      have hquote := List.all_eq_true.1 hplain '"' hmem
      exact absurd hquote (by decide)
    · simp only [spellingOf, hplain, Option.some.injEq] at h
      subst h
      exact Json.passable_quote s
  | int n => cases h; exact Json.passable_compact (.int n)
  | float x => cases h; exact Json.passable_compact (.float x)
  | arr items => cases h; exact Json.passable_compact (.arr items)
  | obj fields => cases h; exact Json.passable_compact (.obj fields)

/-- The name of an attribute is read back as a name. -/
theorem isTag_of_isAttributeName {name : String} (h : isAttributeName name = true) :
    IsTag name.toList ∧ ∀ ch ∈ name.toList.head?, isNameChar ch = true := by
  unfold isAttributeName at h
  split at h
  · rename_i c rest hname
    rw [hname]
    simp only [Bool.and_eq_true, Bool.or_eq_true, beq_iff_eq, List.all_eq_true] at h
    obtain ⟨hfirst, hrest⟩ := h
    have hc : isNameChar c = true := by
      rcases hfirst with halpha | rfl
      · exact Text.isNameChar_of_isAlphanum (Text.isAlphanum_of_isAlpha halpha)
      · decide
    refine ⟨⟨List.cons_ne_nil c rest, ?_⟩, by rintro d ⟨⟩; exact hc⟩
    intro d hd
    rcases List.mem_cons.1 hd with rfl | hd
    · exact Markup.isTagChar_of_isNameChar hc
    · rcases hrest d hd with (halnum | rfl) | rfl
      · exact Markup.isTagChar_of_isNameChar (Text.isNameChar_of_isAlphanum halnum)
      · decide
      · decide
  · cases h

/-- The properties that are written, with their spellings. -/
def spelledProperties (properties : List (String × Json)) : List SpelledAttribute :=
  properties.filterMap fun p => (spellingOf p.2).map fun spelling => ⟨p.1, spelling⟩

/-- The attributes as which properties are read back, apart from their lines; null is left out. -/
def shownProperties (properties : List (String × Json)) : List Markup.Attribute :=
  properties.filterMap fun p => (shownValue p.2).map fun value => ⟨p.1, value, 0⟩

section Properties

variable {properties : List (String × Json)}

theorem readBack_spelledProperties (properties : List (String × Json)) :
    (spelledProperties properties).map SpelledAttribute.readBack =
      shownProperties properties := by
  unfold spelledProperties shownProperties
  rw [List.map_filterMap]
  congr 1
  funext p
  rw [← value_spellingOf, Option.map_map, Option.map_map]
  rfl

theorem text_spelledProperties (properties : List (String × Json)) :
    (spelledProperties properties).map SpelledAttribute.text =
      properties.filterMap fun p => attributeText p.1 p.2 := by
  unfold spelledProperties
  rw [List.map_filterMap]
  congr 1
  funext p
  rw [attributeText_eq, Option.map_map]
  rfl

theorem readable_spelledProperties (h : ∀ p ∈ properties, isAttributeName p.1 = true) :
    ∀ a ∈ spelledProperties properties, a.Readable := by
  intro a ha
  obtain ⟨p, hp, hspelling⟩ := List.mem_filterMap.1 ha
  obtain ⟨spelling, hv, rfl⟩ := Option.map_eq_some_iff.1 hspelling
  obtain ⟨htag, hhead⟩ := isTag_of_isAttributeName (h p hp)
  exact ⟨htag, hhead, readable_spellingOf hv⟩

end Properties

/-! ## Styles -/

theorem enclosed_quoteStyleChar (c : Char) : Enclosed '\x27' (quoteStyleChar c) := by
  unfold quoteStyleChar
  split
  · exact .escaped _ .nil
  · exact .escaped _ .nil
  · exact .escaped _ .nil
  · rename_i hslash hquote hbreak
    exact .plain hquote hslash hbreak .nil

theorem passable_quoteStyle (s : String) : Passable (quoteStyle s) :=
  Markup.passable_quoted (by decide) (Markup.enclosed_flatMap enclosed_quoteStyleChar s.toList)

/-- The characters of the name of a field. -/
def isFieldChar (c : Char) : Bool :=
  c.isAlphanum || c == '_' || c == '$'

theorem fieldName_ne_nil {name : String} (h : isFieldName name = true) : name.toList ≠ [] := by
  intro hnil
  unfold isFieldName at h
  rw [hnil] at h
  cases h

theorem isFieldChar_of_mem {name : String} (h : isFieldName name = true) {c : Char}
    (hc : c ∈ name.toList) :
    isFieldChar c = true := by
  unfold isFieldName at h
  split at h
  · rename_i first rest hname
    rw [hname] at hc
    obtain ⟨hfirst, hrest⟩ := Bool.and_eq_true_iff.1 h
    rcases List.mem_cons.1 hc with rfl | hc
    · simp only [Bool.or_eq_true] at hfirst
      simp only [isFieldChar, Bool.or_eq_true]
      exact hfirst.imp_left (Or.imp_left Text.isAlphanum_of_isAlpha)
    · exact List.all_eq_true.1 hrest c hc
  · cases h

theorem passable_fieldName {name : String} (h : isFieldName name = true) : Passable name.toList :=
  Markup.passable_of_inert
    fun _ hc => Markup.isInert_of_class (by decide) (isFieldChar_of_mem h hc)

theorem passable_styleField (field : String × Json) : Passable (styleField field) := by
  have hname : Passable (if isFieldName field.1 then field.1.toList else quoteStyle field.1) := by
    split
    · rename_i h
      exact passable_fieldName h
    · exact passable_quoteStyle field.1
  have hvalue : Passable (styleValue field.2) := by
    unfold styleValue
    split
    · exact passable_quoteStyle _
    · exact Json.passable_compact _
  exact hname.append (Markup.passable_cons (by decide) (Markup.passable_cons (by decide) hvalue))

/-- The object of a style, which stands in the braces of its attribute. -/
def styleObject (style : KeyMap Json) : List Char :=
  inBraces (' ' :: (Text.joinWith [',', ' '] (style.entries.map styleField) ++ [' ']))

theorem passable_styleObject (style : KeyMap Json) : Passable (styleObject style) := by
  have hfields : Passable (Text.joinWith [',', ' '] (style.entries.map styleField)) := by
    refine Markup.passable_joinWith (Markup.passable_of_inert (by decide)) ?_
    intro piece hpiece
    obtain ⟨field, -, rfl⟩ := List.mem_map.1 hpiece
    exact passable_styleField field
  exact (Markup.passable_cons (by decide)
    (hfields.append (Markup.passable_of_inert (by decide)))).braces

/-! ## Texts -/

/-- A quoted text in braces shows something. -/
theorem showsSomething_quote (s : String) : Markup.showsSomething (Json.quote s) = true := by
  have htrim : Text.trim (Json.quote s) = Json.quote s :=
    Text.trim_of_ends (by decide) (by decide) _
  unfold Markup.showsSomething
  rw [htrim]
  unfold Json.quote
  simp [Text.startsWith, Text.stripStart]

theorem isPlain_of_not_needsExpression {s : List Char} (h : needsExpression s = false) :
    ∀ c ∈ s, isPlain c = true := by
  intro c hc
  simp only [needsExpression, Bool.or_eq_false_iff, List.any_eq_false] at h
  have hother := h.1.2 c hc
  unfold isPlain
  simp_all

/-- A text that is written as it is shows something. -/
theorem exists_mem_of_not_needsExpression {s : List Char} (h : needsExpression s = false) :
    ∃ c ∈ s, isBlank c = false := by
  simp only [needsExpression, Bool.or_eq_false_iff, List.isEmpty_eq_false_iff,
    bne_eq_false_iff_eq] at h
  obtain ⟨⟨hne, -⟩, htrim⟩ := h
  by_contra hblank
  push Not at hblank
  have hnil : Text.trim s = [] := by
    have hstart : s.dropWhile isBlank = [] := by
      rw [List.dropWhile_eq_nil_iff]
      intro c hc
      simpa using hblank c hc
    unfold Text.trim Text.trimStart
    rw [hstart]
    rfl
  exact hne (htrim.symm.trans hnil)

/-- What a text between two tags leaves of its characters outside of expressions. -/
def plainText (text : String) : List Char :=
  if needsExpression text.toList then [] else text.toList

/-- A text between two tags is passed over as plain text or as an expression. -/
theorem continues_childText (element : ElementScanner) (stack : List String) (tag : String)
    (bound : Nat) {c : Cursor} {text : String} {rest : List Char}
    (hc : c.rest = childText text ++ rest) :
    ∃ d, d.rest = rest ∧ Continues element stack tag bound c .none
      (fun i => { i with
        text := plainText text ++ i.text
        hasExpression := needsExpression text.toList || i.hasExpression }) d := by
  unfold childText at hc
  unfold plainText
  cases hneeds : needsExpression text.toList with
  | false =>
    rw [hneeds] at hc
    exact Markup.continues_plain element stack tag bound
      (isPlain_of_not_needsExpression hneeds) hc
  | true =>
    rw [hneeds] at hc
    have hbraces : c.rest = '\x7b' :: (Json.quote text ++ '\x7d' :: rest) := by
      simp [hc, inBraces]
    obtain ⟨d, hd, hcontinues⟩ :=
      Markup.continues_expression element stack tag bound (Json.passable_quote text) hbraces
    rw [showsSomething_quote] at hcontinues
    exact ⟨d, hd, hcontinues⟩

end DesignCompiler.Synthesis
