import DesignCompiler.Proofs.Markup.Positions
import DesignCompiler.Proofs.Markup.Scanning
import Mathlib.Data.List.DropRight

/-!
# Written attributes and tags

Attributes in the forms in which they are written, and opening tags made of them, as a scan reads
them back. What a scan adds is where everything stands, so elements and attributes are compared
without their lines.
-/

namespace DesignCompiler.Markup

open Text (isBlank isNameChar)

/-! ## Lines aside -/

/-- The attribute without its line. -/
def Attribute.unplaced (a : Attribute) : Attribute :=
  { a with line := 0 }

/-- The element without its line and those of its attributes. -/
def Element.unplaced (e : Element) : Element :=
  { e with attributes := e.attributes.map Attribute.unplaced, line := 0 }

/-! ## Spellings -/

/-- How the value of an attribute is written. -/
inductive Spelling where
  | bare
  | quoted (s : List Char)
  | braces (s : List Char)

namespace Spelling

/-- What is written behind the name. -/
def text : Spelling → List Char
  | .bare => []
  | .quoted s => '=' :: '"' :: (s ++ ['"'])
  | .braces s => '=' :: '\x7b' :: (s ++ ['\x7d'])

/-- The value that is read back. -/
def value : Spelling → Value
  | .bare => .flag
  | .quoted s => .text (String.ofList s)
  | .braces s => .expression (String.ofList s)

/-- The spelling can be read back. -/
def Readable : Spelling → Prop
  | .bare => True
  | .quoted s => '"' ∉ s
  | .braces s => Passable s

end Spelling

/-- An attribute with the way in which its value is written. -/
structure SpelledAttribute where
  name : String
  spelling : Spelling

namespace SpelledAttribute

/-- The attribute as it is written. -/
def text (a : SpelledAttribute) : List Char :=
  a.name.toList ++ a.spelling.text

/-- The attribute that is read back, without its line. -/
def readBack (a : SpelledAttribute) : Attribute :=
  ⟨a.name, a.spelling.value, 0⟩

/-- The attribute can be read back: a name starts it, and its value can be read back. -/
structure Readable (a : SpelledAttribute) : Prop where
  tag : IsTag a.name.toList
  head : ∀ ch ∈ a.name.toList.head?, isNameChar ch = true
  spelling : a.spelling.Readable

end SpelledAttribute

/-- Attributes as they are written behind the name of a tag. -/
def attributeText (as : List SpelledAttribute) : List Char :=
  as.flatMap fun a => ' ' :: a.text

@[simp] theorem attributeText_nil : attributeText [] = [] := rfl

theorem attributeText_cons (a : SpelledAttribute) (as : List SpelledAttribute) :
    attributeText (a :: as) = ' ' :: (a.text ++ attributeText as) := rfl

section Scans

variable {element : ElementScanner} {stack : List String} {c : Cursor} {gap rest : List Char}
  {ch : Char}

/-! ## Attributes -/

theorem isTagChar_of_isBlank {ch : Char} (hch : isBlank ch = true) : isTagChar ch = false := by
  cases htag : isTagChar ch with
  | false => rfl
  | true =>
    rw [isBlank_eq_false_of_isTagChar htag] at hch
    cases hch

/-- A name of a tag ends where its attributes, a gap or the end of the tag begin. -/
theorem not_isTagChar_head (rest : List Char) (as : List SpelledAttribute)
    (hgap : ∀ d ∈ gap, isBlank d = true) (hch : ch = '>' ∨ ch = '/') :
    ∀ d ∈ (attributeText as ++ (gap ++ ch :: rest)).head?, isTagChar d = false := by
  intro d hd
  cases as with
  | cons a as =>
    rw [attributeText_cons] at hd
    cases hd
    decide
  | nil =>
    cases gap with
    | cons b gap =>
      cases hd
      exact isTagChar_of_isBlank (hgap _ List.mem_cons_self)
    | nil =>
      cases hd
      rcases hch with rfl | rfl <;> decide

/-- A name of an attribute ends where its value or something behind it begins. -/
theorem not_isTagChar_spelling (spelling : Spelling)
    (hrest : ∀ d ∈ rest.head?, isTagChar d = false) :
    ∀ d ∈ (spelling.text ++ rest).head?, isTagChar d = false := by
  cases spelling with
  | bare => exact hrest
  | quoted s =>
    rintro d ⟨⟩
    decide
  | braces s =>
    rintro d ⟨⟩
    decide

/-- The place of the value behind an equals sign. -/
theorem skipEquals_of_rest (hc : c.rest = '=' :: ch :: rest) (hch : isBlank ch = false) :
    c.skipBlanks = c ∧ c.skipBlanks.next.skipBlanks.rest = ch :: rest := by
  have hskip : c.skipBlanks = c := skipWhile_eq_self (by rw [hc]; rintro d ⟨⟩; decide)
  refine ⟨hskip, ?_⟩
  rw [hskip, Cursor.rest_skipBlanks, Cursor.rest_next, hc, List.tail_cons,
    List.dropWhile_cons, hch]
  rfl

theorem leads_skipEquals (c : Cursor) : c.Leads c.skipBlanks.next.skipBlanks :=
  (Cursor.leads_skipBlanks c).trans ((Cursor.leads_next _).trans (Cursor.leads_skipBlanks _))

/-- Behind the name of an attribute its value is read, up to what follows or to what stands behind
the blanks there. -/
theorem yields_scanNamed_spelled (element : ElementScanner) (stack : List String)
    {spelling : Spelling} {d : Cursor} (hspelling : spelling.Readable)
    (hspans : c.Spans spelling.text d) (hd : (d.rest.dropWhile isBlank).head? ≠ some '=')
    (tag name : String) (line : Nat) :
    ∃ stop, stop.skipBlanks = d.skipBlanks ∧
      Yields (scanNamed element stack tag name line c) spelling.value .none stop := by
  cases spelling with
  | bare =>
    -- Only behind the blanks it shows that no value follows, and the scan does not go back to the
    -- name.
    obtain rfl : c = d := (Cursor.Spans.refl c).unique hspans
    exact ⟨c.skipBlanks, skipBlanks_skipBlanks c,
      yields_scanNamed_flag (by rwa [Cursor.rest_skipBlanks]) tag name line⟩
  | quoted s =>
    have hc : c.rest = '=' :: '"' :: (s ++ '"' :: d.rest) := by simp [hspans.rest, Spelling.text]
    obtain ⟨hskip, hvalue⟩ := skipEquals_of_rest hc (by decide)
    have hend := quotedEnd?_append hspelling ('"' :: c.skipBlanks.next.skipBlanks.before) d.rest
      c.skipBlanks.next.skipBlanks.line
    have hleads :=
      (leads_skipEquals c).trans (Cursor.ahead_of_quotedEnd? (.inl rfl) hvalue hend).leads
    have hscan :=
      yields_scanValue_of_quotedEnd? element stack (.inl rfl) hvalue hend tag name line
    rw [← hspans.unique (hleads.spans hspans.rest)] at hscan
    exact ⟨d, rfl, yields_scanNamed_value (by rw [hskip, hc]; rfl) hscan⟩
  | braces s =>
    have hc : c.rest = '=' :: '\x7b' :: (s ++ '\x7d' :: d.rest) := by
      simp [hspans.rest, Spelling.text]
    obtain ⟨hskip, hvalue⟩ := skipEquals_of_rest hc (by decide)
    obtain ⟨stop, hleads, hrest, hscan⟩ :=
      yields_scanValue_braces element stack hspelling hvalue tag name line
    rw [← hspans.unique (((leads_skipEquals c).trans hleads).spans
      (by rw [hspans.rest, hrest]))] at hscan
    exact ⟨d, rfl, yields_scanNamed_value (by rw [hskip, hc]; rfl) hscan⟩

/-- A tag is passed over as a name. -/
theorem skipTagName_of_spans {tag : List Char} {d : Cursor} (htag : IsTag tag)
    (hspans : c.Spans tag d) (hd : ∀ ch ∈ d.rest.head?, isTagChar ch = false) :
    c.skipTagName = d := by
  have hrest : c.skipTagName.rest = d.rest := rest_skipTagName_of_rest htag.2 hspans.rest hd
  exact (Cursor.leads_skipTagName c).unique ⟨tag, hspans⟩ hrest

/-- The name of an attribute is read, and then what stands behind it decides. -/
theorem scanAttributes_name (element : ElementScanner) (stack : List String) {name : String}
    {n : Cursor} (htag : IsTag name.toList)
    (hfirst : ∀ ch ∈ name.toList.head?, isNameChar ch = true) (hname : c.Spans name.toList n)
    (hn : ∀ ch ∈ n.rest.head?, isTagChar ch = false) (tag : String) (line : Nat)
    {bound : Nat} (hc : c.rest.length ≤ bound) :
    ∃ hbound : n.rest.length ≤ bound, scanAttributes element stack tag line bound c hc =
      match scanNamed element stack tag name c.line n with
      | .error reason => .error reason
      | .ok found =>
        (scanAttributes element stack tag line bound found.stop
          (Nat.le_trans found.within hbound)).map
          (Scanned.after found.findings (⟨name, found.value, c.line⟩ :: ·)) := by
  obtain rfl : c.skipTagName = n := skipTagName_of_spans htag hname hn
  have hskip : c.skipBlanks = c := skipBlanks_of_tag htag hname.rest
  have htagName : c.tagName = name := by
    rw [tagName_of_rest htag.2 hname.rest hn, String.ofList_toList]
  obtain ⟨ch, more, hchars⟩ := List.exists_cons_of_ne_nil htag.1
  have hch : isNameChar ch = true := hfirst ch (by rw [hchars]; rfl)
  have hcons : c.rest = ch :: (more ++ c.skipTagName.rest) := by
    rw [hname.rest, hchars]
    rfl
  obtain ⟨hend, hbrace⟩ := ne_of_isNameChar hch
  refine ⟨Nat.le_trans (Cursor.skipTagName_le c) hc, ?_⟩
  rw [scanAttributes_cons hskip hcons hc, if_neg hend, if_neg hbrace, if_pos hch, htagName]
  cases scanNamed element stack tag name c.line c.skipTagName <;> rfl

/-- **An attribute is read as it is written**, and the scan goes on with what follows it: nothing
that begins like a name, and no equals sign behind blanks. -/
theorem scanAttributes_spelled (element : ElementScanner) (stack : List String)
    {a : SpelledAttribute} {d : Cursor} (ha : a.Readable) (hspans : c.Spans a.text d)
    (hhead : ∀ ch ∈ d.rest.head?, isTagChar ch = false)
    (hequals : (d.rest.dropWhile isBlank).head? ≠ some '=') (tag : String) (line : Nat)
    {bound : Nat} (hc : c.rest.length ≤ bound) :
    ∃ hd, scanAttributes element stack tag line bound c hc =
      (scanAttributes element stack tag line bound d hd).map
        (Scanned.after .none (⟨a.name, a.spelling.value, c.line⟩ :: ·)) := by
  obtain ⟨htag, hfirst, hspelling⟩ := ha
  obtain ⟨n, hname, hvalue⟩ := hspans.split
  have hn : ∀ ch ∈ n.rest.head?, isTagChar ch = false := by
    rw [hvalue.rest]
    exact not_isTagChar_spelling a.spelling hhead
  obtain ⟨_, hnamed⟩ := scanAttributes_name element stack htag hfirst hname hn tag line hc
  obtain ⟨stop, hstop, hwithin, hscan⟩ :=
    yields_scanNamed_spelled element stack hspelling hvalue hequals tag a.name c.line
  have hd : d.rest.length ≤ bound := by
    have hlength := congrArg List.length hspans.rest
    rw [List.length_append] at hlength
    omega
  refine ⟨hd, ?_⟩
  rw [hnamed, hscan]
  exact congrArg (Except.map _) (scanAttributes_congr hstop _ hd)

theorem dropWhile_isBlank_of_tag {tag s : List Char} (htag : IsTag tag) :
    (tag ++ s).dropWhile isBlank = tag ++ s := by
  obtain ⟨hne, hchars⟩ := htag
  obtain ⟨d, more, rfl⟩ := List.exists_cons_of_ne_nil hne
  rw [List.cons_append, List.dropWhile_cons,
    isBlank_eq_false_of_isTagChar (hchars d List.mem_cons_self)]
  rfl

/-- Behind the last attribute the end of the tag is the first thing that is not blank. -/
theorem dropWhile_attributes_nil (hgap : ∀ d ∈ gap, isBlank d = true)
    (hch : ch = '>' ∨ ch = '/') :
    (attributeText [] ++ (gap ++ ch :: rest)).dropWhile isBlank = ch :: rest := by
  have hblank : isBlank ch = false := by rcases hch with rfl | rfl <;> decide
  rw [attributeText_nil, List.nil_append, List.dropWhile_append_of_pos hgap, List.dropWhile_cons,
    hblank]
  rfl

/-- In front of an attribute its name is the first thing that is not blank. -/
theorem dropWhile_attributes_cons {a : SpelledAttribute} (ha : IsTag a.name.toList)
    (as : List SpelledAttribute) (s : List Char) :
    (attributeText (a :: as) ++ s).dropWhile isBlank =
      a.name.toList ++ (a.spelling.text ++ (attributeText as ++ s)) := by
  have hspace : isBlank ' ' = true := by decide
  rw [attributeText_cons, List.cons_append, List.dropWhile_cons, hspace, if_pos rfl,
    SpelledAttribute.text, List.append_assoc, List.append_assoc, dropWhile_isBlank_of_tag ha]

/-- A sign that belongs to no name starts no tag. -/
theorem head?_tag_ne {name s : List Char} (hname : IsTag name) {sign : Char}
    (hsign : isTagChar sign = false) :
    (name ++ s).head? ≠ some sign := by
  obtain ⟨hne, hchars⟩ := hname
  obtain ⟨d, more, rfl⟩ := List.exists_cons_of_ne_nil hne
  rintro ⟨⟩
  have hd := hchars _ List.mem_cons_self
  rw [hsign] at hd
  cases hd

/-- No slash starts the name of a tag. -/
theorem head?_of_isTag {name s t : List Char} (hname : IsTag name) :
    (name ++ s ++ t).head? ≠ some '/' := by
  rw [List.append_assoc]
  exact head?_tag_ne hname (by decide)

/-- The first thing in a tag that is not blank belongs to a name or ends the tag. -/
theorem dropWhile_attributes_head?_ne {as : List SpelledAttribute}
    (has : ∀ a ∈ as, IsTag a.name.toList) (hgap : ∀ d ∈ gap, isBlank d = true)
    (hch : ch = '>' ∨ ch = '/') {sign : Char} (hsign : isTagChar sign = false)
    (hne : ch ≠ sign) : ((attributeText as ++ (gap ++ ch :: rest)).dropWhile isBlank).head? ≠
      some sign := by
  cases as with
  | nil =>
    rw [dropWhile_attributes_nil hgap hch]
    simpa using hne
  | cons a as =>
    have htag := has a List.mem_cons_self
    rw [dropWhile_attributes_cons htag]
    exact head?_tag_ne htag hsign

/-- In front of another attribute the first thing that is not blank belongs to a name. -/
theorem dropWhile_attributes_append_head?_ne {as : List SpelledAttribute}
    (has : ∀ a ∈ as, IsTag a.name.toList) {name s : List Char} (hname : IsTag name) {sign : Char}
    (hsign : isTagChar sign = false) :
    ((attributeText as ++ ' ' :: (name ++ s)).dropWhile isBlank).head? ≠ some sign := by
  cases as with
  | nil =>
    have hspace : isBlank ' ' = true := by decide
    rw [attributeText_nil, List.nil_append, List.dropWhile_cons, hspace, if_pos rfl,
      dropWhile_isBlank_of_tag hname]
    exact head?_tag_ne hname hsign
  | cons a as =>
    rw [dropWhile_attributes_cons (has a List.mem_cons_self)]
    exact head?_tag_ne (has a List.mem_cons_self) hsign

/-- Attributes are read back one after the other in front of another one. -/
theorem scanAttributes_front (element : ElementScanner) (stack : List String)
    {as : List SpelledAttribute} (has : ∀ a ∈ as, a.Readable) {name : List Char}
    (hname : IsTag name) (hc : c.rest = attributeText as ++ ' ' :: (name ++ rest)) (tag : String)
    (line : Nat) {bound : Nat} (hbound : c.rest.length ≤ bound) :
    ∃ (f : List Attribute → List Attribute) (d : Cursor) (hd : d.rest.length ≤ bound),
      d.rest = ' ' :: (name ++ rest) ∧
      scanAttributes element stack tag line bound c hbound =
        (scanAttributes element stack tag line bound d hd).map (Scanned.after .none f) := by
  induction as generalizing c with
  | nil => exact ⟨id, c, hbound, hc, (map_after_none _).symm⟩
  | cons a as ih =>
    have ha := has a List.mem_cons_self
    have hlater : ∀ b ∈ as, b.Readable := fun b hb => has b (List.mem_cons_of_mem a hb)
    have hskip : c.skipBlanks.rest = a.text ++ (attributeText as ++ ' ' :: (name ++ rest)) := by
      rw [Cursor.rest_skipBlanks, hc, dropWhile_attributes_cons ha.tag, SpelledAttribute.text,
        List.append_assoc]
    obtain ⟨d, hspans, hrest⟩ := Cursor.exists_spans hskip
    have hhead : ∀ ch ∈ d.rest.head?, isTagChar ch = false := by
      rw [hrest]
      cases as <;> rintro ch ⟨⟩ <;> decide
    have hequals : (d.rest.dropWhile isBlank).head? ≠ some '=' := by
      rw [hrest]
      exact dropWhile_attributes_append_head?_ne (fun b hb => (hlater b hb).tag) hname (by decide)
    have hblanks : c.skipBlanks.rest.length ≤ bound := within_skipBlanks rfl hbound
    obtain ⟨hd, hfirst⟩ :=
      scanAttributes_spelled element stack ha hspans hhead hequals tag line hblanks
    obtain ⟨f, e, he, herest, hscan⟩ := ih hlater hrest hd
    refine ⟨fun attributes => ⟨a.name, a.spelling.value, c.skipBlanks.line⟩ :: f attributes, e,
      he, herest, ?_⟩
    rw [scanAttributes_congr (skipBlanks_skipBlanks c).symm hbound hblanks, hfirst, hscan,
      map_after_after]
    rfl

/-- Attributes are read back one after the other, up to the end of their tag. Blanks in front of
them may have been skipped already, as they are behind a bare name. -/
theorem yields_scanAttributes_spelled {as : List SpelledAttribute} (has : ∀ a ∈ as, a.Readable)
    (hgap : ∀ d ∈ gap, isBlank d = true) (hch : ch = '>' ∨ ch = '/')
    (hc : c.rest.dropWhile isBlank = (attributeText as ++ (gap ++ ch :: rest)).dropWhile isBlank)
    (tag : String) (line : Nat) {bound : Nat} (hbound : c.rest.length ≤ bound) :
    ∃ attributes stop, attributes.map Attribute.unplaced = as.map SpelledAttribute.readBack ∧
      stop.rest = ch :: rest ∧
      Yields (scanAttributes element stack tag line bound c hbound) attributes .none stop := by
  induction as generalizing c with
  | nil =>
    have hskip : c.skipBlanks.rest = ch :: rest := by
      rw [Cursor.rest_skipBlanks, hc, dropWhile_attributes_nil hgap hch]
    exact ⟨[], c.skipBlanks, rfl, hskip, yields_scanAttributes_end hskip hch hbound⟩
  | cons a as ih =>
    have ha := has a List.mem_cons_self
    have hlater : ∀ b ∈ as, b.Readable := fun b hb => has b (List.mem_cons_of_mem a hb)
    have hskip : c.skipBlanks.rest = a.text ++ (attributeText as ++ (gap ++ ch :: rest)) := by
      rw [Cursor.rest_skipBlanks, hc, dropWhile_attributes_cons ha.tag, SpelledAttribute.text,
        List.append_assoc]
    obtain ⟨d, hspans, hrest⟩ := Cursor.exists_spans hskip
    have hblanks : c.skipBlanks.rest.length ≤ bound := within_skipBlanks rfl hbound
    obtain ⟨hd, hfirst⟩ := scanAttributes_spelled element stack ha hspans
      (by rw [hrest]; exact not_isTagChar_head rest as hgap hch)
      (by
        rw [hrest]
        exact dropWhile_attributes_head?_ne (fun b hb => (hlater b hb).tag) hgap hch (by decide)
          (by rcases hch with rfl | rfl <;> decide))
      tag line hblanks
    obtain ⟨attributes, stop, hattributes, hstop, hscan⟩ := ih hlater (by rw [hrest]) hd
    refine ⟨⟨a.name, a.spelling.value, c.skipBlanks.line⟩ :: attributes, stop, ?_, hstop, ?_⟩
    · rw [List.map_cons, List.map_cons, hattributes]
      rfl
    · rw [scanAttributes_congr (skipBlanks_skipBlanks c).symm hbound hblanks, hfirst]
      exact hscan.after .none _

/-! ## Tags -/

/-- A tag up to its end: its name, its attributes, and a gap. -/
def tagStart (tag : String) (as : List SpelledAttribute) (gap : List Char) : List Char :=
  '<' :: (tag.toList ++ (attributeText as ++ gap))

variable {tag : String} {as : List SpelledAttribute}

/-- The name and the attributes of a tag are read back. -/
theorem yields_tagStart (element : ElementScanner) (stack : List String)
    (htag : ∀ d ∈ tag.toList, isTagChar d = true) (has : ∀ a ∈ as, a.Readable)
    (hgap : ∀ d ∈ gap, isBlank d = true) (hch : ch = '>' ∨ ch = '/')
    (hc : c.rest = tagStart tag as gap ++ ch :: rest) (line : Nat) {bound : Nat}
    (hbound : c.next.skipTagName.rest.length ≤ bound) :
    c.next.tagName = tag ∧
      ∃ attributes stop, attributes.map Attribute.unplaced = as.map SpelledAttribute.readBack ∧
        stop.rest = ch :: rest ∧
          Yields (scanAttributes element stack tag line bound c.next.skipTagName hbound)
            attributes .none stop := by
  have hnext : c.next.rest = tag.toList ++ (attributeText as ++ (gap ++ ch :: rest)) := by
    simp [hc, tagStart]
  have hend := not_isTagChar_head rest as hgap hch
  refine ⟨by rw [tagName_of_rest htag hnext hend, String.ofList_toList], ?_⟩
  exact yields_scanAttributes_spelled has hgap hch
    (by rw [rest_skipTagName_of_rest htag hnext hend]) tag line hbound

/-- A self-closing tag is an element with nothing in it. -/
theorem yields_selfClosingTag (element : ElementScanner) (stack : List String)
    (htag : ∀ d ∈ tag.toList, isTagChar d = true) (has : ∀ a ∈ as, a.Readable)
    (hgap : ∀ d ∈ gap, isBlank d = true)
    (hc : c.rest = tagStart tag as gap ++ '/' :: '>' :: rest) :
    ∃ attributes stop, attributes.map Attribute.unplaced = as.map SpelledAttribute.readBack ∧
      stop.rest = rest ∧
      Yields (scanElementWith element stack c) ()
        (.element (.bare tag attributes c.line stack true)) stop := by
  have hbound := c.skipTagName_next_le
  obtain ⟨hname, attributes, stop, hattributes, hstop, hscan⟩ :=
    yields_tagStart element stack htag has hgap (.inr rfl) hc c.line hbound
  have helement := yields_scanElementWith_selfClosing (fun _ => hname ▸ hscan) hstop
  rw [hname] at helement
  exact ⟨attributes, stop.next.next, hattributes, by simp [hstop], helement⟩

/-- An element with an opening tag ends as its children do, from the place behind the tag. -/
theorem scanElementWith_openingTag (element : ElementScanner) (stack : List String)
    (htag : ∀ d ∈ tag.toList, isTagChar d = true) (has : ∀ a ∈ as, a.Readable)
    (hgap : ∀ d ∈ gap, isBlank d = true) (hc : c.rest = tagStart tag as gap ++ '>' :: rest) :
    ∃ (attributes : List Attribute) (d : Cursor) (bound : Nat) (hd : d.rest.length ≤ bound),
      attributes.map Attribute.unplaced = as.map SpelledAttribute.readBack ∧ d.rest = rest ∧
        (∀ inside found stop, Yields (scanChildren element (stack ++ [tag]) tag bound d hd) inside
          found stop →
          Yields (scanElementWith element stack c) ()
            (.element ((Element.bare tag attributes c.line stack false).filled inside) ++ found ++
              .missingClose inside tag c.line) stop) ∧
        ∀ reason, scanChildren element (stack ++ [tag]) tag bound d hd = .error reason →
          scanElementWith element stack c = .error reason := by
  have hbound := c.skipTagName_next_le
  obtain ⟨hname, attributes, stop, hattributes, hstop, hscan⟩ :=
    yields_tagStart element stack htag has hgap (.inl rfl) hc c.line hbound
  have hd : stop.next.rest.length ≤ c.rest.tail.length := by
    obtain ⟨hwithin, -⟩ := hscan
    exact Nat.le_trans (Cursor.next_le stop) hwithin
  refine ⟨attributes, stop.next, _, hd, hattributes, by simp [hstop], ?_, ?_⟩
  · intro inside found stop' hinside
    have helement :=
      yields_scanElementWith_open (fun _ => hname ▸ hscan) hstop (fun _ => hname ▸ hinside)
    rwa [hname] at helement
  · intro reason hinside
    exact scanElementWith_open_error (fun _ => hname ▸ hscan) hstop (fun _ => hname ▸ hinside)

end Scans

/-! ## Elements -/

/-- The scan of an element reports nothing, finds the given elements apart from their lines, and
ends in front of the given text. -/
def Reads {bound : Nat} (result : Except Anomaly (Scanned Unit bound)) (shown : List Element)
    (rest : List Char) :
    Prop :=
  ∃ found stop, Yields result () found stop ∧ stop.rest = rest ∧ found.Clean ∧
    found.elements.map Element.unplaced = shown

section Reads

variable {element : ElementScanner} {stack : List String} {c : Cursor} {tag : String}
  {as : List SpelledAttribute} {gap inner rest : List Char}

theorem reads_selfClosing (element : ElementScanner) (stack : List String)
    (htag : IsTag tag.toList) (has : ∀ a ∈ as, a.Readable) (hgap : ∀ d ∈ gap, isBlank d = true)
    (hc : c.rest = tagStart tag as gap ++ '/' :: '>' :: rest) :
    Reads (scanElementWith element stack c)
      [.bare tag (as.map SpelledAttribute.readBack) 0 stack true] rest := by
  obtain ⟨attributes, stop, hattributes, hstop, hscan⟩ :=
    yields_selfClosingTag element stack htag.2 has hgap hc
  refine ⟨_, stop, hscan, hstop, Findings.clean_element _, ?_⟩
  rw [← hattributes]
  rfl

/-- An element is read back when its children are, up to its closing tag. -/
theorem reads_closed (htag : IsTag tag.toList) (has : ∀ a ∈ as, a.Readable)
    (hgap : ∀ d ∈ gap, isBlank d = true) (hc : c.rest = tagStart tag as gap ++ '>' :: inner)
    {whole : Element} {shown : List Element}
    (hinner : ∀ (bound : Nat) (d : Cursor), d.rest = inner → ∃ found f e,
      Continues element (stack ++ [tag]) tag bound d found f e ∧
        e.rest = '<' :: '/' :: (tag.toList ++ '>' :: rest) ∧
        found.Clean ∧ found.elements.map Element.unplaced = shown ∧
        (f ⟨true, [], false, false⟩).closed = true ∧
          (Element.bare tag (as.map SpelledAttribute.readBack) 0 stack false).filled
            (f ⟨true, [], false, false⟩) =
            whole) :
    Reads (scanElementWith element stack c) (whole :: shown) rest := by
  obtain ⟨attributes, d, bound, hd, hattributes, hdrest, hyields, -⟩ :=
    scanElementWith_openingTag element stack htag.2 has hgap hc
  obtain ⟨found, f, e, hcontinues, hrest, hclean, hshown, hclosed, hwhole⟩ :=
    hinner bound d hdrest
  have hend := rest_closingEnd_of_rest htag.2 hrest
  have hname : e.closingName = tag := by
    rw [closingName_of_rest htag.2 hrest, String.ofList_toList]
  have hchildren := hcontinues.yields (fun _ => scanChildren_own _ _ hrest hend hname _) hd
  have helement := hyields _ _ _ hchildren
  rw [Findings.missingClose, if_pos hclosed, Findings.append_none,
    Findings.append_none] at helement
  refine ⟨_, e.closingEnd.next, helement, by simp [hend],
    (Findings.clean_element _).append hclean, ?_⟩
  rw [Findings.elements_append, List.map_append, hshown, ← hwhole, ← hattributes]
  rfl

end Reads

end DesignCompiler.Markup
