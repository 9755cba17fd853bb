import DesignCompiler.Proofs.Markup.Ancestors
import DesignCompiler.Proofs.Markup.Pairing

/-!
# Chains of nested elements

In a chain every element has the next one in it: between its tags, in an expression between its
tags, or in an expression that is the value of one of its attributes. The three count alike for
the depth that is followed, though an element in an attribute value has no more ancestors than the
element that it belongs to.

The scan of a chain is put together from those of its links. `Takes` says of a scanner that it
reads a text as so many elements or gives up because of the depth, whatever stands in front of the
text and behind it; there is one lemma for each place in which the next element may stand
(`takes_between`, `takes_value`), and one induction on the chain (`IsChain.takes`). `ofText_chain`
is what it comes to for a source.
-/

namespace DesignCompiler.Markup

open Text (newlines isBlank isNameChar isAlphabetic takeWhile_append_of_head?)

/-! ## Scans that may be too deep -/

/-- The scan is too deep; or it is not, and then it reports nothing, finds so many elements, and
ends in front of the given text. -/
structure Ends {α : Type} {bound : Nat} (deep : Prop) (count : Nat) (rest : List Char)
    (result : Except Anomaly (Scanned α bound)) : Prop where
  tooDeep : deep → ∃ line, result = .error (.tooDeep line)
  found : ¬ deep → ∃ value found stop,
    Yields result value found stop ∧ stop.rest = rest ∧ found.Clean ∧
    found.elements.length = count

/-- Wherever the text stands, the scanner reads it as so many elements, unless it is too deep. -/
def Takes (element : ElementScanner) (deep : Prop) (count : Nat) (text : List Char) : Prop :=
  ∀ (stack : List String) (c : Cursor) (rest : List Char), c.rest = text ++ rest →
    Ends deep count rest (element stack c)

/-- No element at all may be nested. -/
theorem takes_scanElement_zero {count : Nat} (hcount : 0 < count) (text : List Char) :
    Takes (scanElement 0) (0 < count) count text :=
  fun _ c _ _ => ⟨fun _ => ⟨c.line, rfl⟩, fun hnot => absurd hcount hnot⟩

/-! ## Places of operands -/

/-- The text is passed over wherever it stands, and as many braces are open behind it as are
said. -/
def PassesOver (s : List Char) (depth depth' : Nat) : Prop :=
  ∀ (before rest : List Char) (line : Nat),
    Passes ⟨before, s ++ rest, line⟩ depth ⟨s.reverse ++ before, rest, line + newlines s⟩ depth'

/-- Script texts in front of an operand and behind it. Braces that are open at the operand are
closed behind it. -/
structure Surrounds (left right : List Char) : Prop where
  operand : operandMayFollow left.reverse = true
  passes : ∃ depth, PassesOver left 0 depth ∧ PassesOver right depth 0

theorem Passable.passesOver {s : List Char} (hs : Passable s) (depth : Nat) :
    PassesOver s depth depth :=
  fun before rest line => hs before rest line depth

theorem surrounds_of_passable {left right : List Char} (hleft : Passable left)
    (hright : Passable right) (hoperand : operandMayFollow left.reverse = true) :
    Surrounds left right where
  operand := hoperand
  passes := ⟨0, hleft.passesOver 0, hright.passesOver 0⟩

theorem surrounds_nil : Surrounds [] [] :=
  surrounds_of_passable passable_nil passable_nil (by decide)

/-- Behind an opening brace an operand may stand where it may at the start of a source. -/
theorem operandMayFollow_append_openBrace (s before : List Char) :
    operandMayFollow (s ++ '\x7b' :: before) = operandMayFollow s := by
  unfold operandMayFollow
  rw [List.dropWhile_append]
  cases hs : s.dropWhile isBlank with
  | nil =>
    have hblank : isBlank '\x7b' = false := by decide
    have hopens : opensOperand '\x7b' = true := by decide
    simp [hblank, hopens]
  | cons c earlier =>
    have hname : isNameChar '\x7b' = false := by decide
    have hword : (c :: earlier ++ '\x7b' :: before).takeWhile isNameChar =
        (c :: earlier).takeWhile isNameChar :=
      takeWhile_append_of_head? _ (by rintro ch ⟨⟩; exact hname)
    have harrow : ((earlier ++ '\x7b' :: before).head? == some '=') =
        (earlier.head? == some '=') := by
      cases earlier <;> rfl
    simp only [List.isEmpty_cons, Bool.false_eq_true, if_false, List.cons_append, ← harrow,
      ← hword]

/-- In place of an operand the text is taken for an element, whatever follows it. -/
def StartsElement (text : List Char) : Prop :=
  ∃ ch s, text = '<' :: ch :: s ∧ (isAlphabetic ch = true ∨ ch = '>') ∧
    ∀ rest, startsTypeParameters (ch :: (s ++ rest)) = false

theorem step_of_startsElement {text rest : List Char} {c : Cursor} (htext : StartsElement text)
    (hplace : operandMayFollow c.before = true) (hc : c.rest = text ++ rest) :
    c.step = .element := by
  obtain ⟨ch, s, rfl, hch, htype⟩ := htext
  obtain ⟨before, _, line⟩ := c
  cases hc
  refine step_element line ?_ (htype rest)
  have hplace : operandMayFollow before = true := hplace
  rcases hch with hletter | rfl <;> simp [elementMayStart, *]

/-! ## Expressions with an element -/

section Expressions

variable {element : ElementScanner} {stack : List String} {deep : Prop} {count : Nat}
  {inner left right rest : List Char} {c : Cursor}

/-- The expression behind an opening brace is scanned as its script text is. -/
theorem Ends.scanExpression
    (h : Ends deep count rest (scanScript element stack (.expression c.line) c.rest.length 0 c
      (Nat.le_refl _))) (tag name : String) (line : Nat) :
    Ends deep count rest (scanExpression element stack tag name line c) where
  tooDeep hdeep := by
    obtain ⟨l, herror⟩ := h.tooDeep hdeep
    exact ⟨l, by rw [Markup.scanExpression, herror]⟩
  found hnot := by
    obtain ⟨⟨⟩, found, stop, ⟨hstop, hscan⟩, hfound⟩ := h.found hnot
    exact ⟨(c.textUntil stop).dropLast, found, stop,
      ⟨hstop, by rw [Markup.scanExpression, hscan]⟩, hfound⟩

/-- An element in braces, with script text around it. -/
theorem Takes.scanExpression (h : Takes element deep count inner) (hstart : StartsElement inner)
    (hplace : Surrounds left right)
    (hc : c.rest = '\x7b' :: (left ++ (inner ++ (right ++ '\x7d' :: rest))))
    (tag name : String) (line : Nat) :
    Ends deep count rest (scanExpression element stack tag name line c.next) := by
  obtain ⟨hoperand, depth, hleft, hright⟩ := hplace
  rw [next_openBrace hc]
  refine Ends.scanExpression ?_ tag name line
  obtain ⟨hd, hscan⟩ := scanScript_of_passes element stack (.expression c.line)
    (hleft ('\x7b' :: c.before) (inner ++ (right ++ '\x7d' :: rest)) c.line) (Nat.le_refl _)
  have hstep :
      (Cursor.mk (left.reverse ++ '\x7b' :: c.before) (inner ++ (right ++ '\x7d' :: rest))
        (c.line + newlines left)).step = .element :=
    step_of_startsElement hstart ((operandMayFollow_append_openBrace _ _).trans hoperand) rfl
  have hends : Ends deep count (right ++ '\x7d' :: rest)
      (element stack (Cursor.mk (left.reverse ++ '\x7b' :: c.before)
        (inner ++ (right ++ '\x7d' :: rest)) (c.line + newlines left))) := h stack _ _ rfl
  constructor
  · intro hdeep
    obtain ⟨l, herror⟩ := hends.tooDeep hdeep
    exact ⟨l, hscan.trans (scanScript_element_error hstep (rest_ne_nil_of_step hstep) herror hd)⟩
  · intro hnot
    obtain ⟨⟨⟩, found, ⟨before, _, l⟩, hyields, rfl, hclean, hcount⟩ := hends.found hnot
    obtain ⟨hstop, hbehind⟩ :=
      scanScript_element (.expression c.line) depth hstep (rest_ne_nil_of_step hstep) hyields hd
    obtain ⟨hlast, hpassed⟩ := scanScript_of_passes element stack (.expression c.line)
      (hright before ('\x7d' :: rest) l) hstop
    obtain ⟨hshorter, hclose⟩ :=
      step_closeBrace (right.reverse ++ before) rest (l + newlines right)
    refine ⟨(), found, ⟨'\x7d' :: (right.reverse ++ before), rest, l + newlines right⟩,
      ⟨within_of_lt hshorter hlast, ?_⟩, rfl, hclean, hcount⟩
    rw [hscan, hbehind, hpassed, scanScript.eq_def, hclose]
    simp only [Except.map, Scanned.after, Scanned.quiet, Findings.append_none, id_eq]

theorem Takes.scanNamed (h : Takes element deep count inner) (hstart : StartsElement inner)
    (hplace : Surrounds left right)
    (hc : c.rest = '=' :: '\x7b' :: (left ++ (inner ++ (right ++ '\x7d' :: rest))))
    (stack : List String) (tag name : String) (line : Nat) :
    Ends deep count rest (scanNamed element stack tag name line c) := by
  obtain ⟨hskip, hvalue⟩ := skipEquals_of_rest hc (by decide)
  have hequals : c.skipBlanks.rest.head? = some '=' := by
    rw [hskip, hc]
    rfl
  have hends : Ends deep count rest (Markup.scanExpression element stack tag name line
    c.skipBlanks.next.skipBlanks.next) := h.scanExpression hstart hplace hvalue tag name line
  constructor
  · intro hdeep
    obtain ⟨l, herror⟩ := hends.tooDeep hdeep
    refine ⟨l, ?_⟩
    rw [Markup.scanNamed, if_pos hequals, scanValue_of_scanExpression_error hvalue herror]
  · intro hnot
    obtain ⟨text, found, stop, hyields, hfound⟩ := hends.found hnot
    exact ⟨_, found, stop,
      yields_scanNamed_value hequals (yields_scanValue_of_scanExpression hvalue hyields), hfound⟩

end Expressions

/-! ## Children with an element -/

/-- Between the tags of an element the text is passed over with so many elements, unless it is too
deep. -/
structure TakesInside (element : ElementScanner) (deep : Prop) (count : Nat) (text : List Char) :
    Prop where
  tooDeep : deep → ∀ (stack : List String) (tag : String) (bound : Nat) (c : Cursor)
    (rest : List Char) (hc : c.rest.length ≤ bound), c.rest = text ++ rest →
    ∃ line, scanChildren element stack tag bound c hc = .error (.tooDeep line)
  found : ¬ deep → ∀ (stack : List String) (tag : String) (bound : Nat) (c : Cursor)
    (rest : List Char), c.rest = text ++ rest →
    ∃ found f d, Continues element stack tag bound c found f d ∧ d.rest = rest ∧
      found.Clean ∧ found.elements.length = count ∧ ∀ i, (f i).closed = i.closed

section Children

variable {element : ElementScanner} {deep deep' : Prop} {count count' : Nat}
  {inner left right : List Char}

theorem takesInside_plain (element : ElementScanner) {s : List Char}
    (hs : ∀ ch ∈ s, isPlain ch = true) :
    TakesInside element False 0 s where
  tooDeep := False.elim
  found _ stack tag bound c rest hc := by
    obtain ⟨d, hd, hcontinues⟩ := continues_plain element stack tag bound hs hc
    exact ⟨_, _, d, hcontinues, hd, Findings.clean_none, rfl, fun _ => rfl⟩

theorem TakesInside.append {s t : List Char} (hs : TakesInside element deep count s)
    (ht : TakesInside element deep' count' t) :
    TakesInside element (deep ∨ deep') (count + count') (s ++ t) where
  tooDeep hdeep stack tag bound c rest hbound hc := by
    rw [List.append_assoc] at hc
    by_cases hfirst : deep
    · exact hs.tooDeep hfirst stack tag bound c (t ++ rest) hbound hc
    · obtain ⟨found, f, d, hcontinues, hd, -⟩ := hs.found hfirst stack tag bound c (t ++ rest) hc
      obtain ⟨hlater, hscan⟩ := hcontinues hbound
      obtain ⟨line, herror⟩ :=
        ht.tooDeep (hdeep.resolve_left hfirst) stack tag bound d rest hlater hd
      exact ⟨line, by rw [hscan, herror]; rfl⟩
  found hnot stack tag bound c rest hc := by
    rw [List.append_assoc] at hc
    obtain ⟨hfirst, hsecond⟩ := not_or.1 hnot
    obtain ⟨found, f, d, hcontinues, hd, hclean, hcount, hclosed⟩ :=
      hs.found hfirst stack tag bound c (t ++ rest) hc
    obtain ⟨found', f', e, hcontinues', he, hclean', hcount', hclosed'⟩ :=
      ht.found hsecond stack tag bound d rest hd
    refine ⟨_, _, e, hcontinues.trans hcontinues', he, hclean.append hclean', ?_, fun i => ?_⟩
    · rw [Findings.elements_append, List.length_append, hcount, hcount']
    · rw [Function.comp_apply, hclosed, hclosed']

theorem Takes.inside (h : Takes element deep count inner) {ch : Char} {s : List Char}
    (hinner : inner = '<' :: ch :: s) (hch : ch ≠ '/') :
    TakesInside element deep count inner where
  tooDeep hdeep stack tag bound c rest hbound hc := by
    obtain ⟨line, herror⟩ := (h stack c rest hc).tooDeep hdeep
    rw [hinner] at hc
    exact ⟨line, scanChildren_element_error hc (by simpa using hch) herror hbound⟩
  found hnot stack tag bound c rest hc := by
    obtain ⟨⟨⟩, found, stop, hyields, hstop, hclean, hcount⟩ := (h stack c rest hc).found hnot
    rw [hinner] at hc
    exact ⟨found, _, stop, continues_element tag bound hc (by simpa using hch) hyields, hstop,
      hclean, hcount, fun _ => rfl⟩

theorem Takes.insideBraces (h : Takes element deep count inner) (hstart : StartsElement inner)
    (hplace : Surrounds left right) :
    TakesInside element deep count ('\x7b' :: (left ++ (inner ++ (right ++ ['\x7d'])))) where
  tooDeep hdeep stack tag bound c rest hbound hc := by
    have hbrace : c.rest = '\x7b' :: (left ++ (inner ++ (right ++ '\x7d' :: rest))) := by
      simp [hc]
    obtain ⟨line, herror⟩ :=
      (h.scanExpression hstart hplace hbrace tag "children" c.line).tooDeep hdeep
    refine ⟨line, ?_⟩
    rw [scanChildren_cons hbrace, if_neg (by decide), if_pos rfl, herror]
  found hnot stack tag bound c rest hc := by
    have hbrace : c.rest = '\x7b' :: (left ++ (inner ++ (right ++ '\x7d' :: rest))) := by
      simp [hc]
    obtain ⟨text, found, stop, hyields, hstop, hclean, hcount⟩ :=
      (h.scanExpression hstart hplace hbrace tag "children" c.line).found hnot
    exact ⟨found, _, stop, continues_of_scanExpression bound hbrace hyields, hstop, hclean,
      hcount, fun _ => rfl⟩

end Children

/-! ## Elements with an element -/

/-- The tag with its attributes and a gap can be read back. A fragment has neither. -/
structure IsHead (tag : String) (as : List SpelledAttribute) (gap : List Char) : Prop where
  chars : ∀ ch ∈ tag.toList, isTagChar ch = true
  attributes : ∀ a ∈ as, a.Readable
  blanks : ∀ ch ∈ gap, isBlank ch = true
  fragment : tag = "" → as = [] ∧ gap = []

/-- What stands behind an opening tag with its attributes if there is nothing between the tags. -/
def endText (tag : String) (selfClosing : Bool) : List Char :=
  if selfClosing then ['/', '>'] else '>' :: TagEvent.text (.closing tag)

section Elements

variable {element : ElementScanner} {deep : Prop} {count : Nat} {tag : String}
  {as more : List SpelledAttribute} {gap inner left right : List Char}

/-- An element with a closing tag takes one element more than what stands between its tags. -/
theorem takes_between (hhead : IsHead tag as gap) {body : List Char}
    (hbody : TakesInside element deep count body) :
    Takes (scanElementWith element) deep (count + 1)
      (tagStart tag as gap ++ '>' :: (body ++ TagEvent.text (.closing tag))) := by
  intro stack c rest hc
  rw [List.append_assoc, List.cons_append, List.append_assoc] at hc
  obtain ⟨attributes, d, bound, hd, -, hrest, hyields, herror⟩ :=
    scanElementWith_openingTag element stack hhead.chars hhead.attributes hhead.blanks hc
  constructor
  · intro hdeep
    obtain ⟨line, hchildren⟩ := hbody.tooDeep hdeep (stack ++ [tag]) tag bound d _ hd hrest
    exact ⟨line, herror _ hchildren⟩
  · intro hnot
    obtain ⟨found, f, e, hcontinues, he, hclean, hcount, hclosed⟩ :=
      hbody.found hnot (stack ++ [tag]) tag bound d _ hrest
    obtain ⟨hname, hend⟩ := closing_of_rest hhead.chars he
    have hclose : e.rest = '<' :: '/' :: (tag.toList ++ ['>'] ++ rest) := he
    have hchildren := hcontinues.yields (fun _ => scanChildren_own _ _ hclose hend hname _) hd
    have helement := hyields _ _ _ hchildren
    rw [Findings.missingClose, if_pos (hclosed _), Findings.append_none,
      Findings.append_none] at helement
    refine ⟨(), _, e.closingEnd.next, helement, by simp [hend],
      (Findings.clean_element _).append hclean, ?_⟩
    rw [Findings.elements_append, List.length_append, hcount, Nat.add_comm]
    rfl

/-- The attributes of an opening tag, one of which has an element in its value. -/
theorem Takes.scanAttributes (h : Takes element deep count inner) (hstart : StartsElement inner)
    (hplace : Surrounds left right) (has : ∀ a ∈ as, a.Readable) (hmore : ∀ a ∈ more, a.Readable)
    {name : String} (hname : IsTag name.toList)
    (hfirst : ∀ ch ∈ name.toList.head?, isNameChar ch = true)
    (hgap : ∀ ch ∈ gap, isBlank ch = true) {ch : Char} (hch : ch = '>' ∨ ch = '/') {c : Cursor}
    {rest : List Char}
    (hc : c.rest =
      attributeText (as ++ ⟨name, .braces (left ++ (inner ++ right))⟩ :: more) ++
        (gap ++ ch :: rest))
    (stack : List String) (tag : String) (line : Nat) {bound : Nat}
    (hbound : c.rest.length ≤ bound) :
    Ends deep count (ch :: rest) (scanAttributes element stack tag line bound c hbound) := by
  have hfront : c.rest =
      attributeText as ++ ' ' :: (name.toList ++ '=' :: '\x7b' :: (left ++ (inner ++ (right ++
        '\x7d' :: (attributeText more ++ (gap ++ ch :: rest)))))) := by
    simp [hc, attributeText, SpelledAttribute.text, Spelling.text]
  obtain ⟨f, d, hd, hdrest, hscan⟩ :=
    scanAttributes_front element stack has hname hfront tag line hbound
  have hskip : d.skipBlanks.rest = name.toList ++ '=' :: '\x7b' :: (left ++ (inner ++ (right ++
      '\x7d' :: (attributeText more ++ (gap ++ ch :: rest))))) := by
    have hspace : isBlank ' ' = true := by decide
    rw [Cursor.rest_skipBlanks, hdrest, List.dropWhile_cons, hspace, if_pos rfl,
      dropWhile_isBlank_of_tag hname]
  obtain ⟨n, hspans, hnrest⟩ := Cursor.exists_spans hskip
  have hn : ∀ ch ∈ n.rest.head?, isTagChar ch = false := by
    rw [hnrest]
    rintro ch ⟨⟩
    decide
  have hblanks : d.skipBlanks.rest.length ≤ bound := within_skipBlanks rfl hd
  obtain ⟨hnbound, hnamed⟩ :=
    scanAttributes_name element stack hname hfirst hspans hn tag line hblanks
  have hvalue := h.scanNamed hstart hplace hnrest stack tag name d.skipBlanks.line
  rw [hscan, scanAttributes_congr (skipBlanks_skipBlanks d).symm hd hblanks, hnamed]
  constructor
  · intro hdeep
    obtain ⟨l, herror⟩ := hvalue.tooDeep hdeep
    exact ⟨l, by rw [herror]; rfl⟩
  · intro hnot
    obtain ⟨value, found, stop, ⟨hwithin, hok⟩, hstop, hclean, hcount⟩ := hvalue.found hnot
    obtain ⟨attributes, last, -, hlast, hyields⟩ :=
      yields_scanAttributes_spelled hmore hgap hch (by rw [hstop]) tag
        line (Nat.le_trans hwithin hnbound)
    rw [hok]
    refine ⟨_, _, last, (hyields.after found _).after .none f, hlast, ?_, ?_⟩
    · rw [Findings.append_none, Findings.none_append]
      exact hclean
    · rw [Findings.append_none, Findings.none_append]
      exact hcount

/-- An element takes one element more than the value of its attribute. -/
theorem takes_value (h : Takes element deep count inner) (hstart : StartsElement inner)
    (hplace : Surrounds left right) (hhead : IsHead tag as gap) (hmore : ∀ a ∈ more, a.Readable)
    {name : String} (hname : IsTag name.toList)
    (hfirst : ∀ ch ∈ name.toList.head?, isNameChar ch = true) (selfClosing : Bool) :
    Takes (scanElementWith element) deep (count + 1)
      (tagStart tag (as ++ ⟨name, .braces (left ++ (inner ++ right))⟩ :: more) gap ++
        endText tag selfClosing) := by
  intro stack c rest hc
  obtain ⟨ch, tail, hch, htail⟩ :
      ∃ ch tail, (ch = '>' ∨ ch = '/') ∧ endText tag selfClosing ++ rest = ch :: tail := by
    cases selfClosing with
    | true => exact ⟨'/', _, .inr rfl, rfl⟩
    | false => exact ⟨'>', _, .inl rfl, rfl⟩
  have hnext : c.next.rest = tag.toList ++
      (attributeText (as ++ ⟨name, .braces (left ++ (inner ++ right))⟩ :: more) ++
        (gap ++ ch :: tail)) := by
    rw [Cursor.rest_next, hc, List.append_assoc, htail]
    simp [tagStart]
  have hend : ∀ d ∈ (attributeText (as ++ ⟨name, .braces (left ++ (inner ++ right))⟩ :: more) ++
      (gap ++ ch :: tail)).head?, isTagChar d = false :=
    not_isTagChar_head tail _ hhead.blanks hch
  have htagName : c.next.tagName = tag := by
    rw [tagName_of_rest hhead.chars hnext hend, String.ofList_toList]
  have hbound := c.skipTagName_next_le
  have hattributes :=
    h.scanAttributes hstart hplace hhead.attributes hmore hname hfirst hhead.blanks hch
      (rest_skipTagName_of_rest hhead.chars hnext hend) stack tag c.line hbound
  constructor
  · intro hdeep
    obtain ⟨l, herror⟩ := hattributes.tooDeep hdeep
    exact ⟨l, scanElementWith_attributes_error fun _ => htagName ▸ herror⟩
  · intro hnot
    obtain ⟨attributes, found, stop, hyields, hstop, hclean, hcount⟩ := hattributes.found hnot
    have hyields :
        ∀ h, Yields (Markup.scanAttributes element stack c.next.tagName c.line c.rest.tail.length
          c.next.skipTagName h) attributes found stop := fun _ => htagName ▸ hyields
    have hlength (e : Element) : (found ++ .element e).elements.length = count + 1 := by
      rw [Findings.elements_append, List.length_append, hcount]
      rfl
    cases selfClosing with
    | true =>
      have hself : stop.rest = '/' :: '>' :: rest := hstop.trans htail.symm
      exact ⟨(), _, stop.next.next, yields_scanElementWith_selfClosing hyields hself,
        by simp [hself], hclean.append (Findings.clean_element _), hlength _⟩
    | false =>
      have hopen : stop.rest = '>' :: (TagEvent.text (.closing tag) ++ rest) :=
        hstop.trans htail.symm
      have hclose : stop.next.rest = TagEvent.text (.closing tag) ++ rest := by simp [hopen]
      obtain ⟨hclosing, hclosingEnd⟩ := closing_of_rest hhead.chars hclose
      have helement := yields_scanElementWith_open hyields hopen fun h =>
        scanChildren_own element _ hclose hclosingEnd (hclosing.trans htagName.symm) h
      rw [Findings.append_none, Findings.missingClose, if_pos rfl,
        Findings.append_none] at helement
      exact ⟨(), _, stop.next.closingEnd.next, helement, by simp [hclosingEnd],
        hclean.append (Findings.clean_element _), hlength _⟩

end Elements

/-! ## Chains -/

/-- In place of an operand the tag is taken for that of an element: it starts with a letter or is
that of a fragment, and its first attribute, if it has one, does not start with the word that
bounds a type parameter. -/
structure MayStart (tag : String) (as : List SpelledAttribute) : Prop where
  letter : ∀ ch ∈ tag.toList.head?, isAlphabetic ch = true
  word : ∀ a ∈ as.head?, a.name.toList.takeWhile isNameChar ≠ "extends".toList

/-- So many elements, each in the one before, as they are written; the tag and the attributes are
those of the first one. The last element closes itself or has text between its tags. An element in
another one stands between its tags, in an expression between its tags, or in an expression that
is the value of an attribute; in an expression there may be script text around it, and between
tags other text around that. -/
inductive IsChain : Nat → String → List SpelledAttribute → List Char → Prop where
  | selfClosing {tag : String} {as : List SpelledAttribute} {gap : List Char}
    (hhead : IsHead tag as gap) (hnamed : tag ≠ "") :
    IsChain 1 tag as (tagStart tag as gap ++ ['/', '>'])
  | closed {tag : String} {as : List SpelledAttribute} {gap text : List Char}
    (hhead : IsHead tag as gap) (htext : ∀ ch ∈ text, isPlain ch = true) :
    IsChain 1 tag as (tagStart tag as gap ++ '>' :: (text ++ TagEvent.text (.closing tag)))
  | child {n : Nat} {tag first : String} {as attributes : List SpelledAttribute}
    {gap inner : List Char} (before after : List Char) (hhead : IsHead tag as gap)
    (hinner : IsChain n first attributes inner) (hbefore : ∀ ch ∈ before, isPlain ch = true)
    (hafter : ∀ ch ∈ after, isPlain ch = true) :
    IsChain (n + 1) tag as
      (tagStart tag as gap ++ '>' :: (before ++ inner ++ after ++ TagEvent.text (.closing tag)))
  | expression {n : Nat} {tag first : String} {as attributes : List SpelledAttribute}
    {gap inner : List Char} (before left right after : List Char) (hhead : IsHead tag as gap)
    (hinner : IsChain n first attributes inner) (hstart : MayStart first attributes)
    (hplace : Surrounds left right) (hbefore : ∀ ch ∈ before, isPlain ch = true)
    (hafter : ∀ ch ∈ after, isPlain ch = true) :
    IsChain (n + 1) tag as
      (tagStart tag as gap ++
        '>' :: (before ++ '\x7b' :: (left ++ (inner ++ (right ++ ['\x7d']))) ++ after ++
          TagEvent.text (.closing tag)))
  | value {n : Nat} {tag first : String} {as attributes : List SpelledAttribute}
    {gap inner : List Char} (name : String) (left right : List Char)
    (more : List SpelledAttribute) (selfClosing : Bool) (hhead : IsHead tag as gap)
    (hnamed : tag ≠ "") (hname : IsTag name.toList)
    (hfirst : ∀ ch ∈ name.toList.head?, isNameChar ch = true) (hmore : ∀ a ∈ more, a.Readable)
    (hinner : IsChain n first attributes inner) (hstart : MayStart first attributes)
    (hplace : Surrounds left right) :
    IsChain (n + 1) tag (as ++ ⟨name, .braces (left ++ (inner ++ right))⟩ :: more)
      (tagStart tag (as ++ ⟨name, .braces (left ++ (inner ++ right))⟩ :: more) gap ++
        endText tag selfClosing)

namespace IsChain

variable {n : Nat} {tag : String} {as : List SpelledAttribute} {text : List Char}

/-- The opening tag of the first element. -/
theorem exists_tagStart (h : IsChain n tag as text) :
    ∃ (gap : List Char) (ch : Char) (rest : List Char), text = tagStart tag as gap ++ ch :: rest ∧
      (∀ d ∈ tag.toList, isTagChar d = true) ∧ (∀ a ∈ as, IsTag a.name.toList) ∧
      (∀ d ∈ gap, isBlank d = true) ∧
      (ch = '>' ∨ ch = '/') ∧ (tag = "" → as = [] ∧ gap = [] ∧ ch = '>') := by
  cases h with
  | selfClosing hhead hnamed =>
    exact ⟨_, '/', _, rfl, hhead.chars, fun a ha => (hhead.attributes a ha).tag, hhead.blanks,
      .inr rfl, fun hnone => absurd hnone hnamed⟩
  | closed hhead | child _ _ hhead | expression _ _ _ _ hhead =>
    exact ⟨_, '>', _, rfl, hhead.chars, fun a ha => (hhead.attributes a ha).tag, hhead.blanks,
      .inl rfl, fun hnone => ⟨(hhead.fragment hnone).1, (hhead.fragment hnone).2, rfl⟩⟩
  | @value _ _ _ front _ _ inner name left right more selfClosing hhead hnamed hname _ hmore =>
    have hnames : ∀ a ∈ front ++ ⟨name, .braces (left ++ (inner ++ right))⟩ :: more,
        IsTag a.name.toList :=
      List.forall_mem_append.2 ⟨fun a ha => (hhead.attributes a ha).tag,
        List.forall_mem_cons.2 ⟨hname, fun a ha => (hmore a ha).tag⟩⟩
    cases selfClosing with
    | true =>
      exact ⟨_, '/', _, rfl, hhead.chars, hnames, hhead.blanks, .inr rfl,
        fun hnone => absurd hnone hnamed⟩
    | false =>
      exact ⟨_, '>', _, rfl, hhead.chars, hnames, hhead.blanks, .inl rfl,
        fun hnone => absurd hnone hnamed⟩

/-- A chain starts like an element and not like a closing tag. -/
theorem exists_cons (h : IsChain n tag as text) : ∃ ch s, text = '<' :: ch :: s ∧ ch ≠ '/' ∧
    (tag = "" → ch = '>') ∧ ∀ d ∈ tag.toList.head?, ch = d := by
  obtain ⟨gap, ch, rest, rfl, hchars, -, -, -, hfragment⟩ := h.exists_tagStart
  cases htag : tag.toList with
  | nil =>
    obtain ⟨rfl, rfl, rfl⟩ := hfragment (String.toList_eq_nil_iff.1 htag)
    exact ⟨'>', rest, by simp [tagStart, htag], by decide, fun _ => rfl, by simp⟩
  | cons d more =>
    have hd : isTagChar d = true := hchars d (by rw [htag]; exact List.mem_cons_self)
    refine ⟨d, more ++ (attributeText as ++ gap ++ ch :: rest), by simp [tagStart, htag], ?_,
      ?_, by simp⟩
    · rintro rfl
      exact absurd hd (by decide)
    · rintro rfl
      cases htag

/-- In place of an operand a chain is taken for an element. -/
theorem startsElement (h : IsChain n tag as text) (hstart : MayStart tag as) :
    StartsElement text := by
  obtain ⟨ch, s, htext, -, hfragment, hletter⟩ := h.exists_cons
  refine ⟨ch, s, htext, ?_, fun later => ?_⟩
  · cases htag : tag.toList with
    | nil => exact .inr (hfragment (String.toList_eq_nil_iff.1 htag))
    | cons d more =>
      obtain rfl : ch = d := hletter d (by rw [htag]; rfl)
      exact .inl (hstart.letter ch (by rw [htag]; rfl))
  · obtain ⟨gap, sign, rest, htagStart, hchars, hnames, hblanks, hsign, -⟩ := h.exists_tagStart
    have hs : ch :: (s ++ later) =
        tag.toList ++ (attributeText as ++ (gap ++ sign :: (rest ++ later))) := by
      rw [htext, tagStart] at htagStart
      have := (List.cons.inj htagStart).2
      rw [← List.cons_append, this]
      simp
    rw [hs]
    exact startsTypeParameters_openingTag hchars hnames (fun _ => hstart.word) hblanks hsign _

/-- **A chain is read as its elements, or it is too deep**, when it has more elements than may be
nested. -/
theorem takes (h : IsChain n tag as text) (nesting : Nat) :
    Takes (scanElement nesting) (nesting < n) n text := by
  induction h generalizing nesting with
  | @selfClosing tag as gap hhead hnamed =>
    cases nesting with
    | zero => exact takes_scanElement_zero (Nat.succ_pos _) _
    | succ nesting =>
      intro stack c rest hc
      rw [List.append_assoc] at hc
      obtain ⟨attributes, stop, -, hstop, hyields⟩ :=
        yields_selfClosingTag (scanElement nesting) stack hhead.chars hhead.attributes
          hhead.blanks hc
      exact ⟨fun hdeep => absurd hdeep (by omega),
        fun _ => ⟨(), _, stop, hyields, hstop, Findings.clean_element _, rfl⟩⟩
  | closed hhead htext =>
    cases nesting with
    | zero => exact takes_scanElement_zero (Nat.succ_pos _) _
    | succ nesting =>
      have := takes_between hhead (takesInside_plain (scanElement nesting) htext)
      simpa [scanElement] using this
  | child before after hhead hinner hbefore hafter ih =>
    cases nesting with
    | zero => exact takes_scanElement_zero (Nat.succ_pos _) _
    | succ nesting =>
      obtain ⟨ch, s, hcons, hch, -⟩ := hinner.exists_cons
      have hbody := ((takesInside_plain _ hbefore).append ((ih nesting).inside hcons hch)).append
        (takesInside_plain _ hafter)
      simpa [scanElement] using takes_between hhead hbody
  | expression before left right after hhead hinner hstart hplace hbefore hafter ih =>
    cases nesting with
    | zero => exact takes_scanElement_zero (Nat.succ_pos _) _
    | succ nesting =>
      have hbody := ((takesInside_plain _ hbefore).append
        ((ih nesting).insideBraces (hinner.startsElement hstart) hplace)).append
        (takesInside_plain _ hafter)
      simpa [scanElement] using takes_between hhead hbody
  | value name left right more selfClosing hhead hnamed hname hfirst hmore hinner hstart
    hplace ih =>
    cases nesting with
    | zero => exact takes_scanElement_zero (Nat.succ_pos _) _
    | succ nesting =>
      have := takes_value (ih nesting) (hinner.startsElement hstart) hplace hhead hmore hname
        hfirst selfClosing
      simpa [scanElement] using this

end IsChain

/-! ## Whole sources -/

section Sources

variable {n : Nat} {tag : String} {as : List SpelledAttribute} {text left right : List Char}

/-- The scan of a source with a chain in place of an operand ends as that of the chain. -/
theorem scanSource_chain (h : IsChain n tag as text) (hstart : MayStart tag as)
    (hplace : Surrounds left right) :
    (maxNesting < n → ∃ line, scanSource (left ++ (text ++ right)) = .error (.tooDeep line)) ∧
      (n ≤ maxNesting → ∃ found, scanSource (left ++ (text ++ right)) = .ok found ∧ found.Clean ∧
        found.elements.length = n) := by
  obtain ⟨hoperand, depth, hleft, hright⟩ := hplace
  have hrun := hleft [] (text ++ right) 1
  rw [List.append_nil] at hrun
  have hstep : (Cursor.mk left.reverse (text ++ right) (1 + newlines left)).step = .element :=
    step_of_startsElement (h.startsElement hstart) hoperand rfl
  have hends : Ends (maxNesting < n) n right
      (scanElement maxNesting [] (Cursor.mk left.reverse (text ++ right) (1 + newlines left))) :=
    h.takes maxNesting [] _ _ rfl
  constructor
  · intro hdeep
    obtain ⟨line, herror⟩ := hends.tooDeep hdeep
    exact ⟨line, scanSource_element_error hrun hstep (rest_ne_nil_of_step hstep) herror⟩
  · intro hle
    obtain ⟨⟨⟩, found, ⟨before, _, line⟩, hyields, rfl, hfound⟩ := hends.found (Nat.not_lt.2 hle)
    have hlater := hright before [] line
    rw [List.append_nil] at hlater
    exact ⟨found, scanSource_element hrun hstep (rest_ne_nil_of_step hstep) hyields hlater rfl,
      hfound⟩

/-- **Every kind of nesting counts alike.** A source with a chain of elements in place of an
operand is taken apart into its elements, with every tag closed, if and only if there are no more
of them than may be nested; else it is too deep. In every source that is taken apart an element
has fewer ancestors than elements may be nested. -/
theorem ofText_chain (h : IsChain n tag as text) (hstart : MayStart tag as)
    (hplace : Surrounds left right) :
    ((∃ s, Structure.ofText (String.ofList (left ++ (text ++ right))) = .ok s ∧
        s.elements.length = n ∧ s.unclosed = [] ∧ s.unexpectedClosings = []) ↔ n ≤ maxNesting) ∧
      (maxNesting < n →
        ∃ line, Structure.ofText (String.ofList (left ++ (text ++ right))) =
          .error (.tooDeep line)) ∧
      ∀ source s, Structure.ofText source = .ok s →
        ∀ e ∈ s.elements, e.ancestors.length ≤ maxNesting - 1 := by
  have hmem : '<' ∈ left ++ (text ++ right) := by
    obtain ⟨ch, s, rfl, -⟩ := h.exists_cons
    simp
  have htext := ofText_of_scanSource hmem (by decide)
  obtain ⟨hdeep, hfound⟩ := scanSource_chain h hstart hplace
  have htooDeep (hlt : maxNesting < n) :
      ∃ line, Structure.ofText (String.ofList (left ++ (text ++ right))) =
        .error (.tooDeep line) := by
    obtain ⟨line, herror⟩ := hdeep hlt
    rw [herror] at htext
    exact ⟨line, htext⟩
  refine ⟨⟨?_, ?_⟩, htooDeep,
    fun source s hs e he => Nat.le_pred_of_lt (length_ancestors_lt hs e he)⟩
  · rintro ⟨s, hs, -⟩
    refine Nat.not_lt.1 fun hlt => ?_
    obtain ⟨line, herror⟩ := htooDeep hlt
    rw [hs] at herror
    cases herror
  · intro hle
    obtain ⟨found, hscan, ⟨hunclosed, hclosings⟩, hcount⟩ := hfound hle
    rw [hscan] at htext
    exact ⟨_, htext, hcount, hunclosed, hclosings⟩

/-- A list with an item in it, in an expression of the item a card, and in an attribute of the
card an icon. -/
def cardList : List Char :=
  "<List><Item>\x7bitems.map(i => <Card icon=\x7b<b/>\x7d/>)\x7d</Item></List>".toList

/-- So many tags around a tag that closes itself. -/
def nestedTags : Nat → List Char
  | 0 => tagStart "a" [] [] ++ ['/', '>']
  | n + 1 =>
    tagStart "a" [] [] ++ '>' :: ([] ++ nestedTags n ++ [] ++ TagEvent.text (.closing "a"))

theorem isHead_of_isTag {tag : String} (htag : IsTag tag.toList) : IsHead tag [] [] where
  chars := htag.2
  attributes := List.forall_mem_nil _
  blanks := List.forall_mem_nil _
  fragment _ := ⟨rfl, rfl⟩

theorem mayStart_of_letter {tag : String}
    (hletter : ∀ ch ∈ tag.toList.head?, isAlphabetic ch = true) :
    MayStart tag [] where
  letter := hletter
  word := fun _ h => nomatch h

theorem surrounds_rootPrefix : Surrounds rootPrefix [')', ';'] :=
  surrounds_of_passable (passable_of_inert (by decide)) (passable_of_inert (by decide))
    (by decide)

theorem isChain_cardList : IsChain 4 "List" [] cardList := by
  have hicon : IsChain 1 "b" [] _ := .selfClosing (isHead_of_isTag (by decide)) (by decide)
  have hcard : IsChain 2 "Card" _ _ :=
    .value "icon" [] [] [] true (isHead_of_isTag (by decide)) (by decide) (by decide)
      (by decide) (List.forall_mem_nil _) hicon (mayStart_of_letter (by decide)) surrounds_nil
  have hplace : Surrounds "items.map(i => ".toList [')'] :=
    surrounds_of_passable (passable_of_inert (by decide)) (passable_of_inert (by decide))
      (by decide)
  have hitem : IsChain 3 "Item" [] _ := .expression [] _ _ [] (isHead_of_isTag (by decide)) hcard
    ⟨by decide, by decide⟩ hplace (List.forall_mem_nil _) (List.forall_mem_nil _)
  have hlist : IsChain 4 "List" [] _ := .child [] [] (isHead_of_isTag (by decide)) hitem
    (List.forall_mem_nil _) (List.forall_mem_nil _)
  exact hlist

theorem isChain_nestedTags (n : Nat) : IsChain (n + 1) "a" [] (nestedTags n) := by
  have hhead : IsHead "a" [] [] := isHead_of_isTag (by decide)
  induction n with
  | zero => exact .selfClosing hhead (by decide)
  | succ n ih => exact .child [] [] hhead ih (List.forall_mem_nil _) (List.forall_mem_nil _)

/-- The four elements of the list are found, and one tag too many is too deep. -/
theorem ofText_chain_cardList :
    (∃ s, Structure.ofText (String.ofList (rootPrefix ++ (cardList ++ [')', ';']))) = .ok s ∧
        s.elements.length = 4 ∧ s.unclosed = [] ∧ s.unexpectedClosings = []) ∧
      ∃ line,
        Structure.ofText (String.ofList (rootPrefix ++ (nestedTags maxNesting ++ [')', ';']))) =
          .error (.tooDeep line) := by
  have hlist :=
    ofText_chain isChain_cardList (mayStart_of_letter (by decide)) surrounds_rootPrefix
  have hnested := ofText_chain (isChain_nestedTags maxNesting) (mayStart_of_letter (by decide))
    surrounds_rootPrefix
  exact ⟨hlist.1.2 (by decide), hnested.2.1 (Nat.lt_succ_self maxNesting)⟩

/-- An element whose name starts with a low line is not found in place of an operand, and neither
is one with an attribute whose first word bounds type parameters. -/
theorem ofText_chain_lowLine :
    (IsChain 1 "_R" [] "<_R/>".toList ∧ Surrounds "const A = () => ".toList [';'] ∧
      (Structure.ofText "const A = () => <_R/>;").toOption.map (·.elements) = some []) ∧
    IsChain 2 "b" [⟨"extends-x", .braces "<i/>".toList⟩] "<b extends-x=\x7b<i/>\x7d></b>".toList ∧
      (Structure.ofText "const A = () => <b extends-x=\x7b<i/>\x7d></b>;").toOption.map
        (·.elements) = some [] := by
  have hplace : Surrounds "const A = () => ".toList [';'] :=
    surrounds_of_passable (passable_of_inert (by decide)) (passable_of_inert (by decide))
      (by decide)
  have hroot : IsChain 1 "_R" [] _ := .selfClosing (isHead_of_isTag (by decide)) (by decide)
  have hinner : IsChain 1 "i" [] _ := .selfClosing (isHead_of_isTag (by decide)) (by decide)
  have hvalue : IsChain 2 "b" _ _ :=
    .value "extends-x" [] [] [] false (isHead_of_isTag (by decide)) (by decide)
      (by decide) (by decide) (List.forall_mem_nil _) hinner (mayStart_of_letter (by decide))
      surrounds_nil
  exact ⟨⟨hroot, hplace, by decide +kernel⟩, hvalue, by decide +kernel⟩

end Sources

end DesignCompiler.Markup
