import DesignCompiler.Proofs.Markup.Shifts

/-!
# The same scan further down

Lines are only ever counted on from the line of the place where a scan starts, so a scan that
starts further down finds the same with all lines further down. `down` moves lines in everything
that has some, from places to whole scans; `turn_down` says that one turn commutes with it, and
`run_down` follows for a run.
-/

namespace DesignCompiler.Markup

open Text (isBlank isNameChar)

/-! ## Lines -/

/-- The anomaly, so many lines further down. -/
def Anomaly.down (k : Nat) : Anomaly → Anomaly
  | empty => empty
  | unterminatedTag tag line => unterminatedTag tag (line + k)
  | unterminatedAttribute tag name line => unterminatedAttribute tag name (line + k)
  | malformedTag tag found line => malformedTag tag found (line + k)
  | unterminatedString line => unterminatedString (line + k)
  | unterminatedExpression line => unterminatedExpression (line + k)
  | unterminatedRegex line => unterminatedRegex (line + k)
  | unbalancedBrace line => unbalancedBrace (line + k)
  | tooDeep line => tooDeep (line + k)

/-- The attribute, so many lines further down. -/
def Attribute.down (k : Nat) (a : Attribute) : Attribute :=
  { a with line := a.line + k }

/-- The element, so many lines further down. -/
def Element.down (k : Nat) (e : Element) : Element :=
  { e with attributes := e.attributes.map (Attribute.down k), line := e.line + k }

/-- The tag, so many lines further down. -/
def tagDown (k : Nat) (p : String × Nat) : String × Nat :=
  (p.1, p.2 + k)

/-- The findings, so many lines further down. -/
def Findings.down (k : Nat) (found : Findings) : Findings :=
  ⟨found.elements.map (Element.down k), found.unexpectedClosings.map (tagDown k),
    found.unclosed.map (tagDown k)⟩

/-- The result, so many lines further down. -/
def downResult {α : Type} (down : Nat → α → α) (k : Nat) (result : Except Anomaly α) :
    Except Anomaly α :=
  (result.map (down k)).mapError (Anomaly.down k)

/-- The place in the same text, so many lines further down. -/
def Cursor.down (k : Nat) (c : Cursor) : Cursor :=
  { c with line := c.line + k }

/-- What begins so many lines further down. -/
def Beginning.down (k : Nat) : Beginning → Beginning
  | atEnd => atEnd
  | pass stop => pass (stop.down k)
  | openBrace stop => openBrace (stop.down k)
  | closeBrace stop => closeBrace (stop.down k)
  | element => element
  | broken reason => broken (reason.down k)

/-- The expression, so many lines further down. -/
def Expression.down (k : Nat) (e : Expression) : Expression :=
  { e with line := e.line + k, start := e.start.down k }

/-- The opening tag, so many lines further down. -/
def Opening.down (k : Nat) (o : Opening) : Opening :=
  { o with
    line := o.line + k, attributes := o.attributes.map (Attribute.down k),
    found := o.found.down k }

/-- The loop, so many lines further down. -/
def Loop.down (k : Nat) : Loop → Loop
  | script expression depth found =>
    script (expression.map (Expression.down k)) depth (found.down k)
  | attributes opening => attributes (opening.down k)
  | children opening inside found => children (opening.down k) inside (found.down k)

/-- The scan under way, so many lines further down. -/
def Reading.down (k : Nat) (s : Reading) : Reading :=
  ⟨s.cursor.down k, s.loop.down k, s.outer.map (Loop.down k)⟩

/-- The turn, so many lines further down. -/
def Turn.down (k : Nat) : Turn → Turn
  | ended result => ended (downResult Findings.down k result)
  | goesOn next => goesOn (next.down k)

/-! ## Findings -/

section Findings

variable (k : Nat)

@[simp] theorem down_append (a b : Findings) : (a ++ b).down k = a.down k ++ b.down k := by
  show Findings.mk _ _ _ = Findings.mk _ _ _
  simp [Findings.down]

@[simp] theorem down_element (e : Element) :
    (Findings.element e).down k = .element (e.down k) := rfl

@[simp] theorem down_unexpectedClosing (tag : String) (line : Nat) :
    (Findings.unexpectedClosing tag line).down k = .unexpectedClosing tag (line + k) := rfl

theorem down_missingClose (inside : Inside) (tag : String) (line : Nat) :
    (Findings.missingClose inside tag line).down k = .missingClose inside tag (line + k) := by
  unfold Findings.missingClose
  split <;> rfl

end Findings

/-! ## Places -/

namespace Cursor

variable (k : Nat) (c : Cursor)

@[simp] theorem before_down : (c.down k).before = c.before := rfl

@[simp] theorem rest_down : (c.down k).rest = c.rest := rfl

@[simp] theorem line_down : (c.down k).line = c.line + k := rfl

theorem lineAfter_add (line : Nat) (ch : Char) :
    lineAfter (line + k) ch = lineAfter line ch + k := by
  unfold lineAfter
  split <;> omega

@[simp] theorem next_down : (c.down k).next = c.next.down k := by
  obtain ⟨before, rest, line⟩ := c
  cases rest with
  | nil => rfl
  | cons ch rest => exact congrArg (Cursor.mk _ _) (lineAfter_add k line ch)

@[simp] theorem skipWhile_down (accepts : Char → Bool) :
    (c.down k).skipWhile accepts = (c.skipWhile accepts).down k := by
  obtain ⟨before, rest, line⟩ := c
  show skipFrom accepts before (line + k) rest = (skipFrom accepts before line rest).down k
  induction rest generalizing before line with
  | nil => rfl
  | cons ch rest ih =>
    unfold skipFrom
    rw [lineAfter_add]
    split
    · exact ih (ch :: before) _
    · rfl

@[simp] theorem skipBlanks_down : (c.down k).skipBlanks = c.skipBlanks.down k :=
  skipWhile_down k c isBlank

@[simp] theorem skipTagName_down : (c.down k).skipTagName = c.skipTagName.down k :=
  skipWhile_down k c isTagChar

@[simp] theorem tagName_down : (c.down k).tagName = c.tagName := rfl

@[simp] theorem skipSlash_down (isSlash : Bool) :
    (c.down k).skipSlash isSlash = (c.skipSlash isSlash).down k := by
  cases isSlash with
  | false => rfl
  | true => exact next_down k c

@[simp] theorem closingName_down : (c.down k).closingName = c.closingName := by
  simp [closingName]

@[simp] theorem closingEnd_down : (c.down k).closingEnd = c.closingEnd.down k := by
  simp [closingEnd]

theorem stringEnd?_down (quote : Char) (before : List Char) (line : Nat) (rest : List Char) :
    stringEnd? quote before (line + k) rest =
      (stringEnd? quote before line rest).map (down k) := by
  fun_induction stringEnd? quote before line rest with
  | case1 => rfl
  | case2 => rfl
  | case3 before line ch rest ih =>
    rw [stringEnd?, lineAfter_add, ih]
  | case4 => simp_all [stringEnd?]
  | case5 => simp_all [stringEnd?, down, lineAfter_add]
  | case6 => simp_all [stringEnd?, lineAfter_add]

theorem regexEnd?_down (inClass : Bool) (before : List Char) (line : Nat) (rest : List Char) :
    regexEnd? inClass before (line + k) rest =
      (regexEnd? inClass before line rest).map (down k) := by
  fun_induction regexEnd? inClass before line rest with
  | case1 => rfl
  | case2 => rfl
  | case3 inClass before line ch rest ih =>
    rw [regexEnd?, lineAfter_add, ih]
  | case4 => simp_all [regexEnd?]
  | case5 => simp_all [regexEnd?, down]
  | case6 => simp_all [regexEnd?]

theorem blockCommentEnd_down (before : List Char) (line : Nat) (rest : List Char) :
    blockCommentEnd before (line + k) rest = (blockCommentEnd before line rest).down k := by
  fun_induction blockCommentEnd before line rest with
  | case1 => rfl
  | case2 => rfl
  | case3 before line ch rest hend ih =>
    rw [blockCommentEnd.eq_3 _ _ _ _ hend, lineAfter_add, ih]

theorem typeParametersEnd_down (depth : Nat) (previous : Char) (before : List Char) (line : Nat)
    (rest : List Char) :
    typeParametersEnd depth previous before (line + k) rest =
      (typeParametersEnd depth previous before line rest).down k := by
  fun_induction typeParametersEnd depth previous before line rest with
  | case1 => rfl
  | case2 => simp_all [typeParametersEnd]
  | case3 => simp_all [typeParametersEnd, down]
  | case4 =>
    rename_i hsign hclose hdepth ih
    rw [typeParametersEnd, if_neg hsign, if_pos hclose, if_neg hdepth]
    exact ih
  | case5 => simp_all [typeParametersEnd, lineAfter_add]

theorem quotedEnd?_down (quote : Char) (before : List Char) (line : Nat) (rest : List Char) :
    quotedEnd? quote before (line + k) rest =
      (quotedEnd? quote before line rest).map fun (text, stop) => (text, stop.down k) := by
  induction rest generalizing before line with
  | nil => rfl
  | cons ch rest ih =>
    unfold quotedEnd?
    rw [lineAfter_add]
    split
    · rfl
    · rw [ih, Option.map_map, Option.map_map]
      rfl

end Cursor

/-! ## What begins at a place -/

section Begins

variable (k : Nat) (c : Cursor)

theorem upTo_down (reason : Anomaly) (stop? : Option Cursor) :
    (Beginning.upTo reason stop?).down k = .upTo (reason.down k) (stop?.map (Cursor.down k)) := by
  cases stop? <;> rfl

theorem slashBegins_down (rest : List Char) :
    (c.down k).slashBegins rest = (c.slashBegins rest).down k := by
  unfold Cursor.slashBegins
  simp only [Cursor.next_down, Cursor.skipWhile_down, Cursor.before_down, Cursor.rest_down,
    Cursor.line_down, Cursor.blockCommentEnd_down, Cursor.regexEnd?_down]
  split
  · rfl
  · split
    · rfl
    · split
      · rw [upTo_down, Option.map_map, Option.map_map]
        congr 2
        funext stop
        exact Cursor.skipWhile_down k stop isNameChar
      · rfl

theorem signBegins_down (rest : List Char) :
    (c.down k).signBegins rest = (c.signBegins rest).down k := by
  unfold Cursor.signBegins
  rw [Cursor.before_down, Cursor.next_down, Cursor.line_down, Cursor.typeParametersEnd_down]
  repeat' split
  all_goals rfl

theorem begins_down : (c.down k).begins = c.begins.down k := by
  unfold Cursor.begins
  rw [Cursor.rest_down]
  cases c.rest with
  | nil => rfl
  | cons ch rest =>
    simp only [Cursor.next_down, Cursor.before_down, Cursor.line_down, Cursor.stringEnd?_down,
      slashBegins_down, signBegins_down]
    split
    · rw [upTo_down]
      rfl
    · repeat' split
      all_goals rfl

end Begins

/-! ## Turns -/

section Turns

variable (k limit : Nat) (outer : List Loop)

@[simp] theorem openTags_down (loops : List Loop) :
    openTags (loops.map (Loop.down k)) = openTags loops := by
  have htag : Loop.tag? ∘ Loop.down k = Loop.tag? := funext fun loop => by cases loop <;> rfl
  rw [openTags, List.filterMap_map, htag]
  rfl

@[simp] theorem openElements_down (loops : List Loop) :
    openElements (loops.map (Loop.down k)) = openElements loops := by
  have hkind : Loop.isElement ∘ Loop.down k = Loop.isElement :=
    funext fun loop => by cases loop <;> rfl
  rw [openElements, List.countP_map, hkind]
  rfl

theorem add_down (opening : Opening) (a : Attribute) :
    (opening.down k).add (a.down k) = (opening.add a).down k := by
  simp [Opening.add, Opening.down]

/-- Leaving a loop, if the loop around it takes the same. -/
theorem leave_down (stop : Cursor) (found : Findings) {take take' : Loop → Loop}
    (htake : ∀ loop : Loop, take' (loop.down k) = (take loop).down k) :
    Turn.leave (stop.down k) (found.down k) take' (outer.map (Loop.down k)) =
      (Turn.leave stop found take outer).down k := by
  cases outer with
  | nil => rfl
  | cons loop outer =>
    show Turn.goesOn ⟨stop.down k, take' (loop.down k), outer.map (Loop.down k)⟩ = _
    rw [htake]
    rfl

theorem leaveElement_down (found : Findings) (stop : Cursor) :
    Turn.leaveElement (found.down k) (stop.down k) (outer.map (Loop.down k)) =
      (Turn.leaveElement found stop outer).down k := by
  refine leave_down k outer stop found fun loop => ?_
  cases loop <;> simp [Loop.takeElement, Loop.down, Opening.down]

theorem leaveExpression_down (e : Expression) (found : Findings) (stop : Cursor) :
    Turn.leaveExpression (e.down k) (found.down k) (stop.down k) (outer.map (Loop.down k)) =
      (Turn.leaveExpression e found stop outer).down k := by
  refine leave_down k outer stop found fun loop => ?_
  have htext : (e.down k).text (stop.down k) = e.text stop := rfl
  rw [htext]
  cases loop with
  | script expression depth earlier => simp [Loop.takeExpression, Loop.down]
  | children opening inside earlier => simp [Loop.takeExpression, Loop.down]
  | attributes opening =>
    have hattribute : (e.down k).toAttribute (e.text stop) =
        (e.toAttribute (e.text stop)).down k := rfl
    simp [Loop.takeExpression, Loop.down, Opening.down, Opening.add, hattribute]

theorem leaveChildren_down (opening : Opening) (inside : Inside) (found : Findings)
    (stop : Cursor) :
    Turn.leaveChildren (opening.down k) inside (found.down k) (stop.down k)
      (outer.map (Loop.down k)) =
      (Turn.leaveChildren opening inside found stop outer).down k := by
  unfold Turn.leaveChildren
  rw [openTags_down, ← leaveElement_down]
  simp only [down_append, down_element, down_missingClose]
  rfl

theorem enterElement_down (c : Cursor) (loop : Loop) :
    Turn.enterElement limit (c.down k) (loop.down k) (outer.map (Loop.down k)) =
      (Turn.enterElement limit c loop outer).down k := by
  have hopen : openElements (loop.down k :: outer.map (Loop.down k)) =
      openElements (loop :: outer) :=
    openElements_down k (loop :: outer)
  unfold Turn.enterElement
  rw [hopen, Cursor.next_down, Cursor.skipTagName_down]
  split <;> rfl

theorem script_down (expression : Option Expression) (depth : Nat) (found : Findings)
    (c : Cursor) :
    Turn.script limit (expression.map (Expression.down k)) depth (found.down k) (c.down k)
      (outer.map (Loop.down k)) =
      (Turn.script limit expression depth found c outer).down k := by
  rw [Beginning.script_eq, Beginning.script_eq, begins_down]
  cases c.begins with
  | atEnd => cases expression <;> rfl
  | pass stop => rfl
  | openBrace stop => rfl
  | closeBrace stop =>
    cases depth with
    | succ depth => cases expression <;> rfl
    | zero =>
      cases expression with
      | none => rfl
      | some e => exact leaveExpression_down k outer e found stop
  | element => exact enterElement_down k limit outer c (.script expression depth found)
  | broken reason => rfl

theorem value_down (opening : Opening) (name : String) (line : Nat) (c : Cursor) :
    Turn.value (opening.down k) name (line + k) (c.down k) (outer.map (Loop.down k)) =
      (Turn.value opening name line c outer).down k := by
  unfold Turn.value
  rw [Cursor.rest_down]
  cases c.rest with
  | nil => rfl
  | cons ch rest =>
    simp only [Cursor.next_down, Cursor.before_down, Cursor.line_down, Cursor.quotedEnd?_down]
    split
    · cases Cursor.quotedEnd? ch (ch :: c.before) c.line rest with
      | none => rfl
      | some found =>
        obtain ⟨text, stop⟩ := found
        exact congrArg (fun opening =>
          Turn.goesOn ⟨stop.down k, .attributes opening, outer.map (Loop.down k)⟩)
          (add_down k opening ⟨name, .text (String.ofList text), line⟩)
    · split <;> rfl

theorem named_down (opening : Opening) (name : String) (line : Nat) (c : Cursor) :
    Turn.named (opening.down k) name (line + k) (c.down k) (outer.map (Loop.down k)) =
      (Turn.named opening name line c outer).down k := by
  unfold Turn.named
  simp only [Cursor.skipBlanks_down, Cursor.rest_down, Cursor.next_down]
  split
  · exact value_down k outer opening name line _
  · exact congrArg (fun opening =>
      Turn.goesOn ⟨c.skipBlanks.down k, .attributes opening, outer.map (Loop.down k)⟩)
      (add_down k opening ⟨name, .flag, line⟩)

theorem endOpening_down (opening : Opening) (c : Cursor) :
    Turn.endOpening (opening.down k) (c.down k) (outer.map (Loop.down k)) =
      (Turn.endOpening opening c outer).down k := by
  unfold Turn.endOpening
  simp only [Cursor.skipSlash_down, Cursor.rest_down, Cursor.next_down, openTags_down]
  split
  · split
    · rw [← leaveElement_down, down_append, down_element]
      rfl
    · rfl
  · rfl

theorem attributes_down (opening : Opening) (c : Cursor) :
    Turn.attributes (opening.down k) (c.down k) (outer.map (Loop.down k)) =
      (Turn.attributes opening c outer).down k := by
  unfold Turn.attributes
  simp only [Cursor.skipBlanks_down, Cursor.rest_down, Cursor.next_down, Cursor.tagName_down,
    Cursor.line_down, Cursor.skipTagName_down]
  cases c.skipBlanks.rest with
  | nil => rfl
  | cons ch rest =>
    simp only
    split
    · exact endOpening_down k outer opening _
    · split
      · rfl
      · split
        · exact named_down k outer opening _ _ _
        · rfl

theorem children_down (opening : Opening) (inside : Inside) (found : Findings) (c : Cursor) :
    Turn.children limit (opening.down k) inside (found.down k) (c.down k)
      (outer.map (Loop.down k)) =
      (Turn.children limit opening inside found c outer).down k := by
  have htag : (opening.down k).tag = opening.tag := rfl
  unfold Turn.children
  simp only [Cursor.closingName_down, Cursor.closingEnd_down, Cursor.rest_down, Cursor.next_down,
    Cursor.line_down, Cursor.skipWhile_down, openTags_down, leaveChildren_down, htag]
  cases c.rest with
  | nil => rfl
  | cons ch rest =>
    simp only
    split
    · split
      · split
        · split
          · rfl
          · split
            · rfl
            · rw [← down_unexpectedClosing, ← down_append]
              rfl
        · rfl
      · exact enterElement_down k limit outer c (.children opening inside found)
    · split <;> rfl

/-- **A turn is the same further down.** -/
theorem turn_down (s : Reading) : (s.down k).turn limit = (s.turn limit).down k := by
  obtain ⟨c, loop, outer⟩ := s
  cases loop with
  | script expression depth found => exact script_down k limit outer expression depth found c
  | attributes opening => exact attributes_down k outer opening c
  | children opening inside found => exact children_down k limit outer opening inside found c

/-- **A scan is the same further down.** -/
theorem run_down (s : Reading) :
    (s.down k).run limit = downResult Findings.down k (s.run limit) := by
  fun_induction Reading.run limit s with
  | case1 s result hturn =>
    rw [Reading.run_eq, turn_down, hturn]
    rfl
  | case2 s next hturn _ ih =>
    rw [Reading.run_eq, turn_down, hturn]
    exact ih

end Turns

end DesignCompiler.Markup
