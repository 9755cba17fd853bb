import DesignCompiler.Proofs.Markup.Positions
import DesignCompiler.Proofs.Markup.Scanning

/-!
# Turns of a scan

A scan seen from outside: the loops that are under way, innermost first, and the place that is
read next. A `turn` is one turn of the innermost loop. It ends the scan, or it goes on; then it
may have started a loop, for an element or an expression, or left one.

`moves_turn` says what one turn does to the place: a turn goes ahead in the source, or it leaves
the children of an element at the place where they stand, at the end of the source or in front of
the closing tag of an element further out. A closing tag is found again by every element between,
but each time with a loop less, so the `potential` of a scan decreases turn by turn and
`Reading.run` needs no fuel. The limit on nesting is only looked at where an element starts.
-/

namespace DesignCompiler.Markup

open Text (isNameChar)

/-! ## Loops -/

/-- An expression that is read: the element and the attribute that it belongs to, its line, and
where its text starts. -/
structure Expression where
  tag : String
  name : String
  line : Nat
  start : Cursor
deriving Repr

/-- The text of an expression that ends in front of the given place, without its closing brace. -/
def Expression.text (e : Expression) (stop : Cursor) : List Char :=
  (e.start.textUntil stop).dropLast

/-- The attribute that an expression is the value of. -/
def Expression.toAttribute (e : Expression) (text : List Char) : Attribute :=
  ⟨e.name,
    .expression (String.ofList (if e.name = Attribute.spreadName then spreadText text else text)),
    e.line⟩

/-- An opening tag as far as it was read, with what was found in its attributes. -/
structure Opening where
  tag : String
  line : Nat
  attributes : List Attribute
  found : Findings
deriving Repr

/-- One more attribute. -/
def Opening.add (o : Opening) (a : Attribute) : Opening :=
  { o with attributes := o.attributes ++ [a] }

/-- A loop of a scan, with what it found so far. -/
inductive Loop where
  /-- Script text with so many open braces: that of an expression, or that of the source. -/
  | script (expression : Option Expression) (depth : Nat) (found : Findings)
  | attributes (opening : Opening)
  | children (opening : Opening) (inside : Inside) (found : Findings)
deriving Repr

namespace Loop

/-- The tag of the element whose children are read. -/
def tag? : Loop → Option String
  | script .. | attributes .. => none
  | children opening .. => some opening.tag

/-- Whether the loop reads a part of an element. -/
def isElement : Loop → Bool
  | script .. => false
  | attributes .. | children .. => true

/-- The loop behind an element that was in it. -/
def takeElement (found : Findings) : Loop → Loop
  | script expression depth earlier => script expression depth (earlier ++ found)
  | attributes opening => attributes { opening with found := opening.found ++ found }
  | children opening inside earlier =>
    children opening { inside with hasElement := true } (earlier ++ found)

/-- The loop behind an expression that was in it. -/
def takeExpression (e : Expression) (text : List Char) (found : Findings) : Loop → Loop
  | script expression depth earlier => script expression depth (earlier ++ found)
  | attributes opening =>
    attributes { opening.add (e.toAttribute text) with found := opening.found ++ found }
  | children opening inside earlier =>
    children opening { inside with hasExpression := inside.hasExpression || showsSomething text }
      (earlier ++ found)

end Loop

/-- The tags of the elements whose children are read, outermost first. -/
def openTags (loops : List Loop) : List String :=
  (loops.filterMap Loop.tag?).reverse

/-- How many elements are read. -/
def openElements (loops : List Loop) : Nat :=
  loops.countP Loop.isElement

section Open

variable (expression : Option Expression) (depth : Nat) (opening : Opening) (inside : Inside)
  (found : Findings) (outer : List Loop)

@[simp] theorem openTags_script :
    openTags (.script expression depth found :: outer) = openTags outer := rfl

@[simp] theorem openTags_attributes :
    openTags (.attributes opening :: outer) = openTags outer := rfl

@[simp] theorem openTags_children :
    openTags (.children opening inside found :: outer) = openTags outer ++ [opening.tag] := by
  simp [openTags, Loop.tag?]

@[simp] theorem openElements_script :
    openElements (.script expression depth found :: outer) = openElements outer :=
  List.countP_cons_of_neg Bool.false_ne_true

@[simp] theorem openElements_attributes :
    openElements (.attributes opening :: outer) = openElements outer + 1 :=
  List.countP_cons_of_pos rfl

@[simp] theorem openElements_children :
    openElements (.children opening inside found :: outer) = openElements outer + 1 :=
  List.countP_cons_of_pos rfl

end Open

/-- A scan under way: the place that is read next, the innermost loop, and the loops around it. -/
structure Reading where
  cursor : Cursor
  loop : Loop
  outer : List Loop
deriving Repr

/-- The start of a scan. -/
def Reading.start (text : List Char) : Reading :=
  ⟨.start text, .script none 0 .none, []⟩

/-- What a turn comes to. -/
inductive Turn where
  | ended (result : Except Anomaly Findings)
  | goesOn (next : Reading)

/-! ## One turn -/

namespace Turn

/-- Leaves the innermost loop; the one around it takes what was found. -/
def leave (stop : Cursor) (found : Findings) (take : Loop → Loop) : List Loop → Turn
  | [] => .ended (.ok found)
  | loop :: outer => .goesOn ⟨stop, take loop, outer⟩

/-- Starts an element in a loop, if it is not too deep. -/
def enterElement (limit : Nat) (c : Cursor) (loop : Loop) (outer : List Loop) : Turn :=
  if limit ≤ openElements (loop :: outer) then .ended (.error (.tooDeep c.line))
  else .goesOn ⟨c.next.skipTagName, .attributes ⟨c.next.tagName, c.line, [], .none⟩,
    loop :: outer⟩

/-- Starts an expression in a loop. -/
def enterExpression (e : Expression) (loop : Loop) (outer : List Loop) : Turn :=
  .goesOn ⟨e.start, .script (some e) 0 .none, loop :: outer⟩

/-- Leaves an expression. -/
def leaveExpression (e : Expression) (found : Findings) (stop : Cursor) (outer : List Loop) :
    Turn :=
  leave stop found (Loop.takeExpression e (e.text stop) found) outer

/-- Leaves an element. -/
def leaveElement (found : Findings) (stop : Cursor) (outer : List Loop) : Turn :=
  leave stop found (Loop.takeElement found) outer

/-- Leaves the children of an element. -/
def leaveChildren (opening : Opening) (inside : Inside) (found : Findings) (stop : Cursor)
    (outer : List Loop) : Turn :=
  let e :=
    (Element.bare opening.tag opening.attributes opening.line (openTags outer) false).filled
      inside
  leaveElement (opening.found ++ .element e ++ found ++
    .missingClose inside opening.tag opening.line) stop outer

/-- One turn over script text. -/
def script (limit : Nat) (expression : Option Expression) (depth : Nat) (found : Findings)
    (c : Cursor) (outer : List Loop) : Turn :=
  match c.step with
  | .atEnd =>
    match expression with
    | none => .ended (.ok found)
    | some e => .ended (.error (.unterminatedAttribute e.tag e.name e.line))
  | .pass stop _ => .goesOn ⟨stop, .script expression depth found, outer⟩
  | .openBrace stop _ => .goesOn ⟨stop, .script expression (depth + 1) found, outer⟩
  | .closeBrace stop _ =>
    match depth, expression with
    | 0, some e => leaveExpression e found stop outer
    | 0, none => .ended (.error (.unbalancedBrace stop.line))
    | depth + 1, expression => .goesOn ⟨stop, .script expression depth found, outer⟩
  | .element => enterElement limit c (.script expression depth found) outer
  | .broken reason => .ended (.error reason)

/-- The value of an attribute, behind the equals sign. -/
def value (opening : Opening) (name : String) (line : Nat) (c : Cursor) (outer : List Loop) :
    Turn :=
  match c.rest with
  | [] => .ended (.error (.unterminatedAttribute opening.tag name line))
  | ch :: rest =>
    if ch = '"' ∨ ch = '\x27' then
      match Cursor.quotedEnd? ch (ch :: c.before) c.line rest with
      | some (text, stop) =>
        .goesOn ⟨stop, .attributes (opening.add ⟨name, .text (String.ofList text), line⟩), outer⟩
      | none => .ended (.error (.unterminatedAttribute opening.tag name line))
    else if ch = '\x7b' then
      enterExpression ⟨opening.tag, name, line, c.next⟩ (.attributes opening) outer
    else .ended (.error (.unterminatedAttribute opening.tag name line))

/-- An attribute behind its name. -/
def named (opening : Opening) (name : String) (line : Nat) (c : Cursor) (outer : List Loop) :
    Turn :=
  if c.skipBlanks.rest.head? = some '=' then
    value opening name line c.skipBlanks.next.skipBlanks outer
  else .goesOn ⟨c.skipBlanks, .attributes (opening.add ⟨name, .flag, line⟩), outer⟩

/-- The end of an opening tag. -/
def endOpening (opening : Opening) (c : Cursor) (outer : List Loop) : Turn :=
  let selfClosing := c.rest.head? == some '/'
  let last := c.skipSlash selfClosing
  if last.rest.head? = some '>' then
    if selfClosing then
      let e := Element.bare opening.tag opening.attributes opening.line (openTags outer) true
      leaveElement (opening.found ++ .element e) last.next outer
    else .goesOn ⟨last.next, .children opening ⟨false, [], false, false⟩ .none, outer⟩
  else .ended (.error (.unterminatedTag opening.tag opening.line))

/-- One turn over the attributes of an opening tag. -/
def attributes (opening : Opening) (c : Cursor) (outer : List Loop) : Turn :=
  let c' := c.skipBlanks
  match c'.rest with
  | [] => .ended (.error (.unterminatedTag opening.tag opening.line))
  | ch :: _ =>
    if ch = '>' ∨ ch = '/' then endOpening opening c' outer
    else if ch = '\x7b' then
      enterExpression ⟨opening.tag, Attribute.spreadName, c'.line, c'.next⟩
        (.attributes opening) outer
    else if isNameChar ch then named opening c'.tagName c'.line c'.skipTagName outer
    else .ended (.error (.malformedTag opening.tag ch c'.line))

/-- One turn over the children of an element. -/
def children (limit : Nat) (opening : Opening) (inside : Inside) (found : Findings) (c : Cursor)
    (outer : List Loop) : Turn :=
  match c.rest with
  | [] => leaveChildren opening { inside with closed := false } found c outer
  | ch :: rest =>
    if ch = '<' then
      if rest.head? = some '/' then
        if c.closingEnd.rest.head? = some '>' then
          if c.closingName = opening.tag then
            leaveChildren opening { inside with closed := true } found c.closingEnd.next outer
          else if c.closingName ∈ openTags outer then
            leaveChildren opening { inside with closed := false } found c outer
          else
            .goesOn ⟨c.closingEnd.next,
              .children opening inside (found ++ .unexpectedClosing c.closingName c.line), outer⟩
        else .ended (.error (.unterminatedTag c.closingName c.line))
      else enterElement limit c (.children opening inside found) outer
    else if ch = '\x7b' then
      enterExpression ⟨opening.tag, "children", c.line, c.next⟩
        (.children opening inside found) outer
    else
      .goesOn ⟨c.skipWhile isPlain,
        .children opening { inside with text := inside.text ++ c.rest.takeWhile isPlain } found,
        outer⟩

end Turn

/-- One turn of the innermost loop. -/
def Reading.turn (limit : Nat) (s : Reading) : Turn :=
  match s.loop with
  | .script expression depth found => .script limit expression depth found s.cursor s.outer
  | .attributes opening => .attributes opening s.cursor s.outer
  | .children opening inside found => .children limit opening inside found s.cursor s.outer

/-! ## What a turn does to the place -/

/-- What a turn does to the place and the loops. -/
inductive Moves (s : Reading) : Turn → Prop where
  | ended (result : Except Anomaly Findings) : Moves s (.ended result)
  /-- The turn goes ahead, and at most one loop is started. -/
  | ahead {next : Reading} (hahead : s.cursor.Ahead next.cursor)
      (hloops : next.outer.length ≤ s.outer.length + 1) :
      Moves s (.goesOn next)
  /-- The children of an element are left where they stand: at the end of the source, or in front
  of the closing tag of an element further out. -/
  | leaves {next : Reading} {opening : Opening} {inside : Inside} {found : Findings}
      (hloop : s.loop = .children opening inside found) (hplace : next.cursor = s.cursor)
      (hloops : s.outer.length = next.outer.length + 1)
      (hwhere : s.cursor.rest = [] ∨ s.cursor.closingName ∈ openTags s.outer) :
      Moves s (.goesOn next)

section Moves

variable {limit depth line : Nat} {c c' stop : Cursor} {loop : Loop} {outer : List Loop}
  {opening : Opening} {inside : Inside} {found : Findings} {expression : Option Expression}
  {name : String}

theorem Moves.goesOn (loop' : Loop) (h : c.Ahead stop) :
    Moves ⟨c, loop, outer⟩ (.goesOn ⟨stop, loop', outer⟩) :=
  .ahead h (Nat.le_succ _)

theorem Moves.leave (take : Loop → Loop) (h : c.Ahead stop) :
    Moves ⟨c, loop, outer⟩ (Turn.leave stop found take outer) := by
  cases outer with
  | nil => exact .ended _
  | cons next rest =>
    refine .ahead h ?_
    simp only [List.length_cons]
    omega

theorem Moves.enterElement (loop' : Loop) (hrest : c.rest ≠ []) :
    Moves ⟨c, loop, outer⟩ (Turn.enterElement limit c loop' outer) := by
  unfold Turn.enterElement
  split
  · exact .ended _
  · exact .ahead ((Cursor.ahead_next hrest).trans_leads (Cursor.leads_skipTagName _))
      (Nat.le_refl _)

theorem Moves.enterExpression {e : Expression} (loop' : Loop) (h : c.Ahead e.start) :
    Moves ⟨c, loop, outer⟩ (Turn.enterExpression e loop' outer) :=
  .ahead h (Nat.le_refl _)

theorem moves_script (limit : Nat) (expression : Option Expression) (depth : Nat)
    (found : Findings) (c : Cursor) (outer : List Loop) (loop : Loop) :
    Moves ⟨c, loop, outer⟩ (.script limit expression depth found c outer) := by
  have hstop (stop : Cursor) (h : c.step.stop? = some stop) : c.Ahead stop := ahead_step h
  unfold Turn.script
  cases hstep : c.step with
  | atEnd => cases expression <;> exact .ended _
  | pass stop _ => exact .goesOn _ (hstop stop (by rw [hstep]; rfl))
  | openBrace stop _ => exact .goesOn _ (hstop stop (by rw [hstep]; rfl))
  | closeBrace stop _ =>
    have hahead := hstop stop (by rw [hstep]; rfl)
    cases depth with
    | zero =>
      cases expression with
      | none => exact .ended _
      | some e => exact .leave _ hahead
    | succ depth => exact .goesOn _ hahead
  | element => exact .enterElement _ (rest_ne_nil_of_step hstep)
  | broken reason => exact .ended _

theorem moves_value (opening : Opening) (name : String) (line : Nat) (outer : List Loop)
    (loop : Loop) (h : c.Ahead c') :
    Moves ⟨c, loop, outer⟩ (.value opening name line c' outer) := by
  unfold Turn.value
  split
  · exact .ended _
  · rename_i ch rest hrest
    split
    · rename_i hquote
      split
      · rename_i hend
        exact .goesOn _ (h.trans_leads (Cursor.ahead_of_quotedEnd? hquote hrest hend).leads)
      · exact .ended _
    · split
      · exact .enterExpression _ (h.trans_leads (Cursor.leads_next c'))
      · exact .ended _

theorem moves_named (opening : Opening) (name : String) (line : Nat) (outer : List Loop)
    (loop : Loop) (h : c.Ahead c') :
    Moves ⟨c, loop, outer⟩ (.named opening name line c' outer) := by
  have hblanks : c.Ahead c'.skipBlanks := h.trans_leads (Cursor.leads_skipBlanks c')
  unfold Turn.named
  split
  · exact moves_value opening name line outer loop
      (hblanks.trans_leads ((Cursor.leads_next _).trans (Cursor.leads_skipBlanks _)))
  · exact .goesOn _ hblanks

theorem moves_endOpening (opening : Opening) (outer : List Loop) (loop : Loop) (h : c.Leads c') :
    Moves ⟨c, loop, outer⟩ (.endOpening opening c' outer) := by
  unfold Turn.endOpening
  simp only
  split
  · rename_i hclose
    obtain ⟨rest, hrest⟩ := List.head?_eq_some_iff.1 hclose
    have hne : (c'.skipSlash (c'.rest.head? == some '/')).rest ≠ [] := by
      rw [hrest]
      exact List.cons_ne_nil _ _
    have hahead := (h.trans (Cursor.leads_skipSlash c' _)).trans_ahead (Cursor.ahead_next hne)
    split
    · exact .leave _ hahead
    · exact .goesOn _ hahead
  · exact .ended _

theorem moves_attributes (opening : Opening) (c : Cursor) (outer : List Loop) (loop : Loop) :
    Moves ⟨c, loop, outer⟩ (.attributes opening c outer) := by
  have hblanks : c.Leads c.skipBlanks := Cursor.leads_skipBlanks c
  unfold Turn.attributes
  simp only
  split
  · exact .ended _
  · rename_i ch rest hrest
    have hne : c.skipBlanks.rest ≠ [] := by
      rw [hrest]
      exact List.cons_ne_nil ch rest
    split
    · exact moves_endOpening opening outer loop hblanks
    · split
      · exact .enterExpression _ (hblanks.trans_ahead (Cursor.ahead_next hne))
      · split
        · rename_i hname
          have hlt : c.skipBlanks.skipTagName.rest.length < c.skipBlanks.rest.length :=
            Cursor.skipWhile_lt hrest (isTagChar_of_isNameChar hname)
          exact moves_named opening _ _ outer loop
            (hblanks.trans_ahead ((Cursor.leads_skipTagName _).ahead hlt))
        · exact .ended _

/-- The children of an element are left where they stand. -/
theorem Moves.leaveChildren (inside' : Inside) (found' : Findings)
    (hwhere : c.rest = [] ∨ c.closingName ∈ openTags outer) :
    Moves ⟨c, .children opening inside found, outer⟩
      (Turn.leaveChildren opening inside' found' c outer) := by
  unfold Turn.leaveChildren Turn.leaveElement
  cases outer with
  | nil => exact .ended _
  | cons next rest => exact .leaves rfl rfl rfl hwhere

theorem moves_children (limit : Nat) (opening : Opening) (inside : Inside) (found : Findings)
    (c : Cursor) (outer : List Loop) :
    Moves ⟨c, .children opening inside found, outer⟩
      (.children limit opening inside found c outer) := by
  unfold Turn.children
  split
  · rename_i hrest
    exact .leaveChildren _ _ (.inl hrest)
  · rename_i ch rest hrest
    have hne : c.rest ≠ [] := by
      rw [hrest]
      exact List.cons_ne_nil ch rest
    split
    · split
      · split
        · rename_i hend
          obtain ⟨later, hlater⟩ := List.head?_eq_some_iff.1 hend
          have hahead :=
            (Cursor.leads_closingEnd c).trans_ahead (Cursor.ahead_next (by rw [hlater]; simp))
          split
          · exact .leave _ hahead
          · split
            · rename_i hopen
              exact .leaveChildren _ _ (.inr hopen)
            · exact .goesOn _ hahead
        · exact .ended _
      · exact .enterElement _ hne
    · rename_i hsign
      split
      · exact .enterExpression _ (Cursor.ahead_next hne)
      · rename_i hbrace
        exact .goesOn _ ((Cursor.leads_skipWhile isPlain c).ahead
          (Cursor.skipWhile_lt hrest (isPlain_of_ne hsign hbrace)))

/-- **One turn** goes ahead, or it leaves the children of an element where they stand. -/
theorem moves_turn (limit : Nat) (s : Reading) : Moves s (s.turn limit) := by
  obtain ⟨c, loop, outer⟩ := s
  unfold Reading.turn
  cases loop with
  | script expression depth found => exact moves_script limit expression depth found c outer _
  | attributes opening => exact moves_attributes opening c outer _
  | children opening inside found => exact moves_children limit opening inside found c outer

end Moves

/-- Two elements in front of the closing tag of the outer one, which closes both. -/
def sharedClosing : Reading :=
  ⟨⟨"<A><B>".toList.reverse, "</A>".toList, 1⟩,
    .children ⟨"B", 1, [], .none⟩ ⟨false, [], false, false⟩ .none,
    [.children ⟨"A", 1, [], .none⟩ ⟨false, [], false, false⟩ .none, .script none 0 .none]⟩

/-- The inner element leaves the closing tag to the outer one. -/
example : ∃ loop outer, sharedClosing.turn 2 = .goesOn ⟨sharedClosing.cursor, loop, outer⟩ :=
  ⟨_, _, rfl⟩

/-! ## Whole runs -/

namespace Reading

/-- What is left to do: the text is read once, and every loop is left once. -/
def potential (s : Reading) : Nat :=
  2 * s.cursor.rest.length + s.outer.length

/-- Every turn that goes on decreases what is left to do. -/
theorem potential_lt {limit : Nat} {s next : Reading} (h : s.turn limit = .goesOn next) :
    next.potential < s.potential := by
  have hmoves := moves_turn limit s
  rw [h] at hmoves
  unfold potential
  cases hmoves with
  | ahead hahead hloops =>
    have := hahead.lt
    omega
  | leaves _ hplace hloops =>
    rw [hplace]
    omega

/-- Takes turns until the scan ends. -/
def run (limit : Nat) (s : Reading) : Except Anomaly Findings :=
  match hturn : s.turn limit with
  | .ended result => result
  | .goesOn next =>
    have := potential_lt hturn
    next.run limit
termination_by s.potential
decreasing_by assumption

/-- The number of turns until the scan ends. -/
def turns (limit : Nat) (s : Reading) : Nat :=
  match hturn : s.turn limit with
  | .ended _ => 1
  | .goesOn next =>
    have := potential_lt hturn
    next.turns limit + 1
termination_by s.potential
decreasing_by assumption

theorem turns_le (limit : Nat) (s : Reading) : s.turns limit ≤ s.potential + 1 := by
  fun_induction turns limit s with
  | case1 => omega
  | case2 => omega

theorem potential_start (text : List Char) : (start text).potential = 2 * text.length :=
  Nat.add_zero _

end Reading

end DesignCompiler.Markup
