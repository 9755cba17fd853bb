import DesignCompiler.Proofs.Markup.Termination

/-!
# The same turn in another text

A scan reads the text at its place, so the same turn is taken wherever that text stands. A shift
moves places from one text to another: `Turn.shift` moves the result of a turn, and each part of a
turn commutes with a shift that keeps the lines of places and the texts between them. What a shift
may change is what is read around the place: the text in front of it, when a less-than sign or a
slash is read, and the text behind it, where something ends.

The turn over script text is told by what begins at its place (`Beginning.script_eq`), which
places in different texts can share.
-/

namespace DesignCompiler.Markup

/-! ## The turn that begins -/

namespace Beginning

variable (limit : Nat) (expression : Option Expression) (depth : Nat) (found : Findings)
  (c : Cursor) (outer : List Loop)

/-- The turn over script text that begins so. -/
def turn : Beginning → Turn
  | atEnd =>
    match expression with
    | none => .ended (.ok found)
    | some e => .ended (.error (.unterminatedAttribute e.tag e.name e.line))
  | pass stop => .goesOn ⟨stop, .script expression depth found, outer⟩
  | openBrace stop => .goesOn ⟨stop, .script expression (depth + 1) found, outer⟩
  | closeBrace stop =>
    match depth, expression with
    | 0, some e => .leaveExpression e found stop outer
    | 0, none => .ended (.error (.unbalancedBrace stop.line))
    | depth + 1, expression => .goesOn ⟨stop, .script expression depth found, outer⟩
  | element => .enterElement limit c (.script expression depth found) outer
  | broken reason => .ended (.error reason)

/-- A turn over script text is the one over what begins there. -/
theorem script_eq :
    Turn.script limit expression depth found c outer =
      c.begins.turn limit expression depth found c outer := by
  rw [← beginning_step]
  unfold Turn.script
  cases c.step <;> rfl

end Beginning

/-! ## Shifts -/

/-- The expression, which starts at another place. -/
def Expression.shift (f : Cursor → Cursor) (e : Expression) : Expression :=
  { e with start := f e.start }

/-- The loop, whose expression starts at another place. -/
def Loop.shift (f : Cursor → Cursor) : Loop → Loop
  | script expression depth found => script (expression.map (Expression.shift f)) depth found
  | attributes opening => attributes opening
  | children opening inside found => children opening inside found

/-- The scan under way, at another place. -/
def Reading.shift (f : Cursor → Cursor) (s : Reading) : Reading :=
  ⟨f s.cursor, s.loop.shift f, s.outer.map (Loop.shift f)⟩

/-- The turn, which goes on at another place. -/
def Turn.shift (f : Cursor → Cursor) : Turn → Turn
  | ended result => ended result
  | goesOn next => goesOn (next.shift f)

/-- What begins at another place. -/
def Beginning.shift (f : Cursor → Cursor) : Beginning → Beginning
  | atEnd => atEnd
  | pass stop => pass (f stop)
  | openBrace stop => openBrace (f stop)
  | closeBrace stop => closeBrace (f stop)
  | element => element
  | broken reason => broken reason

/-- Places are moved without a change of their lines and of the texts between them. -/
structure IsShift (f : Cursor → Cursor) : Prop where
  line : ∀ c, (f c).line = c.line
  textUntil : ∀ c d, (f c).textUntil (f d) = c.textUntil d

section Shift

variable {f : Cursor → Cursor} {limit depth line : Nat} {c stop : Cursor} {found : Findings}
  {outer : List Loop} {opening : Opening}

@[simp] theorem upTo_shift (f : Cursor → Cursor) (reason : Anomaly) (stop? : Option Cursor) :
    (Beginning.upTo reason stop?).shift f = .upTo reason (stop?.map f) := by
  cases stop? <;> rfl

@[simp] theorem openTags_shift (f : Cursor → Cursor) (loops : List Loop) :
    openTags (loops.map (Loop.shift f)) = openTags loops := by
  have htag : Loop.tag? ∘ Loop.shift f = Loop.tag? := funext fun loop => by cases loop <;> rfl
  rw [openTags, List.filterMap_map, htag]
  rfl

@[simp] theorem openElements_shift (f : Cursor → Cursor) (loops : List Loop) :
    openElements (loops.map (Loop.shift f)) = openElements loops := by
  have hkind : Loop.isElement ∘ Loop.shift f = Loop.isElement :=
    funext fun loop => by cases loop <;> rfl
  rw [openElements, List.countP_map, hkind]
  rfl

theorem takeElement_shift (f : Cursor → Cursor) (found : Findings) (loop : Loop) :
    (loop.shift f).takeElement found = (loop.takeElement found).shift f := by
  cases loop <;> rfl

theorem takeExpression_shift (f : Cursor → Cursor) (e : Expression) (text : List Char)
    (found : Findings) (loop : Loop) :
    (loop.shift f).takeExpression (e.shift f) text found =
      (loop.takeExpression e text found).shift f := by
  cases loop <;> rfl

/-- Leaving a loop, if the loop around it takes the same. -/
theorem leave_shift (stop : Cursor) (found : Findings) {take take' : Loop → Loop}
    (outer : List Loop) (htake : ∀ loop : Loop, take' (loop.shift f) = (take loop).shift f) :
    Turn.leave (f stop) found take' (outer.map (Loop.shift f)) =
      (Turn.leave stop found take outer).shift f := by
  cases outer with
  | nil => rfl
  | cons loop outer =>
    show Turn.goesOn ⟨f stop, take' (loop.shift f), outer.map (Loop.shift f)⟩ = _
    rw [htake]
    rfl

theorem leaveElement_shift (f : Cursor → Cursor) (found : Findings) (stop : Cursor)
    (outer : List Loop) :
    Turn.leaveElement found (f stop) (outer.map (Loop.shift f)) =
      (Turn.leaveElement found stop outer).shift f :=
  leave_shift stop found outer (takeElement_shift f found)

theorem leaveExpression_shift (hf : IsShift f) (e : Expression) (found : Findings) (stop : Cursor)
    (outer : List Loop) :
    Turn.leaveExpression (e.shift f) found (f stop) (outer.map (Loop.shift f)) =
      (Turn.leaveExpression e found stop outer).shift f := by
  have htext : (e.shift f).text (f stop) = e.text stop :=
    congrArg List.dropLast (hf.textUntil e.start stop)
  unfold Turn.leaveExpression
  rw [htext]
  exact leave_shift stop found outer (takeExpression_shift f e (e.text stop) found)

theorem leaveChildren_shift (f : Cursor → Cursor) (opening : Opening) (inside : Inside)
    (found : Findings) (stop : Cursor) (outer : List Loop) :
    Turn.leaveChildren opening inside found (f stop) (outer.map (Loop.shift f)) =
      (Turn.leaveChildren opening inside found stop outer).shift f := by
  unfold Turn.leaveChildren
  rw [openTags_shift]
  exact leaveElement_shift f _ stop outer

/-- An element starts the same way where its name reads the same. -/
theorem enterElement_shift (hf : IsShift f)
    (hname : (f c).next.skipTagName = f c.next.skipTagName)
    (htag : (f c).next.tagName = c.next.tagName) (limit : Nat) (loop : Loop) (outer : List Loop) :
    Turn.enterElement limit (f c) (loop.shift f) (outer.map (Loop.shift f)) =
      (Turn.enterElement limit c loop outer).shift f := by
  have hopen : openElements (loop.shift f :: outer.map (Loop.shift f)) =
      openElements (loop :: outer) :=
    openElements_shift f (loop :: outer)
  unfold Turn.enterElement
  rw [hopen, hf.line, hname, htag]
  split <;> rfl

/-- The same beginning makes for the same turn, if it is no element or the name of the element
reads the same. -/
theorem turn_shift (hf : IsShift f) {begins : Beginning}
    (hname : begins = .element → (f c).next.skipTagName = f c.next.skipTagName ∧
      (f c).next.tagName = c.next.tagName)
    (limit : Nat) (expression : Option Expression) (depth : Nat) (found : Findings)
    (outer : List Loop) :
    (begins.shift f).turn limit (expression.map (Expression.shift f)) depth found (f c)
      (outer.map (Loop.shift f)) =
      (begins.turn limit expression depth found c outer).shift f := by
  cases begins with
  | atEnd => cases expression <;> rfl
  | pass stop => rfl
  | openBrace stop => rfl
  | closeBrace stop =>
    cases depth with
    | succ depth => cases expression <;> rfl
    | zero =>
      cases expression with
      | none =>
        exact congrArg (fun line => Turn.ended (.error (.unbalancedBrace line))) (hf.line stop)
      | some e => exact leaveExpression_shift hf e found stop outer
  | element =>
    obtain ⟨hskip, htag⟩ := hname rfl
    exact enterElement_shift hf hskip htag limit (.script expression depth found) outer
  | broken reason => rfl

end Shift

end DesignCompiler.Markup
