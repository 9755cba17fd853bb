import DesignCompiler.Proofs.Markup.Turns

/-!
# Scans end

The scans of `Scan` call one another: an element its attributes and its children, these the
expressions and elements in them. `Reading.turn` takes the same scan apart into turns of one loop
at a time. Each call is followed by turns: `Follows` says that the turns come to the anomaly of
the call, or to where its result is taken up, and it is proved of every loop along the text that
the loop has left, and of elements along the nesting that is still allowed.

So `run_start` says that a scan ends with what its turns come to, whatever the limit on nesting
is, and `scan_terminates` collects what the turns say about its end.
-/

namespace DesignCompiler.Markup

open Text (isNameChar)

/-! ## Turns behind a turn -/

/-- The second turn is the first one, or it comes behind it. -/
inductive Turn.Becomes (limit : Nat) : Turn → Turn → Prop where
  | refl (t : Turn) : Becomes limit t t
  | goesOn {s : Reading} {t : Turn} (h : Becomes limit (s.turn limit) t) :
    Becomes limit (.goesOn s) t

section Becomes

variable {limit : Nat}

theorem Turn.Becomes.trans {t u v : Turn} (h : t.Becomes limit u) (h' : u.Becomes limit v) :
    t.Becomes limit v := by
  induction h with
  | refl => exact h'
  | goesOn _ ih => exact .goesOn (ih h')

/-- What a scan ends with behind a turn. -/
def Turn.result (limit : Nat) : Turn → Except Anomaly Findings
  | .ended result => result
  | .goesOn s => s.run limit

theorem Reading.run_eq (limit : Nat) (s : Reading) :
    s.run limit = (s.turn limit).result limit := by
  rw [run]
  split <;> rename_i hturn <;> simp only [hturn, Turn.result]

theorem Turn.Becomes.result_eq {t u : Turn} (h : t.Becomes limit u) :
    t.result limit = u.result limit := by
  induction h with
  | refl => rfl
  | goesOn _ ih => rw [← ih, ← Reading.run_eq]; rfl

/-- A turn leads on in the source. -/
theorem Moves.leads {s next : Reading} (h : Moves s (.goesOn next)) :
    s.cursor.Leads next.cursor := by
  cases h with
  | ahead hahead _ => exact hahead.leads
  | leaves _ hplace _ _ =>
    rw [hplace]
    exact .refl _

/-- The turns of a scan lead on in the source. -/
theorem Turn.Becomes.leads {s next : Reading} (h : (Turn.goesOn s).Becomes limit (.goesOn next)) :
    s.cursor.Leads next.cursor := by
  generalize ht : Turn.goesOn s = t at h
  generalize hu : Turn.goesOn next = u at h
  induction h generalizing s with
  | refl =>
    cases ht.trans hu.symm
    exact .refl _
  | @goesOn first _ hlater ih =>
    cases ht
    cases hturn : first.turn limit with
    | ended result =>
      rw [hturn] at hlater
      cases hlater
      cases hu
    | goesOn second =>
      have hmoves := moves_turn limit first
      rw [hturn] at hmoves
      exact hmoves.leads.trans (ih hturn.symm hu)

end Becomes

/-! ## Turns behind a call -/

/-- Whether an anomaly is that of an expression without an end. -/
def Anomaly.isOpenExpression : Anomaly → Bool
  | .unterminatedExpression _ => true
  | _ => false

/-- The turns behind `t` come to what a scan comes to: to its anomaly, or to the turn that takes
its result up. An expression without an end is no anomaly of a call: it was blamed on an attribute
before. -/
def Follows {α : Type} {bound : Nat} (limit : Nat) (t : Turn)
    (result : Except Anomaly (Scanned α bound)) (resume : α → Findings → Cursor → Turn) : Prop :=
  match result with
  | .ok found => t.Becomes limit (resume found.value found.findings found.stop)
  | .error reason => t.Becomes limit (.ended (.error reason)) ∧ reason.isOpenExpression = false

section Follows

variable {α β : Type} {bound bound' limit : Nat} {t : Turn}
  {result : Except Anomaly (Scanned α bound)} {resume : α → Findings → Cursor → Turn}

theorem Follows.goesOn {s : Reading} (h : Follows limit (s.turn limit) result resume) :
    Follows limit (.goesOn s) result resume := by
  cases result with
  | ok found => exact .goesOn h
  | error reason => exact ⟨.goesOn h.1, h.2⟩

/-- A call in a loop: the loop has the anomaly of the call, or it goes on behind it. -/
theorem Follows.bind {result' : Except Anomaly (Scanned β bound')}
    {resume' : β → Findings → Cursor → Turn} (h : Follows limit t result resume)
    (herror : ∀ reason, result = .error reason → reason.isOpenExpression = false →
      result' = .error reason)
    (hok : ∀ found, result = .ok found →
      Follows limit (resume found.value found.findings found.stop) result' resume') :
    Follows limit t result' resume' := by
  cases hresult : result with
  | error reason =>
    rw [hresult] at h
    rw [herror reason hresult h.2]
    exact h
  | ok found =>
    have hlater := hok found hresult
    rw [hresult] at h
    cases result' with
    | ok later => exact Turn.Becomes.trans h hlater
    | error reason => exact ⟨Turn.Becomes.trans h hlater.1, hlater.2⟩

/-- A loop goes on with what was found on an earlier turn. -/
theorem Follows.after {resume' : β → Findings → Cursor → Turn} (h : Follows limit t result resume)
    (earlier : Findings) (f : α → β)
    (hresume : ∀ value found stop,
      resume' (f value) (earlier ++ found) stop = resume value found stop) :
    Follows limit t (result.map (Scanned.after earlier f)) resume' := by
  cases result with
  | ok found =>
    show t.Becomes limit (resume' (f found.value) (earlier ++ found.findings) found.stop)
    rw [hresume]
    exact h
  | error reason => exact h

end Follows

/-- The turns behind the start of an element come to what the scanner for elements says, as far as
the limit leaves so much nesting. -/
def Simulates (limit nesting : Nat) (element : ElementScanner) : Prop :=
  ∀ (c : Cursor) (loop : Loop) (outer : List Loop), c.rest ≠ [] →
    openElements (loop :: outer) + nesting = limit →
    Follows limit (.enterElement limit c loop outer) (element (openTags (loop :: outer)) c)
      fun _ found stop => .leaveElement found stop (loop :: outer)

/-! ## Script text -/

/-- The text of an expression ends with it, the source with its last character. -/
def extentOf : Option Expression → Extent
  | none => .source
  | some e => .expression e.start.line

/-- An expression without an end is blamed on its attribute. -/
def blame : Option Expression → Anomaly → Anomaly
  | some e, .unterminatedExpression _ => .unterminatedAttribute e.tag e.name e.line
  | _, reason => reason

theorem blame_of_isOpenExpression (expression : Option Expression) {reason : Anomaly}
    (h : reason.isOpenExpression = false) : blame expression reason = reason := by
  cases expression with
  | none => rfl
  | some e =>
    unfold blame
    split
    · rename_i heq
      cases heq
      cases h
    · rfl

/-- The end of script text. -/
def Turn.endScript (expression : Option Expression) (found : Findings) (stop : Cursor)
    (outer : List Loop) : Turn :=
  match expression with
  | none => .ended (.ok found)
  | some e => .leaveExpression e found stop outer

/-- Script text is never broken off by the end of an expression. -/
theorem isOpenExpression_of_step {c : Cursor} {reason : Anomaly} (h : c.step = .broken reason) :
    reason.isOpenExpression = false := by
  cases begins_of_step h with
  | openString | openRegex => rfl

theorem map_mapError {α β : Type} (result : Except Anomaly α) (f : α → β)
    (g : Anomaly → Anomaly) :
    (result.map f).mapError g = (result.mapError g).map f := by
  cases result <;> rfl

section Loops

variable {limit nesting bound : Nat} {element : ElementScanner} {outer : List Loop}

/-- Script text is read turn by turn. -/
theorem follows_script (helement : Simulates limit nesting element)
    (expression : Option Expression) (hnesting : openElements outer + nesting = limit)
    (c : Cursor) (depth : Nat) (found : Findings) (hc : c.rest.length ≤ bound) :
    Follows limit (.script limit expression depth found c outer)
      ((scanScript element (openTags outer) (extentOf expression) bound depth c hc).mapError
        (blame expression))
      fun _ later stop => .endScript expression (found ++ later) stop outer := by
  induction hlength : c.rest.length using Nat.strongRecOn generalizing c depth found with
  | ind m ih =>
    subst hlength
    unfold Turn.script
    cases hstep : c.step with
    | atEnd =>
      rw [scanScript.eq_def, hstep]
      cases expression with
      | none =>
        show Turn.Becomes limit _ (.ended (.ok (found ++ .none)))
        rw [Findings.append_none]
        exact .refl _
      | some e =>
        exact ⟨.refl _, rfl⟩
    | pass stop h =>
      rw [scanScript.eq_def, hstep]
      exact (ih _ h stop depth found _ rfl).goesOn
    | openBrace stop h =>
      rw [scanScript.eq_def, hstep]
      exact (ih _ h stop (depth + 1) found _ rfl).goesOn
    | closeBrace stop h =>
      rw [scanScript.eq_def, hstep]
      cases depth with
      | succ depth => exact (ih _ h stop depth found _ rfl).goesOn
      | zero =>
        cases expression with
        | none =>
          exact ⟨.refl _, rfl⟩
        | some e =>
          show Turn.Becomes limit _ (.leaveExpression e (found ++ .none) stop outer)
          rw [Findings.append_none]
          exact .refl _
    | broken reason =>
      rw [scanScript.eq_def, hstep]
      have hreason := isOpenExpression_of_step hstep
      show Follows limit _ (.error (blame expression reason)) _
      rw [blame_of_isOpenExpression expression hreason]
      exact ⟨.refl _, hreason⟩
    | element =>
      have hrest := rest_ne_nil_of_step hstep
      have hcall :=
        helement c (.script expression depth found) outer hrest (by simpa using hnesting)
      rw [openTags_script] at hcall
      refine hcall.bind ?_ ?_
      · intro reason hreason hblamed
        rw [scanScript_element_error hstep hrest hreason hc]
        show Except.error (blame expression reason) = _
        rw [blame_of_isOpenExpression expression hblamed]
      · intro inner hinner
        obtain ⟨hstop, hscan⟩ :=
          scanScript_element (extentOf expression) depth hstep hrest ⟨inner.within, hinner⟩ hc
        rw [hscan, map_mapError]
        have hlater :=
          ih _ (inner.lt_of_ne_nil hrest) inner.stop depth (found ++ inner.findings) hstop rfl
        refine Follows.after hlater.goesOn inner.findings id ?_
        intro _ later stop
        rw [Findings.append_assoc]

/-- The scan of an expression is that of its script text. -/
theorem scanExpression_eq (element : ElementScanner) (stack : List String) (e : Expression) :
    scanExpression element stack e.tag e.name e.line e.start =
      ((scanScript element stack (extentOf (some e)) e.start.rest.length 0 e.start
        (Nat.le_refl _)).mapError
        (blame (some e))).map fun found =>
          ⟨e.text found.stop, found.findings, found.stop, found.within⟩ := by
  unfold scanExpression extentOf
  split
  · rename_i hscan
    rw [hscan]
    rfl
  · rename_i reason hother hscan
    have hblamed : reason.isOpenExpression = false := by
      cases reason with
      | unterminatedExpression line => exact absurd rfl (hother line)
      | _ => rfl
    rw [hscan]
    show _ = Except.error (blame (some e) reason)
    rw [blame_of_isOpenExpression (some e) hblamed]
  · rename_i hscan
    rw [hscan]
    rfl

/-- An expression is read turn by turn. -/
theorem follows_expression (helement : Simulates limit nesting element) (e : Expression)
    (loop : Loop) (hnesting : openElements (loop :: outer) + nesting = limit) :
    Follows limit (.enterExpression e loop outer)
      (scanExpression element (openTags (loop :: outer)) e.tag e.name e.line e.start)
      fun text found stop => .goesOn ⟨stop, loop.takeExpression e text found, outer⟩ := by
  have hscript := follows_script helement (some e) hnesting e.start 0 .none (Nat.le_refl _)
  rw [scanExpression_eq]
  refine Follows.bind (Follows.goesOn hscript) ?_ ?_
  · intro reason hreason _
    rw [hreason]
    rfl
  · intro found hfound
    rw [hfound]
    exact .refl _

/-! ## Attributes -/

/-- The opening tag with an attribute and what was found in its value. -/
def Opening.addFound (opening : Opening) (a : Attribute) (found : Findings) : Opening :=
  { opening.add a with found := opening.found ++ found }

theorem Opening.addFound_none (opening : Opening) (a : Attribute) :
    opening.addFound a .none = opening.add a := by
  simp [addFound, add]

/-- The first character of a name is no dot. -/
theorem tagName_ne_spreadName {c : Cursor} {ch : Char} {rest : List Char}
    (hrest : c.rest = ch :: rest) (hch : isNameChar ch = true) :
    c.tagName ≠ Attribute.spreadName := by
  intro hname
  have hfirst : c.rest.takeWhile isTagChar = Attribute.spreadName.toList := by
    rw [← hname, Cursor.tagName, String.toList_ofList]
  rw [hrest, List.takeWhile_cons, if_pos (isTagChar_of_isNameChar hch)] at hfirst
  obtain ⟨rfl, -⟩ := List.cons.inj hfirst
  exact absurd hch (by decide)

theorem takeExpression_attributes {e : Expression} (hname : e.name ≠ Attribute.spreadName)
    (text : List Char) (found : Findings) (opening : Opening) :
    Loop.takeExpression e text found (.attributes opening) =
      .attributes (opening.addFound ⟨e.name, .expression (String.ofList text), e.line⟩
        found) := by
  unfold Loop.takeExpression Expression.toAttribute
  rw [if_neg hname]
  rfl

/-- A value in braces is read turn by turn. -/
theorem follows_value_braces (helement : Simulates limit nesting element) (opening : Opening)
    {name : String} (hname : name ≠ Attribute.spreadName) (line : Nat)
    (hnesting : openElements outer + 1 + nesting = limit) {c : Cursor} {rest : List Char}
    (hrest : c.rest = '\x7b' :: rest) :
    Follows limit (.enterExpression ⟨opening.tag, name, line, c.next⟩ (.attributes opening) outer)
      (scanValue element (openTags outer) opening.tag name line c)
      fun value found stop =>
        .goesOn ⟨stop, .attributes (opening.addFound ⟨name, value, line⟩ found), outer⟩ := by
  have hcall :=
    follows_expression helement ⟨opening.tag, name, line, c.next⟩ (.attributes opening)
      (by simpa using hnesting)
  rw [openTags_attributes] at hcall
  refine hcall.bind ?_ ?_
  · intro reason hreason _
    exact scanValue_of_scanExpression_error hrest hreason
  · intro found hfound
    obtain ⟨_, hscan⟩ := yields_scanValue_of_scanExpression hrest ⟨found.within, hfound⟩
    rw [hscan, takeExpression_attributes hname]
    exact .refl _

/-- A value is read turn by turn. -/
theorem follows_value (helement : Simulates limit nesting element) (opening : Opening)
    {name : String} (hname : name ≠ Attribute.spreadName) (line : Nat)
    (hnesting : openElements outer + 1 + nesting = limit) (c : Cursor) :
    Follows limit (.value opening name line c outer)
      (scanValue element (openTags outer) opening.tag name line c)
      fun value found stop =>
        .goesOn ⟨stop, .attributes (opening.addFound ⟨name, value, line⟩ found), outer⟩ := by
  unfold Turn.value
  split
  · rename_i hrest
    rw [scanValue_of_head? element (openTags outer) (by simp [hrest])]
    exact ⟨.refl _, rfl⟩
  · rename_i ch rest hrest
    by_cases hquote : ch = '"' ∨ ch = '\x27'
    · rw [if_pos hquote]
      cases hend : Cursor.quotedEnd? ch (ch :: c.before) c.line rest with
      | none =>
        rw [scanValue_of_quotedEnd?_none element (openTags outer) hquote hrest hend]
        exact ⟨.refl _, rfl⟩
      | some found =>
        obtain ⟨text, stop⟩ := found
        obtain ⟨_, hscan⟩ :=
          yields_scanValue_of_quotedEnd? element (openTags outer) hquote hrest hend opening.tag
            name line
        rw [hscan]
        show Turn.Becomes limit _ (.goesOn ⟨stop, .attributes (opening.addFound _ .none), outer⟩)
        rw [Opening.addFound_none]
        exact .refl _
    · rw [if_neg hquote]
      by_cases hbrace : ch = '\x7b'
      · subst hbrace
        rw [if_pos rfl]
        exact follows_value_braces helement opening hname line hnesting hrest
      · have hother : ∀ ch' ∈ c.rest.head?, ¬(ch' = '"' ∨ ch' = '\x27') ∧ ch' ≠ '\x7b' := by
          intro ch' hch'
          rw [hrest] at hch'
          cases hch'
          exact ⟨hquote, hbrace⟩
        rw [if_neg hbrace, scanValue_of_head? element (openTags outer) hother]
        exact ⟨.refl _, rfl⟩

/-- A named attribute is read turn by turn. -/
theorem follows_named (helement : Simulates limit nesting element) (opening : Opening)
    {name : String} (hname : name ≠ Attribute.spreadName) (line : Nat)
    (hnesting : openElements outer + 1 + nesting = limit) (c : Cursor) :
    Follows limit (.named opening name line c outer)
      (scanNamed element (openTags outer) opening.tag name line c)
      fun value found stop =>
        .goesOn ⟨stop, .attributes (opening.addFound ⟨name, value, line⟩ found), outer⟩ := by
  unfold Turn.named
  by_cases hequals : c.skipBlanks.rest.head? = some '='
  · rw [if_pos hequals]
    refine (follows_value helement opening hname line hnesting c.skipBlanks.next.skipBlanks).bind
      ?_ ?_
    · intro reason hreason _
      unfold scanNamed
      rw [if_pos hequals, hreason]
    · intro found hfound
      obtain ⟨_, hscan⟩ := yields_scanNamed_value hequals ⟨found.within, hfound⟩
      rw [hscan]
      exact .refl _
  · rw [if_neg hequals]
    obtain ⟨_, hscan⟩ : Yields (scanNamed element (openTags outer) opening.tag name line c) .flag
      .none c.skipBlanks :=
      yields_scanNamed_flag hequals opening.tag name line
    rw [hscan]
    show Turn.Becomes limit _
      (.goesOn ⟨c.skipBlanks, .attributes (opening.addFound _ .none), outer⟩)
    rw [Opening.addFound_none]
    exact .refl _

/-- The opening tag with further attributes and what was found in their values. -/
def Opening.addAll (opening : Opening) (attributes : List Attribute) (found : Findings) :
    Opening :=
  { opening with attributes := opening.attributes ++ attributes, found := opening.found ++ found }

theorem Opening.addAll_nil (opening : Opening) : opening.addAll [] .none = opening := by
  simp [addAll]

theorem Opening.addAll_cons (opening : Opening) (a : Attribute) (attributes : List Attribute)
    (earlier found : Findings) :
    opening.addAll (a :: attributes) (earlier ++ found) =
      (opening.addFound a earlier).addAll attributes found := by
  simp [addAll, addFound, add, Findings.append_assoc]

/-- The attributes at a place are read turn by turn, whatever was read before. -/
def ReadsAttributes (limit : Nat) (element : ElementScanner) (outer : List Loop) (c : Cursor) :
    Prop :=
  ∀ (opening : Opening) (bound : Nat) (hc : c.rest.length ≤ bound),
    Follows limit (.attributes opening c outer)
      (scanAttributes element (openTags outer) opening.tag opening.line bound c hc)
      fun attributes found stop => .endOpening (opening.addAll attributes found) stop outer

/-- A spread and what follows it. -/
theorem readsAttributes_spread (helement : Simulates limit nesting element)
    (hnesting : openElements outer + 1 + nesting = limit) {c : Cursor} {rest : List Char}
    (hrest : c.skipBlanks.rest = '\x7b' :: rest)
    (hlater : ∀ d, d.rest.length < c.rest.length → ReadsAttributes limit element outer d) :
    ReadsAttributes limit element outer c := by
  intro opening bound hc
  have hcall := follows_expression helement
    ⟨opening.tag, Attribute.spreadName, c.skipBlanks.line, c.skipBlanks.next⟩
    (.attributes opening) (by simpa using hnesting)
  rw [openTags_attributes] at hcall
  rw [scanAttributes_cons rfl hrest, if_neg (by decide), if_pos rfl]
  simp only [Turn.attributes, hrest, if_true]
  rw [if_neg (by decide)]
  refine hcall.bind ?_ ?_
  · intro reason hreason _
    rw [hreason]
  · intro found hfound
    rw [hfound]
    have hless :=
      Nat.lt_of_lt_of_le (Cursor.lt_of_le_next hrest found.within) (Cursor.skipBlanks_le c)
    have hstop := hlater found.stop hless (opening.addFound (Expression.toAttribute
      ⟨opening.tag, Attribute.spreadName, c.skipBlanks.line, c.skipBlanks.next⟩ found.value)
      found.findings)
      bound (Nat.le_trans (Nat.le_of_lt hless) hc)
    refine Follows.after (Follows.goesOn hstop) found.findings _ ?_
    intro attributes later stop
    rw [Opening.addAll_cons, Expression.toAttribute, if_pos rfl]

/-- A named attribute and what follows it. -/
theorem readsAttributes_named (helement : Simulates limit nesting element)
    (hnesting : openElements outer + 1 + nesting = limit) {c : Cursor} {ch : Char}
    {rest : List Char} (hrest : c.skipBlanks.rest = ch :: rest) (hname : isNameChar ch = true)
    (hlater : ∀ d, d.rest.length < c.rest.length → ReadsAttributes limit element outer d) :
    ReadsAttributes limit element outer c := by
  intro opening bound hc
  obtain ⟨hend, hbrace⟩ := ne_of_isNameChar hname
  have hspread := tagName_ne_spreadName hrest hname
  have hcall :=
    follows_named helement opening hspread c.skipBlanks.line hnesting c.skipBlanks.skipTagName
  rw [scanAttributes_cons rfl hrest, if_neg hend, if_neg hbrace, if_pos hname]
  simp only [Turn.attributes, hrest, if_neg hend, if_neg hbrace, if_pos hname]
  refine hcall.bind ?_ ?_
  · intro reason hreason _
    rw [hreason]
  · intro found hfound
    rw [hfound]
    have hless := Nat.lt_of_le_of_lt found.within
      (Nat.lt_of_lt_of_le (Cursor.skipWhile_lt hrest (isTagChar_of_isNameChar hname))
        (Cursor.skipBlanks_le c))
    have hstop := hlater found.stop hless
      (opening.addFound ⟨c.skipBlanks.tagName, found.value, c.skipBlanks.line⟩
        found.findings) bound (Nat.le_trans (Nat.le_of_lt hless) hc)
    refine Follows.after (Follows.goesOn hstop) found.findings _ ?_
    intro attributes later stop
    rw [Opening.addAll_cons]

/-- Attributes are read turn by turn. -/
theorem readsAttributes (helement : Simulates limit nesting element)
    (hnesting : openElements outer + 1 + nesting = limit) (c : Cursor) :
    ReadsAttributes limit element outer c := by
  induction hlength : c.rest.length using Nat.strongRecOn generalizing c with
  | ind m ih =>
    subst hlength
    have hlater : ∀ d, d.rest.length < c.rest.length → ReadsAttributes limit element outer d :=
      fun d hd => ih d.rest.length hd d rfl
    cases hrest : c.skipBlanks.rest with
    | nil =>
      intro opening bound hc
      rw [scanAttributes_atEnd hrest]
      simp only [Turn.attributes, hrest]
      exact ⟨.refl _, rfl⟩
    | cons ch rest =>
      by_cases hend : ch = '>' ∨ ch = '/'
      · intro opening bound hc
        rw [scanAttributes_cons rfl hrest, if_pos hend]
        simp only [Turn.attributes, hrest, if_pos hend]
        show Turn.Becomes limit _ (.endOpening (opening.addAll [] .none) c.skipBlanks outer)
        rw [Opening.addAll_nil]
        exact .refl _
      · by_cases hbrace : ch = '\x7b'
        · subst hbrace
          exact readsAttributes_spread helement hnesting hrest hlater
        · by_cases hname : isNameChar ch = true
          · exact readsAttributes_named helement hnesting hrest hname hlater
          · intro opening bound hc
            rw [scanAttributes_cons rfl hrest, if_neg hend, if_neg hbrace, if_neg hname]
            simp only [Turn.attributes, hrest, if_neg hend, if_neg hbrace, if_neg hname]
            exact ⟨.refl _, rfl⟩

/-! ## Children -/

/-- What stands between the tags of an element and then more of it. -/
def Inside.append (earlier later : Inside) : Inside :=
  ⟨later.closed, earlier.text ++ later.text, earlier.hasExpression || later.hasExpression,
    earlier.hasElement || later.hasElement⟩

/-- The children of an element are left. -/
theorem follows_leaveChildren (opening : Opening) (inside : Inside) (found : Findings)
    (closed : Bool) (stop : Cursor) (hstop : stop.rest.length ≤ bound) :
    Follows limit (.leaveChildren opening { inside with closed := closed } found stop outer)
      (.ok (Scanned.quiet ⟨closed, [], false, false⟩ stop hstop))
      fun later found' stop =>
        .leaveChildren opening (inside.append later) (found ++ found') stop outer := by
  have hinside : inside.append ⟨closed, [], false, false⟩ = { inside with closed := closed } := by
    simp [Inside.append]
  show Turn.Becomes limit _
    (.leaveChildren opening (inside.append ⟨closed, [], false, false⟩) (found ++ .none) stop
      outer)
  rw [hinside, Findings.append_none]
  exact .refl _

/-- The children at a place are read turn by turn, whatever was read before. -/
def ReadsChildren (limit : Nat) (element : ElementScanner) (opening : Opening) (outer : List Loop)
    (c : Cursor) :
    Prop :=
  ∀ (inside : Inside) (found : Findings) (bound : Nat) (hc : c.rest.length ≤ bound),
    Follows limit (.children limit opening inside found c outer)
      (scanChildren element (openTags outer ++ [opening.tag]) opening.tag bound c hc)
      fun later found' stop =>
        .leaveChildren opening (inside.append later) (found ++ found') stop outer

section Children

variable {opening : Opening} {c : Cursor} {rest : List Char}

/-- A closing tag and, if it closes nothing, what follows it. -/
theorem readsChildren_closing (hrest : c.rest = '<' :: '/' :: rest)
    (hlater : ∀ d, d.rest.length < c.rest.length → ReadsChildren limit element opening outer d) :
    ReadsChildren limit element opening outer c := by
  intro inside found bound hc
  rw [scanChildren_cons hrest, if_pos rfl, List.head?_cons, if_pos rfl]
  simp only [Turn.children, hrest, List.head?_cons, if_true]
  by_cases hend : c.closingEnd.rest.head? = some '>'
  · rw [if_pos hend, if_pos hend]
    by_cases htag : c.closingName = opening.tag
    · rw [if_pos htag, if_pos htag]
      exact follows_leaveChildren opening inside found true _ _
    · rw [if_neg htag, if_neg htag]
      by_cases hopen : c.closingName ∈ openTags outer
      · have hstack : (openTags outer ++ [opening.tag]).contains c.closingName = true := by
          simp [hopen]
        rw [if_pos hopen, if_pos hstack]
        exact follows_leaveChildren opening inside found false c hc
      · have hstack : ¬(openTags outer ++ [opening.tag]).contains c.closingName = true := by
          simp [hopen, htag]
        rw [if_neg hopen, if_neg hstack]
        obtain ⟨tail, htail⟩ := List.head?_eq_some_iff.1 hend
        have hless := Cursor.closingEnd_next_lt htail
        have hstop := hlater c.closingEnd.next hless inside
          (found ++ .unexpectedClosing c.closingName c.line) bound
          (Nat.le_trans (Nat.le_of_lt hless) hc)
        refine Follows.after (Follows.goesOn hstop) _ id ?_
        intro _ found' stop
        rw [Findings.append_assoc]
        rfl
  · rw [if_neg hend, if_neg hend]
    exact ⟨.refl _, rfl⟩

/-- An element and what follows it. -/
theorem readsChildren_element (helement : Simulates limit nesting element)
    (hnesting : openElements outer + 1 + nesting = limit) (hrest : c.rest = '<' :: rest)
    (hslash : rest.head? ≠ some '/')
    (hlater : ∀ d, d.rest.length < c.rest.length → ReadsChildren limit element opening outer d) :
    ReadsChildren limit element opening outer c := by
  intro inside found bound hc
  have hne : c.rest ≠ [] := by simp [hrest]
  have hcall := helement c (.children opening inside found) outer hne (by simpa using hnesting)
  rw [openTags_children] at hcall
  rw [scanChildren_cons hrest, if_pos rfl, if_neg hslash]
  simp only [Turn.children, hrest, if_true, if_neg hslash]
  refine hcall.bind ?_ ?_
  · intro reason hreason _
    rw [hreason]
  · intro inner hinner
    rw [hinner]
    have hless := inner.lt_of_ne_nil hne
    have hstop :=
      hlater inner.stop hless { inside with hasElement := true } (found ++ inner.findings) bound
        (Nat.le_trans (Nat.le_of_lt hless) hc)
    refine Follows.after (Follows.goesOn hstop) inner.findings _ ?_
    intro later found' stop
    simp [Inside.append, Findings.append_assoc]

/-- An expression and what follows it. -/
theorem readsChildren_expression (helement : Simulates limit nesting element)
    (hnesting : openElements outer + 1 + nesting = limit) (hrest : c.rest = '\x7b' :: rest)
    (hlater : ∀ d, d.rest.length < c.rest.length → ReadsChildren limit element opening outer d) :
    ReadsChildren limit element opening outer c := by
  intro inside found bound hc
  have hcall := follows_expression helement ⟨opening.tag, "children", c.line, c.next⟩
    (.children opening inside found) (by simpa using hnesting)
  rw [openTags_children] at hcall
  rw [scanChildren_cons hrest, if_neg (by decide), if_pos rfl]
  simp only [Turn.children, hrest, if_true]
  rw [if_neg (by decide)]
  refine hcall.bind ?_ ?_
  · intro reason hreason _
    rw [hreason]
  · intro inner hinner
    rw [hinner]
    have hless := Cursor.lt_of_le_next hrest inner.within
    have hstop := hlater inner.stop hless
      { inside with hasExpression := inside.hasExpression || showsSomething inner.value }
      (found ++ inner.findings) bound (Nat.le_trans (Nat.le_of_lt hless) hc)
    refine Follows.after (Follows.goesOn hstop) inner.findings _ ?_
    intro later found' stop
    simp [Inside.append, Findings.append_assoc, Bool.or_assoc]

/-- A run of plain text and what follows it. -/
theorem readsChildren_plain {ch : Char} (hrest : c.rest = ch :: rest) (hsign : ch ≠ '<')
    (hbrace : ch ≠ '\x7b')
    (hlater : ∀ d, d.rest.length < c.rest.length → ReadsChildren limit element opening outer d) :
    ReadsChildren limit element opening outer c := by
  intro inside found bound hc
  rw [scanChildren_cons hrest, if_neg hsign, if_neg hbrace]
  simp only [Turn.children, hrest, if_neg hsign, if_neg hbrace]
  have hless := Cursor.skipWhile_lt hrest (isPlain_of_ne hsign hbrace)
  have hstop := hlater (c.skipWhile isPlain) hless
    { inside with text := inside.text ++ (ch :: rest).takeWhile isPlain } found bound
    (Nat.le_trans (Nat.le_of_lt hless) hc)
  refine Follows.after (Follows.goesOn hstop) .none _ ?_
  intro later found' stop
  simp [Inside.append]

end Children

/-- Children are read turn by turn. -/
theorem readsChildren (helement : Simulates limit nesting element) (opening : Opening)
    (hnesting : openElements outer + 1 + nesting = limit) (c : Cursor) :
    ReadsChildren limit element opening outer c := by
  induction hlength : c.rest.length using Nat.strongRecOn generalizing c with
  | ind m ih =>
    subst hlength
    have hlater : ∀ d, d.rest.length < c.rest.length →
        ReadsChildren limit element opening outer d :=
      fun d hd => ih d.rest.length hd d rfl
    cases hrest : c.rest with
    | nil =>
      intro inside found bound hc
      obtain ⟨hstop, hscan⟩ :
          Yields (scanChildren element (openTags outer ++ [opening.tag]) opening.tag bound c hc)
            ⟨false, [], false, false⟩ .none c := scanChildren_atEnd hrest hc
      rw [hscan]
      simp only [Turn.children, hrest]
      exact follows_leaveChildren opening inside found false c hstop
    | cons ch rest =>
      by_cases hsign : ch = '<'
      · subst hsign
        by_cases hslash : rest.head? = some '/'
        · obtain ⟨tail, rfl⟩ := List.head?_eq_some_iff.1 hslash
          exact readsChildren_closing hrest hlater
        · exact readsChildren_element helement hnesting hrest hslash hlater
      · by_cases hbrace : ch = '\x7b'
        · subst hbrace
          exact readsChildren_expression helement hnesting hrest hlater
        · exact readsChildren_plain hrest hsign hbrace hlater

/-! ## Elements -/

theorem endOpening_selfClosing (opening : Opening) {c : Cursor} {rest : List Char}
    (hc : c.rest = '/' :: '>' :: rest) :
    Turn.endOpening opening c outer =
      .leaveElement (opening.found ++
        .element (.bare opening.tag opening.attributes opening.line (openTags outer) true))
        c.next.next outer := by
  simp [Turn.endOpening, hc, Cursor.skipSlash]

theorem endOpening_open (opening : Opening) {c : Cursor} {rest : List Char}
    (hc : c.rest = '>' :: rest) :
    Turn.endOpening opening c outer =
      .goesOn ⟨c.next, .children opening ⟨false, [], false, false⟩ .none, outer⟩ := by
  simp [Turn.endOpening, hc, Cursor.skipSlash]

/-- An element is read turn by turn if those inside it are. -/
theorem follows_scanElementWith (helement : Simulates limit nesting element) (c : Cursor)
    (hnesting : openElements outer + 1 + nesting = limit) :
    Follows limit (.attributes ⟨c.next.tagName, c.line, [], .none⟩ c.next.skipTagName outer)
      (scanElementWith element (openTags outer) c)
      fun _ found stop => .leaveElement found stop outer := by
  have hname := c.skipTagName_next_le
  have hattributes := readsAttributes helement hnesting c.next.skipTagName
    ⟨c.next.tagName, c.line, [], .none⟩ _ hname
  refine hattributes.bind ?_ ?_
  · intro reason hreason _
    exact scanElementWith_attributes_error fun _ => hreason
  · intro found hfound
    have hyields :
        ∀ h,
          Yields (scanAttributes element (openTags outer) c.next.tagName c.line c.rest.tail.length
            c.next.skipTagName h) found.value found.findings found.stop :=
      fun _ => ⟨found.within, hfound⟩
    by_cases hend : (found.stop.skipSlash (found.stop.rest.head? == some '/')).rest.head? =
      some '>'
    · obtain ⟨rest, hself⟩ | ⟨rest, hopen⟩ := head?_skipSlash_iff.1 hend
      · obtain ⟨_, hscan⟩ := yields_scanElementWith_selfClosing hyields hself
        rw [endOpening_selfClosing _ hself, hscan]
        exact .refl _
      · rw [endOpening_open _ hopen]
        have hnext : found.stop.next.rest.length ≤ c.rest.tail.length :=
          Nat.le_trans (Cursor.next_le found.stop) found.within
        have hchildren :=
          readsChildren helement ⟨c.next.tagName, c.line, found.value, found.findings⟩ hnesting
            found.stop.next ⟨false, [], false, false⟩ .none _ hnext
        refine Follows.bind (Follows.goesOn hchildren) ?_ ?_
        · intro reason hreason _
          exact scanElementWith_open_error hyields hopen fun _ => hreason
        · intro inside hinside
          obtain ⟨_, hscan⟩ :=
            yields_scanElementWith_open hyields hopen fun _ => ⟨inside.within, hinside⟩
          rw [hscan]
          exact .refl _
    · rw [scanElementWith_unterminated hyields hend]
      unfold Turn.endOpening
      simp only [if_neg hend]
      exact ⟨.refl _, rfl⟩

end Loops

/-- Elements are read turn by turn, as deep as the limit on nesting allows. -/
theorem simulates_scanElement (limit nesting : Nat) :
    Simulates limit nesting (scanElement nesting) := by
  induction nesting with
  | zero =>
    intro c loop outer _ hnesting
    have hdeep : limit ≤ openElements (loop :: outer) := by omega
    unfold Turn.enterElement
    rw [if_pos hdeep]
    exact ⟨.refl _, rfl⟩
  | succ nesting ih =>
    intro c loop outer _ hnesting
    have hdeep : ¬limit ≤ openElements (loop :: outer) := by omega
    unfold Turn.enterElement
    rw [if_neg hdeep]
    have hinside : openElements (loop :: outer) + 1 + nesting = limit := by omega
    exact Follows.goesOn (follows_scanElementWith ih c hinside)

/-! ## Whole scans -/

/-- The turns behind a scan of a source end with what it says. -/
theorem Follows.result_eq {bound limit : Nat} {t : Turn}
    {result : Except Anomaly (Scanned Unit bound)} {resume : Unit → Findings → Cursor → Turn}
    (h : Follows limit t result resume)
    (hresume : ∀ value found stop, resume value found stop = .ended (.ok found)) :
    t.result limit = result.map (·.findings) := by
  cases result with
  | ok found =>
    have hend : t.Becomes limit (resume found.value found.findings found.stop) := h
    rw [hend.result_eq, hresume]
    rfl
  | error reason =>
    rw [h.1.result_eq]
    rfl

/-- The turns from the start of a source end with what the scan of the source says, whatever the
limit is. -/
theorem run_start (limit : Nat) (text : List Char) :
    (Reading.start text).run limit =
      (scanScript (scanElement limit) [] .source text.length 0 (.start text) (Nat.le_refl _)).map
        (·.findings) := by
  have hnesting : openElements [] + limit = limit := Nat.zero_add limit
  have hscript := follows_script (simulates_scanElement limit limit) none hnesting (.start text) 0
    .none (Nat.le_refl _)
  have hblame (result : Except Anomaly (Scanned Unit text.length)) :
      result.mapError (blame none) = result := by
    cases result <;> rfl
  rw [Reading.run_eq]
  refine Eq.trans (Follows.result_eq hscript fun _ _ _ => rfl) ?_
  exact congrArg (Except.map fun scanned : Scanned Unit text.length => scanned.findings)
    (hblame _)

/-- Loops that read the children of elements with the given tags. -/
def childLoops (tags : List String) : List Loop :=
  tags.reverse.map fun tag => .children ⟨tag, 0, [], .none⟩ ⟨false, [], false, false⟩ .none

theorem openTags_childLoops (tags : List String) : openTags (childLoops tags) = tags := by
  unfold openTags childLoops
  rw [List.filterMap_map]
  have htags : tags.reverse.filterMap some = tags.reverse := List.filterMap_some
  exact (congrArg List.reverse htags).trans (List.reverse_reverse tags)

/-- An element ends behind its start. -/
theorem ahead_scanElement {nesting : Nat} {stack : List String} {c : Cursor}
    {found : Scanned Unit c.rest.tail.length} (hrest : c.rest ≠ [])
    (hscan : scanElement nesting stack c = .ok found) : c.Ahead found.stop := by
  let loop : Loop := .script none 0 .none
  let outer := childLoops stack
  have hcall :=
    simulates_scanElement (openElements (loop :: outer) + nesting) nesting c loop outer hrest rfl
  have hstack : openTags (loop :: outer) = stack := openTags_childLoops stack
  rw [hstack, hscan] at hcall
  have hbecomes :
      (Turn.enterElement (openElements (loop :: outer) + nesting) c loop outer).Becomes _
        (.goesOn ⟨found.stop, loop.takeElement found.findings, outer⟩) := hcall
  unfold Turn.enterElement at hbecomes
  split at hbecomes
  · cases hbecomes
  · exact (Cursor.ahead_next hrest).trans_leads
      ((Cursor.leads_skipTagName _).trans hbecomes.leads)

/-- **A scan ends**, whatever the source and the limit on nesting are. Taken apart into turns it
needs no fuel, comes to what the scan says, and takes no more than two turns for each character
and one at the end. Each turn goes ahead in the source, or it leaves the children of an element
where they stand, at the end of the source or in front of the closing tag of an element further
out. And every element that is scanned ends behind its start. -/
theorem scan_terminates (limit : Nat) (text : List Char) :
    scanSource text = (Reading.start text).run maxNesting ∧
    (Reading.start text).run limit =
      (scanScript (scanElement limit) [] .source text.length 0 (.start text) (Nat.le_refl _)).map
        (·.findings) ∧
    (Reading.start text).turns limit ≤ 2 * text.length + 1 ∧
    (∀ s next, Reading.turn limit s = .goesOn next →
      (s.cursor.Ahead next.cursor ∧ next.outer.length ≤ s.outer.length + 1) ∨
        ((∃ opening inside found, s.loop = .children opening inside found) ∧
          next.cursor = s.cursor ∧
          s.outer.length = next.outer.length + 1 ∧
          (s.cursor.rest = [] ∨ s.cursor.closingName ∈ openTags s.outer))) ∧
    ∀ stack c found, c.rest ≠ [] → scanElement limit stack c = .ok found →
      c.Ahead found.stop := by
  refine ⟨(run_start maxNesting text).symm, run_start limit text, ?_, ?_, ?_⟩
  · have hturns := Reading.turns_le limit (.start text)
    rwa [Reading.potential_start] at hturns
  · intro s next hturn
    have hmoves := moves_turn limit s
    rw [hturn] at hmoves
    cases hmoves with
    | ahead hahead hloops => exact .inl ⟨hahead, hloops⟩
    | leaves hloop hplace hloops hwhere => exact .inr ⟨⟨_, _, _, hloop⟩, hplace, hloops, hwhere⟩
  · intro stack c found hrest hscan
    exact ahead_scanElement hrest hscan

theorem scan_terminates_sharedClosing :
    (Reading.start "<A><B></A>".toList).turns 2 ≤ 21 ∧
    (∃ next, sharedClosing.turn 2 = .goesOn next ∧ next.cursor = sharedClosing.cursor ∧
      sharedClosing.outer.length = next.outer.length + 1) ∧
    ∃ found, scanElement 2 [] (.start "<A/>".toList) = .ok found ∧
      (Cursor.start "<A/>".toList).Ahead found.stop := by
  obtain ⟨-, -, hturns, hmoves, helements⟩ := scan_terminates 2 "<A><B></A>".toList
  obtain ⟨loop, outer, hturn⟩ :
      ∃ loop outer, sharedClosing.turn 2 = .goesOn ⟨sharedClosing.cursor, loop, outer⟩ :=
    ⟨_, _, rfl⟩
  refine ⟨hturns, ⟨_, hturn, rfl, ?_⟩, ?_⟩
  · rcases hmoves _ _ hturn with ⟨hahead, -⟩ | ⟨-, -, hloops, -⟩
    · exact absurd hahead.lt (Nat.lt_irrefl _)
    · exact hloops
  · obtain ⟨_, hscan⟩ : Yields (scanElementWith (scanElement 1) [] (.start "<A/>".toList)) ()
      _ _ :=
      yields_scanElementWith_selfClosing (fun h => yields_scanAttributes_end rfl (.inr rfl) h) rfl
    exact ⟨_, hscan, helements _ _ _ (List.cons_ne_nil _ _) hscan⟩

end DesignCompiler.Markup
