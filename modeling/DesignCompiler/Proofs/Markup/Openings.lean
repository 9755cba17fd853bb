import DesignCompiler.Proofs.Markup.Termination

/-!
# Opening tags on the way of a scan

`Reading.openings` has the places where the turns of a scan start elements. A scan goes ahead, so
they stand in the order of the source (`pairwise_openings`). `stepsTo_turn` says what a turn comes
to, whatever loop it is one of, apart from the places that it goes to.

A turn keeps the elements that were started, be they found by now or still read (`keeps_turn`). It
keeps their order as well, except where an opening tag ends: from there on an element stands
behind those in its attribute values. So a scan that comes to an end has found every element that
it started and no other, in an order of its own (`perm_run`).
-/

namespace DesignCompiler.Markup

/-! ## Elements that were started -/

/-- The tag and the line of the element at a less-than sign. -/
def Cursor.mark (c : Cursor) : String × Nat :=
  (c.next.tagName, c.line)

/-- The tag and the line of an element. -/
def Element.mark (e : Element) : String × Nat :=
  (e.tag, e.line)

/-- The tags and lines of the elements that were found. -/
def Findings.marks (found : Findings) : List (String × Nat) :=
  found.elements.map Element.mark

/-- The tags and lines of the elements that were started in loops, those of the innermost loop
last. An opening tag stands in front of what was found in it; the script text of the source is the
outermost loop. -/
def marksOf : List Loop → List (String × Nat)
  | [] => []
  | .script none _ found :: _ => found.marks
  | .script (some _) _ found :: outer => marksOf outer ++ found.marks
  | .attributes opening :: outer =>
    marksOf outer ++ (opening.tag, opening.line) :: opening.found.marks
  | .children opening _ found :: outer =>
    marksOf outer ++ (opening.found.marks ++ (opening.tag, opening.line) :: found.marks)

/-- The place where the next turn starts an element. -/
def Reading.opens? (s : Reading) : Option Cursor :=
  match s.loop with
  | .script .. =>
    match s.cursor.step with
    | .element => some s.cursor
    | _ => none
  | .attributes _ => none
  | .children .. =>
    if s.cursor.rest.head? = some '<' ∧ s.cursor.rest.tail.head? ≠ some '/' then some s.cursor
    else none

/-! ## What one turn comes to -/

/-- What one turn comes to: the loop that it goes on with, leaves or starts, and what that loop
has found. -/
inductive Reading.StepsTo (limit : Nat) : Reading → Turn → Prop where
  | failed (s : Reading) (reason : Anomaly) : StepsTo limit s (.ended (.error reason))
  /-- The source ends. -/
  | done (c : Cursor) (depth : Nat) (found : Findings) (outer : List Loop) :
    StepsTo limit ⟨c, .script none depth found, outer⟩ (.ended (.ok found))
  | script (c stop : Cursor) (expression : Option Expression) (depth depth' : Nat)
    (found : Findings) (outer : List Loop) :
    StepsTo limit ⟨c, .script expression depth found, outer⟩
      (.goesOn ⟨stop, .script expression depth' found, outer⟩)
  | leaveExpression (c stop : Cursor) (e : Expression) (found : Findings) (outer : List Loop) :
    StepsTo limit ⟨c, .script (some e) 0 found, outer⟩ (.leaveExpression e found stop outer)
  | addAttribute (c stop : Cursor) (opening : Opening) (a : Attribute) (outer : List Loop) :
    StepsTo limit ⟨c, .attributes opening, outer⟩
      (.goesOn ⟨stop, .attributes (opening.add a), outer⟩)
  /-- An opening tag ends, and the children of its element follow. -/
  | openTag (c stop : Cursor) (opening : Opening) (outer : List Loop) :
    StepsTo limit ⟨c, .attributes opening, outer⟩
      (.goesOn ⟨stop, .children opening ⟨false, [], false, false⟩ .none, outer⟩)
  /-- An opening tag ends, and with it the element. -/
  | selfClose (c stop : Cursor) (opening : Opening) (outer : List Loop) :
    StepsTo limit ⟨c, .attributes opening, outer⟩
      (.leaveElement (opening.found ++
        .element (.bare opening.tag opening.attributes opening.line (openTags outer) true)) stop
        outer)
  | text (c stop : Cursor) (opening : Opening) (inside inside' : Inside) (found : Findings)
    (outer : List Loop) :
    StepsTo limit ⟨c, .children opening inside found, outer⟩
      (.goesOn ⟨stop, .children opening inside' found, outer⟩)
  | stray (c stop : Cursor) (opening : Opening) (inside : Inside) (found : Findings)
    (tag : String) (line : Nat) (outer : List Loop) :
    StepsTo limit ⟨c, .children opening inside found, outer⟩
      (.goesOn ⟨stop, .children opening inside (found ++ .unexpectedClosing tag line), outer⟩)
  | leaveChildren (c stop : Cursor) (opening : Opening) (inside inside' : Inside)
    (found : Findings) (outer : List Loop) :
    StepsTo limit ⟨c, .children opening inside found, outer⟩
      (.leaveChildren opening inside' found stop outer)
  | enterElement {s : Reading} (hopens : s.opens? = some s.cursor) :
    StepsTo limit s (.enterElement limit s.cursor s.loop s.outer)
  | enterExpression (s : Reading) (e : Expression) :
    StepsTo limit s (.enterExpression e s.loop s.outer)

section StepsTo

variable {limit : Nat}

theorem stepsTo_script (limit : Nat) (expression : Option Expression) (depth : Nat)
    (found : Findings) (c : Cursor) (outer : List Loop) :
    Reading.StepsTo limit ⟨c, .script expression depth found, outer⟩
      (.script limit expression depth found c outer) := by
  unfold Turn.script
  cases hstep : c.step with
  | atEnd =>
    cases expression with
    | none => exact .done c depth found outer
    | some e => exact .failed _ _
  | pass stop _ => exact .script c stop expression depth depth found outer
  | openBrace stop _ => exact .script c stop expression depth (depth + 1) found outer
  | closeBrace stop _ =>
    cases depth with
    | zero =>
      cases expression with
      | none => exact .failed _ _
      | some e => exact .leaveExpression c stop e found outer
    | succ depth => exact .script c stop expression (depth + 1) depth found outer
  | element =>
    refine .enterElement (s := ⟨c, .script expression depth found, outer⟩) ?_
    unfold Reading.opens?
    simp only [hstep]
  | broken reason => exact .failed _ reason

theorem stepsTo_value (limit : Nat) (opening : Opening) (name : String) (line : Nat)
    (c c' : Cursor) (outer : List Loop) :
    Reading.StepsTo limit ⟨c, .attributes opening, outer⟩
      (.value opening name line c' outer) := by
  unfold Turn.value
  split
  · exact .failed _ _
  · split
    · split
      · exact .addAttribute c _ opening _ outer
      · exact .failed _ _
    · split
      · exact .enterExpression ⟨c, .attributes opening, outer⟩ _
      · exact .failed _ _

theorem stepsTo_attributes (limit : Nat) (opening : Opening) (c : Cursor) (outer : List Loop) :
    Reading.StepsTo limit ⟨c, .attributes opening, outer⟩ (.attributes opening c outer) := by
  unfold Turn.attributes Turn.endOpening Turn.named
  simp only
  split
  · exact .failed _ _
  · split
    · split
      · split
        · exact .selfClose c _ opening outer
        · exact .openTag c _ opening outer
      · exact .failed _ _
    · split
      · exact .enterExpression ⟨c, .attributes opening, outer⟩ _
      · split
        · split
          · exact stepsTo_value limit opening _ _ c _ outer
          · exact .addAttribute c _ opening _ outer
        · exact .failed _ _

theorem stepsTo_children (limit : Nat) (opening : Opening) (inside : Inside) (found : Findings)
    (c : Cursor) (outer : List Loop) :
    Reading.StepsTo limit ⟨c, .children opening inside found, outer⟩
      (.children limit opening inside found c outer) := by
  unfold Turn.children
  split
  · exact .leaveChildren c c opening inside _ found outer
  · rename_i ch rest hrest
    split
    · rename_i hch
      split
      · split
        · split
          · exact .leaveChildren c _ opening inside _ found outer
          · split
            · exact .leaveChildren c c opening inside _ found outer
            · exact .stray c _ opening inside found _ _ outer
        · exact .failed _ _
      · rename_i hslash
        refine .enterElement (s := ⟨c, .children opening inside found, outer⟩) ?_
        unfold Reading.opens?
        simp [hrest, hch, hslash]
    · split
      · exact .enterExpression ⟨c, .children opening inside found, outer⟩ _
      · exact .text c _ opening inside _ found outer

/-- **One turn**, whatever loop it is one of. -/
theorem stepsTo_turn (limit : Nat) (s : Reading) : s.StepsTo limit (s.turn limit) := by
  obtain ⟨c, loop, outer⟩ := s
  cases loop with
  | script expression depth found => exact stepsTo_script limit expression depth found c outer
  | attributes opening => exact stepsTo_attributes limit opening c outer
  | children opening inside found => exact stepsTo_children limit opening inside found c outer

end StepsTo

/-! ## What was started -/

/-- The turn keeps what was started: a scan that goes on has it in its loops, and one that ends
has found it. -/
def Turn.Keeps (marks : List (String × Nat)) : Turn → Prop
  | ended (.ok found) => found.marks.Perm marks
  | ended (.error _) => True
  | goesOn next => (marksOf (next.loop :: next.outer)).Perm marks

section Marks

@[simp] theorem Findings.marks_none : none.marks = [] := rfl

@[simp] theorem Findings.marks_append (a b : Findings) : (a ++ b).marks = a.marks ++ b.marks :=
  List.map_append

@[simp] theorem Findings.marks_element (e : Element) : (element e).marks = [e.mark] := rfl

@[simp] theorem Findings.marks_unexpectedClosing (tag : String) (line : Nat) :
    (unexpectedClosing tag line).marks = [] := rfl

@[simp] theorem Findings.marks_missingClose (inside : Inside) (tag : String) (line : Nat) :
    (missingClose inside tag line).marks = [] := by
  unfold missingClose
  split <;> rfl

variable (found : Findings) (loop : Loop) (outer : List Loop)

theorem marksOf_takeElement :
    marksOf (loop.takeElement found :: outer) = marksOf (loop :: outer) ++ found.marks := by
  cases loop with
  | script expression => cases expression <;> simp [Loop.takeElement, marksOf]
  | attributes | children => simp [Loop.takeElement, marksOf]

theorem marksOf_takeExpression (e : Expression) (text : List Char) :
    marksOf (loop.takeExpression e text found :: outer) =
      marksOf (loop :: outer) ++ found.marks := by
  cases loop with
  | script expression => cases expression <;> simp [Loop.takeExpression, marksOf]
  | attributes | children => simp [Loop.takeExpression, marksOf, Opening.add]

end Marks

/-! ## One turn -/

namespace Turn

variable {limit : Nat} {found : Findings} {marks : List (String × Nat)} {s : Reading} {t : Turn}

theorem Keeps.goesOn {next : Reading} (h : marksOf (next.loop :: next.outer) = marks) :
    Keeps marks (.goesOn next) :=
  .of_eq h

/-- What is found in a loop that is left goes to the loop around it. -/
theorem keeps_leave {take : Loop → Loop}
    (htake : ∀ loop outer, marksOf (take loop :: outer) = marksOf (loop :: outer) ++ found.marks)
    (hmarks : found.marks.Perm marks) (stop : Cursor) (outer : List Loop) :
    Keeps (marksOf outer ++ marks) (leave stop found take outer) := by
  cases outer with
  | nil => exact hmarks
  | cons loop outer =>
    show (marksOf (take loop :: outer)).Perm _
    rw [htake]
    exact hmarks.append_left _

/-- An element that is started is one more, and the last one. -/
theorem keeps_enterElement (limit : Nat) (c : Cursor) (loop : Loop) (outer : List Loop) :
    Keeps (marksOf (loop :: outer) ++ [c.mark]) (enterElement limit c loop outer) := by
  unfold enterElement
  split
  · trivial
  · exact .goesOn rfl

/-- A turn that starts no element keeps those that were started. -/
theorem keeps_of_stepsTo (h : s.StepsTo limit t) (hopens : s.opens? = none) :
    t.Keeps (marksOf (s.loop :: s.outer)) := by
  cases h with
  | failed reason => trivial
  | done c depth found outer => exact .refl _
  | script c stop expression depth depth' found outer => cases expression <;> exact .goesOn rfl
  | leaveExpression c stop e found outer =>
    exact keeps_leave (fun loop outer => marksOf_takeExpression found loop outer e _) (.refl _)
      stop outer
  | addAttribute | text => exact .goesOn rfl
  -- Where an opening tag ends, its element goes behind those that were found in its attribute
  -- values.
  | openTag c stop opening outer => exact (List.perm_append_singleton _ _).append_left _
  | selfClose c stop opening outer =>
    refine keeps_leave (marksOf_takeElement _) ?_ stop outer
    rw [Findings.marks_append, Findings.marks_element]
    exact List.perm_append_singleton _ _
  | stray => exact .goesOn (by simp [marksOf])
  | leaveChildren c stop opening inside inside' found outer =>
    refine keeps_leave (marksOf_takeElement _) (.of_eq ?_) stop outer
    simp [Element.mark, Element.filled, Element.bare]
  | enterElement hopened =>
    rw [hopens] at hopened
    cases hopened
  | enterExpression e => exact .goesOn (List.append_nil _)

end Turn

namespace Reading

variable {limit : Nat} {s next : Reading} {c : Cursor}

/-- Where an element is started there is a less-than sign, in script text or among children. -/
theorem turn_of_opens? (limit : Nat) (h : s.opens? = some c) :
    s.cursor = c ∧ c.rest.head? = some '<' ∧
      s.turn limit = Turn.enterElement limit c s.loop s.outer := by
  obtain ⟨cursor, loop, outer⟩ := s
  cases loop with
  | script expression depth found =>
    unfold opens? at h
    simp only at h
    split at h
    · rename_i hstep
      cases h
      refine ⟨rfl, head?_of_step hstep, ?_⟩
      simp only [turn, Turn.script, hstep]
    · cases h
  | attributes opening => cases h
  | children opening inside found =>
    unfold opens? at h
    simp only at h
    split at h
    · rename_i hsign
      cases h
      refine ⟨rfl, hsign.1, ?_⟩
      obtain ⟨rest, hrest⟩ := List.head?_eq_some_iff.1 hsign.1
      have hslash := hsign.2
      rw [hrest, List.tail_cons] at hslash
      simp only [turn, Turn.children, hrest, if_pos, if_neg hslash]
    · cases h

/-- **One turn** keeps what was started, and an element that it starts is added. -/
theorem keeps_turn (limit : Nat) (s : Reading) :
    (s.turn limit).Keeps (marksOf (s.loop :: s.outer) ++ s.opens?.toList.map Cursor.mark) := by
  cases hopens : s.opens? with
  | some c =>
    obtain ⟨-, -, hturn⟩ := turn_of_opens? limit hopens
    rw [hturn]
    exact Turn.keeps_enterElement limit c s.loop s.outer
  | none =>
    rw [Option.toList_none, List.map_nil, List.append_nil]
    exact Turn.keeps_of_stepsTo (stepsTo_turn limit s) hopens

/-! ## Whole runs -/

/-- The places where the turns of a scan start elements. -/
def openings (limit : Nat) (s : Reading) : List Cursor :=
  match hturn : s.turn limit with
  | .ended _ => s.opens?.toList
  | .goesOn next =>
    have := potential_lt hturn
    s.opens?.toList ++ next.openings limit
termination_by s.potential
decreasing_by assumption

theorem openings_of_ended {result : Except Anomaly Findings} (h : s.turn limit = .ended result) :
    s.openings limit = s.opens?.toList := by
  rw [openings]
  split
  · rfl
  · rename_i hturn
    rw [h] at hturn
    cases hturn

theorem openings_of_goesOn (h : s.turn limit = .goesOn next) :
    s.openings limit = s.opens?.toList ++ next.openings limit := by
  rw [openings]
  split
  · rename_i hturn
    rw [h] at hturn
    cases hturn
  · rename_i hturn
    rw [h] at hturn
    cases hturn
    rfl

/-- A scan that comes to an end has found what was started and what it starts on its way. -/
theorem perm_run {found : Findings} (h : s.run limit = .ok found) :
    found.marks.Perm (marksOf (s.loop :: s.outer) ++ (s.openings limit).map Cursor.mark) := by
  induction hpotential : s.potential using Nat.strongRecOn generalizing s with
  | ind m ih =>
    subst hpotential
    have hkeeps := keeps_turn limit s
    rw [run_eq] at h
    cases hturn : s.turn limit with
    | ended result =>
      rw [hturn] at h hkeeps
      obtain rfl : result = .ok found := h
      rw [openings_of_ended hturn]
      exact hkeeps
    | goesOn next =>
      rw [hturn] at h hkeeps
      have hlater : found.marks.Perm
          (marksOf (next.loop :: next.outer) ++ (next.openings limit).map Cursor.mark) :=
        ih next.potential (potential_lt hturn) h rfl
      rw [openings_of_goesOn hturn, List.map_append, ← List.append_assoc]
      exact hlater.trans (List.Perm.append_right _ hkeeps)

/-- Behind the start of an element the scan goes on in its opening tag. -/
theorem ahead_of_opens? (hopens : s.opens? = some c) (hturn : s.turn limit = .goesOn next) :
    c.Ahead next.cursor := by
  obtain ⟨-, hsign, henter⟩ := turn_of_opens? limit hopens
  rw [henter] at hturn
  unfold Turn.enterElement at hturn
  split at hturn
  · cases hturn
  · cases hturn
    exact (Cursor.ahead_next (Cursor.rest_ne_nil_of_head? hsign)).trans_leads
      (Cursor.leads_skipTagName _)

/-- Elements are started at less-than signs, one behind the other in the source. -/
theorem pairwise_openings (limit : Nat) (s : Reading) :
    (∀ c ∈ s.openings limit, s.cursor.Leads c ∧ c.rest.head? = some '<') ∧
      (s.openings limit).Pairwise Cursor.Ahead := by
  induction hpotential : s.potential using Nat.strongRecOn generalizing s with
  | ind m ih =>
    subst hpotential
    have hhere : ∀ c ∈ s.opens?.toList, s.cursor.Leads c ∧ c.rest.head? = some '<' := by
      intro c hc
      obtain ⟨rfl, hsign, -⟩ := turn_of_opens? limit (Option.mem_toList.1 hc)
      exact ⟨.refl _, hsign⟩
    have hone : s.opens?.toList.Pairwise Cursor.Ahead := by
      cases s.opens? with
      | none => exact .nil
      | some c => exact List.pairwise_singleton _ c
    cases hturn : s.turn limit with
    | ended result =>
      rw [openings_of_ended hturn]
      exact ⟨hhere, hone⟩
    | goesOn next =>
      obtain ⟨hlater, hpairs⟩ := ih next.potential (potential_lt hturn) next rfl
      have hleads : s.cursor.Leads next.cursor := by
        have hmoves := moves_turn limit s
        rw [hturn] at hmoves
        exact hmoves.leads
      rw [openings_of_goesOn hturn]
      refine ⟨List.forall_mem_append.2 ⟨hhere, ?_⟩, List.pairwise_append.2 ⟨hone, hpairs, ?_⟩⟩
      · intro c hc
        exact ⟨hleads.trans (hlater c hc).1, (hlater c hc).2⟩
      · intro c hc d hd
        exact (ahead_of_opens? (Option.mem_toList.1 hc) hturn).trans_leads (hlater d hd).1

end Reading

end DesignCompiler.Markup
