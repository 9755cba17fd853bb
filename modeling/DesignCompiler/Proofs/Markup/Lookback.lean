import DesignCompiler.Proofs.Markup.Shifts
import DesignCompiler.Proofs.Text.Words
import Mathlib.Data.List.TakeWhile

/-!
# What a scan sees of the text in front of it

The text in front of a place is looked at only where a less-than sign may open an element and
where a slash may open a regular expression, and then no further than for one token. `turn_onto`
says that a turn is the same behind every text that answers the same there, and
`operandMayFollow_append` that the answer is settled by what stands between that text and the
place, as soon as that is more than white space.
-/

namespace DesignCompiler.Markup

open Text (isBlank isNameChar isAlphabetic takeWhile_append_of_end dropWhile_append_of_end)

namespace Cursor

/-- The place with more text in front of it, nearest character first. -/
def onto (earlier : List Char) (c : Cursor) : Cursor :=
  ⟨c.before ++ earlier, c.rest, c.line⟩

section Onto

variable (earlier : List Char) (c : Cursor)

@[simp] theorem before_onto : (c.onto earlier).before = c.before ++ earlier := rfl

@[simp] theorem rest_onto : (c.onto earlier).rest = c.rest := rfl

@[simp] theorem line_onto : (c.onto earlier).line = c.line := rfl

theorem isShift_onto : IsShift (onto earlier) :=
  ⟨fun _ => rfl, fun _ _ => rfl⟩

@[simp] theorem next_onto : (c.onto earlier).next = c.next.onto earlier := by
  obtain ⟨before, rest, line⟩ := c
  cases rest <;> rfl

@[simp] theorem skipWhile_onto (accepts : Char → Bool) :
    (c.onto earlier).skipWhile accepts = (c.skipWhile accepts).onto earlier := by
  obtain ⟨before, rest, line⟩ := c
  show skipFrom accepts (before ++ earlier) line rest =
    (skipFrom accepts before line rest).onto earlier
  induction rest generalizing before line with
  | nil => rfl
  | cons ch rest ih =>
    unfold skipFrom
    split
    · exact ih (ch :: before) _
    · rfl

@[simp] theorem skipBlanks_onto : (c.onto earlier).skipBlanks = c.skipBlanks.onto earlier :=
  skipWhile_onto earlier c isBlank

@[simp] theorem skipTagName_onto : (c.onto earlier).skipTagName = c.skipTagName.onto earlier :=
  skipWhile_onto earlier c isTagChar

@[simp] theorem tagName_onto : (c.onto earlier).tagName = c.tagName := rfl

@[simp] theorem skipSlash_onto (isSlash : Bool) :
    (c.onto earlier).skipSlash isSlash = (c.skipSlash isSlash).onto earlier := by
  cases isSlash with
  | false => rfl
  | true => exact next_onto earlier c

@[simp] theorem closingName_onto : (c.onto earlier).closingName = c.closingName := by
  simp [closingName]

@[simp] theorem closingEnd_onto : (c.onto earlier).closingEnd = c.closingEnd.onto earlier := by
  simp [closingEnd]

theorem stringEnd?_onto (quote : Char) (before : List Char) (line : Nat) (rest : List Char) :
    stringEnd? quote (before ++ earlier) line rest =
      (stringEnd? quote before line rest).map (onto earlier) := by
  fun_induction stringEnd? quote before line rest with
  | case1 => rfl
  | case2 => rfl
  | case3 before line ch rest ih => exact ih
  | case4 => simp_all [stringEnd?]
  | case5 => simp_all [stringEnd?, onto]
  | case6 => simp_all [stringEnd?]

theorem regexEnd?_onto (inClass : Bool) (before : List Char) (line : Nat) (rest : List Char) :
    regexEnd? inClass (before ++ earlier) line rest =
      (regexEnd? inClass before line rest).map (onto earlier) := by
  fun_induction regexEnd? inClass before line rest with
  | case1 => rfl
  | case2 => rfl
  | case3 inClass before line ch rest ih => exact ih
  | case4 => simp_all [regexEnd?]
  | case5 => simp_all [regexEnd?, onto]
  | case6 => simp_all [regexEnd?]

theorem blockCommentEnd_onto (before : List Char) (line : Nat) (rest : List Char) :
    blockCommentEnd (before ++ earlier) line rest =
      (blockCommentEnd before line rest).onto earlier := by
  fun_induction blockCommentEnd before line rest with
  | case1 => rfl
  | case2 => rfl
  | case3 before line ch rest hend ih =>
    rw [blockCommentEnd.eq_3 _ _ _ _ hend]
    exact ih

theorem typeParametersEnd_onto (depth : Nat) (previous : Char) (before : List Char) (line : Nat)
    (rest : List Char) :
    typeParametersEnd depth previous (before ++ earlier) line rest =
      (typeParametersEnd depth previous before line rest).onto earlier := by
  fun_induction typeParametersEnd depth previous before line rest with
  | case1 => rfl
  | case2 => simp_all [typeParametersEnd]
  | case3 => simp_all [typeParametersEnd, onto]
  | case4 =>
    rename_i hsign hclose hdepth ih
    rw [typeParametersEnd, if_neg hsign, if_pos hclose, if_neg hdepth]
    exact ih
  | case5 => simp_all [typeParametersEnd]

theorem quotedEnd?_onto (quote : Char) (before : List Char) (line : Nat) (rest : List Char) :
    quotedEnd? quote (before ++ earlier) line rest =
      (quotedEnd? quote before line rest).map fun (text, stop) => (text, stop.onto earlier) := by
  induction rest generalizing before line with
  | nil => rfl
  | cons ch rest ih =>
    unfold quotedEnd?
    split
    · rfl
    · rw [← List.cons_append, ih (ch :: before), Option.map_map, Option.map_map]
      rfl

end Onto

end Cursor

/-! ## What begins behind another text -/

/-- Whether what begins with a text depends on the text in front of it: an element or a
comparison, a regular expression or a division. -/
def looksBack : List Char → Bool
  | '/' :: rest => rest.head? != some '/' && rest.head? != some '*'
  | '<' :: ch :: _ => isAlphabetic ch || ch == '>'
  | _ => false

section Turns

variable {earlier : List Char} {c : Cursor}

theorem slashBegins_onto {rest : List Char}
    (hback : looksBack ('/' :: rest) = true →
      operandMayFollow (c.before ++ earlier) = operandMayFollow c.before) :
    (c.onto earlier).slashBegins rest = (c.slashBegins rest).shift (Cursor.onto earlier) := by
  unfold Cursor.slashBegins
  by_cases hline : rest.head? = some '/'
  · simp [hline, Beginning.shift]
  · by_cases hblock : rest.head? = some '*'
    · simp [hblock, Beginning.shift, Cursor.blockCommentEnd_onto]
    · have hflag := hback (by simp [looksBack, hline, hblock])
      have hend := Cursor.regexEnd?_onto earlier false ('/' :: c.before) c.line rest
      simp only [hline, hblock, if_false, Cursor.before_onto, Cursor.line_onto, hflag]
      split
      · rw [← List.cons_append, hend, upTo_shift, Option.map_map, Option.map_map]
        congr 2
        funext stop
        exact Cursor.skipWhile_onto earlier stop isNameChar
      · rw [Cursor.next_onto]
        rfl

theorem signBegins_onto {rest : List Char}
    (hback : looksBack ('<' :: rest) = true →
      operandMayFollow (c.before ++ earlier) = operandMayFollow c.before) :
    (c.onto earlier).signBegins rest = (c.signBegins rest).shift (Cursor.onto earlier) := by
  have hstart : elementMayStart (c.before ++ earlier) rest = elementMayStart c.before rest := by
    cases rest with
    | nil => rfl
    | cons ch rest =>
      cases hch : isAlphabetic ch || ch == '>' with
      | false => simp only [elementMayStart, hch, Bool.false_and]
      | true => simp only [elementMayStart, hback hch]
  have hend := Cursor.typeParametersEnd_onto earlier 1 '<' ('<' :: c.before) c.line rest
  unfold Cursor.signBegins
  rw [Cursor.before_onto, hstart, Cursor.next_onto, Cursor.line_onto, ← List.cons_append, hend]
  repeat' split
  all_goals rfl

/-- The same begins behind another text, if it is looked at with the same answer or not at all. -/
theorem begins_onto
    (hback : looksBack c.rest = true →
      operandMayFollow (c.before ++ earlier) = operandMayFollow c.before) :
    (c.onto earlier).begins = c.begins.shift (Cursor.onto earlier) := by
  unfold Cursor.begins
  rw [Cursor.rest_onto]
  cases hrest : c.rest with
  | nil => rfl
  | cons ch rest =>
    rw [hrest] at hback
    have hend := Cursor.stringEnd?_onto earlier ch (ch :: c.before) c.line rest
    simp only [Cursor.next_onto, Cursor.before_onto, Cursor.line_onto, ← List.cons_append, hend]
    split
    · rw [upTo_shift]
    · split
      · rename_i hslash
        exact slashBegins_onto (hslash ▸ hback)
      · split
        · rfl
        · split
          · rfl
          · split
            · rename_i hsign
              exact signBegins_onto (hsign ▸ hback)
            · rfl

/-! ## Turns behind another text -/

variable (limit : Nat) (opening : Opening) (name : String) (line : Nat) (outer : List Loop)

theorem script_onto (expression : Option Expression) (depth : Nat) (found : Findings)
    (hback : looksBack c.rest = true →
      operandMayFollow (c.before ++ earlier) = operandMayFollow c.before) :
    Turn.script limit (expression.map (Expression.shift (Cursor.onto earlier))) depth found
        (c.onto earlier) (outer.map (Loop.shift (Cursor.onto earlier))) =
      (Turn.script limit expression depth found c outer).shift (Cursor.onto earlier) := by
  rw [Beginning.script_eq, Beginning.script_eq, begins_onto hback]
  exact turn_shift (Cursor.isShift_onto earlier) (fun _ => by simp) limit expression depth
    found outer

theorem value_onto (c : Cursor) :
    Turn.value opening name line (c.onto earlier) (outer.map (Loop.shift (Cursor.onto earlier))) =
      (Turn.value opening name line c outer).shift (Cursor.onto earlier) := by
  unfold Turn.value
  rw [Cursor.rest_onto]
  cases c.rest with
  | nil => rfl
  | cons ch rest =>
    have hend := Cursor.quotedEnd?_onto earlier ch (ch :: c.before) c.line rest
    simp only [Cursor.next_onto, Cursor.before_onto, Cursor.line_onto, ← List.cons_append, hend]
    split
    · cases Cursor.quotedEnd? ch (ch :: c.before) c.line rest <;> rfl
    · split <;> rfl

theorem named_onto (c : Cursor) :
    Turn.named opening name line (c.onto earlier) (outer.map (Loop.shift (Cursor.onto earlier))) =
      (Turn.named opening name line c outer).shift (Cursor.onto earlier) := by
  unfold Turn.named
  simp only [Cursor.skipBlanks_onto, Cursor.rest_onto, Cursor.next_onto]
  split
  · exact value_onto opening name line outer _
  · rfl

theorem endOpening_onto (c : Cursor) :
    Turn.endOpening opening (c.onto earlier) (outer.map (Loop.shift (Cursor.onto earlier))) =
      (Turn.endOpening opening c outer).shift (Cursor.onto earlier) := by
  unfold Turn.endOpening
  simp only [Cursor.skipSlash_onto, Cursor.rest_onto, Cursor.next_onto, openTags_shift]
  split
  · split
    · exact leaveElement_shift _ _ _ _
    · rfl
  · rfl

theorem attributes_onto (c : Cursor) :
    Turn.attributes opening (c.onto earlier) (outer.map (Loop.shift (Cursor.onto earlier))) =
      (Turn.attributes opening c outer).shift (Cursor.onto earlier) := by
  unfold Turn.attributes
  simp only [Cursor.skipBlanks_onto, Cursor.rest_onto, Cursor.next_onto, Cursor.tagName_onto,
    Cursor.line_onto, Cursor.skipTagName_onto]
  cases c.skipBlanks.rest with
  | nil => rfl
  | cons ch rest =>
    simp only
    split
    · exact endOpening_onto opening outer _
    · split
      · rfl
      · split
        · exact named_onto opening _ _ outer _
        · rfl

theorem children_onto (inside : Inside) (found : Findings) (c : Cursor) :
    Turn.children limit opening inside found (c.onto earlier)
      (outer.map (Loop.shift (Cursor.onto earlier))) =
      (Turn.children limit opening inside found c outer).shift (Cursor.onto earlier) := by
  have hleave (inside : Inside) (found : Findings) (stop : Cursor) :=
    leaveChildren_shift (Cursor.onto earlier) opening inside found stop outer
  unfold Turn.children
  simp only [Cursor.closingName_onto, Cursor.closingEnd_onto, Cursor.rest_onto, Cursor.next_onto,
    Cursor.line_onto, Cursor.skipWhile_onto, openTags_shift, hleave]
  cases c.rest with
  | nil => rfl
  | cons ch rest =>
    simp only
    split
    · split
      · repeat' split
        all_goals rfl
      · exact enterElement_shift (Cursor.isShift_onto earlier) (by simp) (by simp) limit
          (.children opening inside found) outer
    · split <;> rfl

/-- **A turn is the same behind another text**, if it is looked at with the same answer or not at
all. -/
theorem turn_onto (s : Reading)
    (hback : looksBack s.cursor.rest = true →
      operandMayFollow (s.cursor.before ++ earlier) = operandMayFollow s.cursor.before) :
    (s.shift (Cursor.onto earlier)).turn limit = (s.turn limit).shift (Cursor.onto earlier) := by
  obtain ⟨c, loop, outer⟩ := s
  cases loop with
  | script expression depth found => exact script_onto limit outer expression depth found hback
  | attributes opening => exact attributes_onto opening outer c
  | children opening inside found => exact children_onto limit opening outer inside found c

end Turns

/-! ## Runs behind another text -/

/-- No token goes on from the start of a text, read backwards, into what is behind it: neither a
name nor an arrow. -/
def EndsToken (earlier : List Char) : Prop :=
  ∀ ch ∈ earlier.head?, ch ≠ '=' ∧ isNameChar ch = false

/-- What is more than white space settles alone whether an operand may follow. -/
theorem operandMayFollow_append {before earlier : List Char} (hearlier : EndsToken earlier)
    (hseen : ∃ ch ∈ before, isBlank ch = false) :
    operandMayFollow (before ++ earlier) = operandMayFollow before := by
  have hne : before.dropWhile isBlank ≠ [] := by
    obtain ⟨ch, hmem, hch⟩ := hseen
    intro hnil
    have hblank := List.dropWhile_eq_nil_iff.1 hnil ch hmem
    rw [hch] at hblank
    cases hblank
  have hdrop : (before ++ earlier).dropWhile isBlank = before.dropWhile isBlank ++ earlier :=
    dropWhile_append_of_end fun hnil => absurd hnil hne
  obtain ⟨c, token, htoken⟩ := List.exists_cons_of_ne_nil hne
  have hhead : ((token ++ earlier).head? == some '=') = (token.head? == some '=') := by
    cases token with
    | cons => rfl
    | nil =>
      cases earlier with
      | nil => rfl
      | cons ch earlier => simpa using (hearlier ch rfl).1
  have hword : (c :: (token ++ earlier)).takeWhile isNameChar =
      (c :: token).takeWhile isNameChar :=
    takeWhile_append_of_end (s := c :: token) fun _ ch hch => (hearlier ch hch).2
  unfold operandMayFollow
  simp only [hdrop, htoken, List.cons_append, hhead, hword]

section Runs

variable {limit : Nat} {earlier : List Char} {s : Reading}

/-- A turn that goes on keeps what stands in front of the place. -/
theorem mem_before_of_turn {next : Reading} {ch : Char} (hturn : s.turn limit = .goesOn next)
    (hmem : ch ∈ s.cursor.before) : ch ∈ next.cursor.before := by
  have hmoves := moves_turn limit s
  rw [hturn] at hmoves
  obtain ⟨text, htext⟩ := hmoves.leads
  rw [htext.before]
  exact List.mem_append_right _ hmem

/-- The scan goes on in the same way behind another text once more than white space is between
them. -/
theorem run_onto (hearlier : EndsToken earlier)
    (hseen : ∃ ch ∈ s.cursor.before, isBlank ch = false) :
    (s.shift (Cursor.onto earlier)).run limit = s.run limit := by
  have hback (s : Reading) (hseen : ∃ ch ∈ s.cursor.before, isBlank ch = false) :=
    turn_onto limit s fun _ => operandMayFollow_append hearlier hseen
  fun_induction Reading.run limit s with
  | case1 s result hturn =>
    rw [Reading.run_eq, hback s hseen, hturn]
    rfl
  | case2 s next hturn _ ih =>
    obtain ⟨ch, hmem, hch⟩ := hseen
    rw [Reading.run_eq, hback s ⟨ch, hmem, hch⟩, hturn]
    exact ih ⟨ch, mem_before_of_turn hturn hmem, hch⟩

/-- The scan goes on in the same way behind another text if the turn at the place does, and passes
over more than white space. -/
theorem run_onto_of_turn (hearlier : EndsToken earlier)
    (hback : looksBack s.cursor.rest = true →
      operandMayFollow (s.cursor.before ++ earlier) = operandMayFollow s.cursor.before)
    (hnext : ∀ next, s.turn limit = .goesOn next →
      ∃ ch ∈ next.cursor.before, isBlank ch = false) :
    (s.shift (Cursor.onto earlier)).run limit = s.run limit := by
  rw [Reading.run_eq, Reading.run_eq, turn_onto limit s hback]
  cases hturn : s.turn limit with
  | ended result => rfl
  | goesOn next => exact run_onto hearlier (hnext next hturn)

end Runs

end DesignCompiler.Markup
