import DesignCompiler.Markup.Script

/-!
# What begins at a place

`Cursor.step` says what begins at a place of a script text, with proofs that the scan gets on. Two
places in different texts do not share such proofs, and its definition is tedious to take apart.
`Cursor.begins` is the step without them (`beginning_step`).

`Begins` lists what can begin, one case for each, with the conditions under which it does.
`begins_iff` says that these are the beginnings of the scan: a step is found by naming a case
(`step_pass`, `step_eq_of_begins`), and what follows from a step is proved by going through the
cases (`begins_of_step`).
-/

namespace DesignCompiler.Markup

open Text (isNameChar)

/-- What begins at a place in script text. -/
inductive Beginning where
  | atEnd
  | pass (stop : Cursor)
  | openBrace (stop : Cursor)
  | closeBrace (stop : Cursor)
  | element
  | broken (reason : Anomaly)

/-- A step without the proof that less is left to read. -/
def Step.beginning {c : Cursor} : Step c → Beginning
  | .atEnd => .atEnd
  | .pass stop _ => .pass stop
  | .openBrace stop _ => .openBrace stop
  | .closeBrace stop _ => .closeBrace stop
  | .element => .element
  | .broken reason => .broken reason

/-- Something is passed over up to its end, if it has one. -/
def Beginning.upTo (reason : Anomaly) : Option Cursor → Beginning
  | some stop => .pass stop
  | none => .broken reason

/-- What begins at a place where the slash before the given text stands. -/
def Cursor.slashBegins (c : Cursor) (rest : List Char) : Beginning :=
  if rest.head? = some '/' then .pass (c.next.skipWhile (· ≠ '\n'))
  else if rest.head? = some '*' then
    .pass (Cursor.blockCommentEnd c.next.next.before c.line c.next.next.rest)
  else if operandMayFollow c.before then
    .upTo (.unterminatedRegex c.line)
      ((Cursor.regexEnd? false ('/' :: c.before) c.line rest).map (·.skipWhile isNameChar))
  else .pass c.next

/-- What begins at a place where the less-than sign before the given text stands. -/
def Cursor.signBegins (c : Cursor) (rest : List Char) : Beginning :=
  if elementMayStart c.before rest then
    if startsTypeParameters rest then
      .pass (Cursor.typeParametersEnd 1 '<' ('<' :: c.before) c.line rest)
    else .element
  else .pass c.next

/-- What begins at a place in script text. -/
def Cursor.begins (c : Cursor) : Beginning :=
  match c.rest with
  | [] => .atEnd
  | ch :: rest =>
    if isQuote ch then .upTo (.unterminatedString c.line)
      (Cursor.stringEnd? ch (ch :: c.before) c.line rest)
    else if ch = '/' then c.slashBegins rest
    else if ch = '\x7b' then .openBrace c.next
    else if ch = '\x7d' then .closeBrace c.next
    else if ch = '<' then c.signBegins rest
    else .pass c.next

/-- A step says what begins at its place. -/
theorem beginning_step (c : Cursor) : c.step.beginning = c.begins := by
  obtain ⟨before, rest, line⟩ := c
  cases rest with
  | nil => rfl
  | cons ch rest =>
    unfold Cursor.step Cursor.begins
    simp only
    by_cases hquote : isQuote ch = true
    · rw [if_pos hquote, if_pos hquote]
      split <;> rename_i hend <;> simp [hend, Beginning.upTo, Step.beginning]
    · rw [if_neg hquote, if_neg hquote]
      by_cases hslash : ch = '/'
      · subst hslash
        unfold Cursor.slashBegins
        simp only [if_true, beq_iff_eq]
        repeat' split
        all_goals simp_all [Step.beginning, Beginning.upTo]
      · unfold Cursor.signBegins
        by_cases hsign : ch = '<'
        · subst hsign
          simp only [true_and]
          repeat' split
          all_goals simp_all [Step.beginning]
        · simp only [if_neg hslash, hsign, false_and, if_false]
          repeat' split
          all_goals rfl

/-! ## The cases -/

/-- The slash before the given text begins no comment. -/
def BeginsNoComment (rest : List Char) : Prop :=
  rest.head? ≠ some '/' ∧ rest.head? ≠ some '*'

/-- Something begins at a place in script text. -/
inductive Begins : Cursor → Beginning → Prop where
  | atEnd {before : List Char} {line : Nat} : Begins ⟨before, [], line⟩ .atEnd
  | string {quote : Char} {before rest : List Char} {line : Nat} {stop : Cursor}
      (hquote : isQuote quote = true)
      (hend : Cursor.stringEnd? quote (quote :: before) line rest = some stop) :
      Begins ⟨before, quote :: rest, line⟩ (.pass stop)
  | openString {quote : Char} {before rest : List Char} {line : Nat}
      (hquote : isQuote quote = true)
      (hend : Cursor.stringEnd? quote (quote :: before) line rest = none) :
      Begins ⟨before, quote :: rest, line⟩ (.broken (.unterminatedString line))
  | lineComment {before rest : List Char} {line : Nat} :
      Begins ⟨before, '/' :: '/' :: rest, line⟩
        (.pass ((Cursor.mk ('/' :: before) ('/' :: rest) line).skipWhile (· ≠ '\n')))
  | blockComment {before rest : List Char} {line : Nat} :
      Begins ⟨before, '/' :: '*' :: rest, line⟩
        (.pass (Cursor.blockCommentEnd ('*' :: '/' :: before) line rest))
  | regex {before rest : List Char} {line : Nat} {stop : Cursor} (hrest : BeginsNoComment rest)
      (hplace : operandMayFollow before = true)
      (hend : Cursor.regexEnd? false ('/' :: before) line rest = some stop) :
      Begins ⟨before, '/' :: rest, line⟩ (.pass (stop.skipWhile isNameChar))
  | openRegex {before rest : List Char} {line : Nat} (hrest : BeginsNoComment rest)
      (hplace : operandMayFollow before = true)
      (hend : Cursor.regexEnd? false ('/' :: before) line rest = none) :
      Begins ⟨before, '/' :: rest, line⟩ (.broken (.unterminatedRegex line))
  | openBrace {before rest : List Char} {line : Nat} :
      Begins ⟨before, '\x7b' :: rest, line⟩ (.openBrace ⟨'\x7b' :: before, rest, line⟩)
  | closeBrace {before rest : List Char} {line : Nat} :
      Begins ⟨before, '\x7d' :: rest, line⟩ (.closeBrace ⟨'\x7d' :: before, rest, line⟩)
  | typeParameters {before rest : List Char} {line : Nat}
      (hstart : elementMayStart before rest = true) (htype : startsTypeParameters rest = true) :
      Begins ⟨before, '<' :: rest, line⟩
        (.pass (Cursor.typeParametersEnd 1 '<' ('<' :: before) line rest))
  | element {before rest : List Char} {line : Nat} (hstart : elementMayStart before rest = true)
      (htype : startsTypeParameters rest = false) : Begins ⟨before, '<' :: rest, line⟩ .element
  /-- A single character is passed over. -/
  | single {ch : Char} {before rest : List Char} {line : Nat} (hquote : isQuote ch = false)
      (hslash : ch = '/' → BeginsNoComment rest ∧ operandMayFollow before = false)
      (hopen : ch ≠ '\x7b') (hclose : ch ≠ '\x7d')
      (hsign : ch = '<' → elementMayStart before rest = false) :
      Begins ⟨before, ch :: rest, line⟩ (.pass ⟨ch :: before, rest, Cursor.lineAfter line ch⟩)

section Cases

variable {c stop : Cursor} {b : Beginning}

theorem Begins.begins_eq (h : Begins c b) : c.begins = b := by
  have hslash : isQuote '/' = false := by decide
  have hopen : isQuote '\x7b' = false := by decide
  have hclose : isQuote '\x7d' = false := by decide
  have hsign : isQuote '<' = false := by decide
  cases h with
  | atEnd => rfl
  | string hquote hend => simp [Cursor.begins, hquote, hend, Beginning.upTo]
  | openString hquote hend => simp [Cursor.begins, hquote, hend, Beginning.upTo]
  | lineComment => simp [Cursor.begins, Cursor.slashBegins, hslash, Cursor.next, Cursor.lineAfter]
  | blockComment =>
    simp [Cursor.begins, Cursor.slashBegins, hslash, Cursor.next, Cursor.lineAfter]
  | regex hrest hplace hend =>
    simp [Cursor.begins, Cursor.slashBegins, hslash, hrest.1, hrest.2, hplace, hend,
      Beginning.upTo]
  | openRegex hrest hplace hend =>
    simp [Cursor.begins, Cursor.slashBegins, hslash, hrest.1, hrest.2, hplace, hend,
      Beginning.upTo]
  | openBrace => simp [Cursor.begins, hopen, Cursor.next, Cursor.lineAfter]
  | closeBrace => simp [Cursor.begins, hclose, Cursor.next, Cursor.lineAfter]
  | typeParameters hstart htype => simp [Cursor.begins, Cursor.signBegins, hsign, hstart, htype]
  | element hstart htype => simp [Cursor.begins, Cursor.signBegins, hsign, hstart, htype]
  | @single ch _ rest _ hquote hslash' hopen' hclose' hsign' =>
    by_cases hch : ch = '/'
    · obtain ⟨⟨hline, hblock⟩, hplace⟩ := hslash' hch
      subst hch
      simp [Cursor.begins, Cursor.slashBegins, hquote, hline, hblock, hplace, Cursor.next]
    · by_cases hch' : ch = '<'
      · have hstart := hsign' hch'
        subst hch'
        simp [Cursor.begins, Cursor.signBegins, hquote, hstart, Cursor.next]
      · simp [Cursor.begins, hquote, hch, hch', hopen', hclose', Cursor.next]

theorem begins_slash (before rest : List Char) (line : Nat) :
    Begins ⟨before, '/' :: rest, line⟩ (Cursor.slashBegins ⟨before, '/' :: rest, line⟩ rest) := by
  unfold Cursor.slashBegins
  split
  · rename_i hline
    obtain ⟨later, rfl⟩ := List.head?_eq_some_iff.1 hline
    exact .lineComment
  · split
    · rename_i hblock
      obtain ⟨later, rfl⟩ := List.head?_eq_some_iff.1 hblock
      exact .blockComment
    · rename_i hline hblock
      split
      · rename_i hplace
        cases hend : Cursor.regexEnd? false ('/' :: before) line rest with
        | none => exact .openRegex ⟨hline, hblock⟩ hplace hend
        | some stop => exact .regex ⟨hline, hblock⟩ hplace hend
      · rename_i hplace
        exact .single (by decide) (fun _ => ⟨⟨hline, hblock⟩, Bool.eq_false_iff.2 hplace⟩)
          (by decide) (by decide) (fun h => absurd h (by decide))

theorem begins_sign (before rest : List Char) (line : Nat) :
    Begins ⟨before, '<' :: rest, line⟩ (Cursor.signBegins ⟨before, '<' :: rest, line⟩ rest) := by
  unfold Cursor.signBegins
  split
  · rename_i hstart
    split
    · rename_i htype
      exact .typeParameters hstart htype
    · rename_i htype
      exact .element hstart (Bool.eq_false_iff.2 htype)
  · rename_i hstart
    exact .single (by decide) (fun h => absurd h (by decide)) (by decide) (by decide)
      fun _ => Bool.eq_false_iff.2 hstart

theorem begins_begins (c : Cursor) : Begins c c.begins := by
  obtain ⟨before, rest, line⟩ := c
  cases rest with
  | nil => exact .atEnd
  | cons ch rest =>
    unfold Cursor.begins
    simp only
    by_cases hquote : isQuote ch = true
    · rw [if_pos hquote]
      cases hend : Cursor.stringEnd? ch (ch :: before) line rest with
      | none => exact .openString hquote hend
      | some stop => exact .string hquote hend
    · rw [if_neg hquote]
      split
      · rename_i hslash
        exact hslash ▸ begins_slash before rest line
      · split
        · rename_i hopen
          exact hopen ▸ .openBrace
        · split
          · rename_i hclose
            exact hclose ▸ .closeBrace
          · split
            · rename_i hsign
              exact hsign ▸ begins_sign before rest line
            · rename_i hslash hopen hclose hsign
              exact .single (Bool.eq_false_iff.2 hquote) (fun h => absurd h hslash) hopen hclose
                (fun h => absurd h hsign)

/-- The cases are the beginnings of the scan. -/
theorem begins_iff : Begins c b ↔ c.begins = b :=
  ⟨Begins.begins_eq, fun h => h ▸ begins_begins c⟩

/-- What a step says begins at its place. -/
theorem begins_of_step {step : Step c} (h : c.step = step) : Begins c step.beginning :=
  begins_iff.2 (h ▸ (beginning_step c).symm)

theorem Step.beginning_injective : Function.Injective (Step.beginning (c := c)) := by
  intro s t h
  cases s <;> cases t <;> simp_all [Step.beginning]

/-- The step is the one that says what begins at the place. -/
theorem step_eq_of_begins {step : Step c} (h : Begins c step.beginning) : c.step = step :=
  Step.beginning_injective ((beginning_step c).trans (begins_iff.1 h))

/-- What is passed over leaves less to read. -/
theorem step_pass (h : Begins c (.pass stop)) : ∃ hshorter, c.step = .pass stop hshorter := by
  rw [begins_iff, ← beginning_step] at h
  cases hstep : c.step with
  | pass stop' hshorter =>
    rw [hstep] at h
    cases h
    exact ⟨hshorter, rfl⟩
  | atEnd | openBrace | closeBrace | element | broken =>
    rw [hstep] at h
    cases h

end Cases

end DesignCompiler.Markup
