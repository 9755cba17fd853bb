import DesignCompiler.Markup.Structure
import DesignCompiler.Proofs.Markup.Passing
import DesignCompiler.Proofs.Markup.Positions
import DesignCompiler.Proofs.Text.Class
import DesignCompiler.Proofs.Text.Words

/-!
# Steps of the scan

What one step of each scanning loop does, stated for the place that it starts from. `Yields` says
how a scan ends without naming the bound that its result carries, so the steps below can be
chained whatever the bound is.

A step over one piece of the children keeps the rest of the children as it is:
`scanChildren_element` and its neighbours are equations between two scans, which serve for the
scans that fail as well.
-/

namespace DesignCompiler.Markup

open Text (newlines isBlank isNameChar takeWhile_append_head dropWhile_append_head)

/-! ## Findings -/

namespace Findings

@[simp] theorem elements_append (a b : Findings) :
    (a ++ b).elements = a.elements ++ b.elements := rfl

@[simp] theorem unexpectedClosings_append (a b : Findings) :
    (a ++ b).unexpectedClosings = a.unexpectedClosings ++ b.unexpectedClosings := rfl

@[simp] theorem unclosed_append (a b : Findings) :
    (a ++ b).unclosed = a.unclosed ++ b.unclosed := rfl

@[simp] theorem none_append (a : Findings) : none ++ a = a := rfl

@[simp] theorem append_none (a : Findings) : a ++ none = a := by
  obtain ⟨elements, unexpected, unclosed⟩ := a
  show append ⟨elements, unexpected, unclosed⟩ none = _
  simp [append, none]

theorem append_assoc (a b c : Findings) : a ++ b ++ c = a ++ (b ++ c) := by
  show append (append a b) c = append a (append b c)
  simp [append, List.append_assoc]

/-- Nothing is reported. -/
def Clean (found : Findings) : Prop :=
  found.unclosed = [] ∧ found.unexpectedClosings = []

theorem clean_none : none.Clean :=
  ⟨rfl, rfl⟩

theorem clean_element (e : Element) : (element e).Clean :=
  ⟨rfl, rfl⟩

theorem Clean.append {found found' : Findings} (h : found.Clean) (h' : found'.Clean) :
    (found ++ found').Clean := by
  unfold Clean
  rw [unclosed_append, unexpectedClosings_append, h.1, h.2, h'.1, h'.2]
  exact ⟨rfl, rfl⟩

end Findings

/-! ## How a scan ends -/

section Yields

variable {α β : Type} {bound : Nat}

/-- The scan succeeds with a value and findings, and it ends at the given place. -/
def Yields (result : Except Anomaly (Scanned α bound)) (value : α) (findings : Findings)
    (stop : Cursor) : Prop :=
  ∃ h, result = .ok ⟨value, findings, stop, h⟩

theorem Yields.findings_eq {result : Except Anomaly (Scanned α bound)} {value value' : α}
    {findings findings' : Findings} {stop stop' : Cursor}
    (h : Yields result value findings stop) (h' : Yields result value' findings' stop') :
    findings = findings' := by
  obtain ⟨_, rfl⟩ := h
  obtain ⟨_, heq⟩ := h'
  cases heq
  rfl

theorem Yields.ne_error {result : Except Anomaly (Scanned α bound)} {value : α}
    {findings : Findings} {stop : Cursor} (h : Yields result value findings stop)
    (reason : Anomaly) : result ≠ .error reason := by
  obtain ⟨_, rfl⟩ := h
  rintro ⟨⟩

/-- A scan that is another one behind earlier findings ends as that one does. -/
theorem Yields.after {result : Except Anomaly (Scanned α bound)} {value : α} {findings : Findings}
    {stop : Cursor} (h : Yields result value findings stop) (earlier : Findings) (f : α → β) :
    Yields (result.map (Scanned.after earlier f)) (f value) (earlier ++ findings) stop := by
  obtain ⟨hstop, rfl⟩ := h
  exact ⟨hstop, rfl⟩

theorem map_after_none (result : Except Anomaly (Scanned α bound)) :
    result.map (Scanned.after .none id) = result := by
  cases result <;> rfl

theorem map_after_after (result : Except Anomaly (Scanned α bound)) (found earlier : Findings)
    (f g : α → α) :
    (result.map (Scanned.after found f)).map (Scanned.after earlier g) =
      result.map (Scanned.after (earlier ++ found) (g ∘ f)) := by
  cases result with
  | error reason => rfl
  | ok scanned => simp [Except.map, Scanned.after, Findings.append_assoc]

end Yields

/-! ## Places behind runs of characters -/

/-- Skipping goes on behind a run of accepted characters. -/
theorem skipFrom_append {accepts : Char → Bool} {s : List Char} (hs : ∀ c ∈ s, accepts c = true)
    (before rest : List Char) (line : Nat) :
    Cursor.skipFrom accepts before line (s ++ rest) =
      Cursor.skipFrom accepts (s.reverse ++ before) (line + newlines s) rest := by
  induction s generalizing before line with
  | nil => rfl
  | cons c s ih =>
    have hc : accepts c = true := hs c List.mem_cons_self
    have hline : Cursor.lineAfter line c + newlines s = line + newlines (c :: s) := by
      rw [lineAfter_eq, Nat.add_assoc, ← newlines_append, List.singleton_append]
    rw [List.cons_append, Cursor.skipFrom, if_pos hc,
      ih fun d hd => hs d (List.mem_cons_of_mem c hd), hline]
    simp

/-- There is nothing to skip in front of a character that is not accepted. -/
theorem skipWhile_eq_self {accepts : Char → Bool} {c : Cursor}
    (hc : ∀ ch ∈ c.rest.head?, accepts ch = false) :
    c.skipWhile accepts = c := by
  obtain ⟨before, rest, line⟩ := c
  unfold Cursor.skipWhile
  cases rest with
  | nil => rfl
  | cons ch rest =>
    have hch : accepts ch = false := hc ch rfl
    simp [Cursor.skipFrom, hch]

/-- White space is skipped once. -/
theorem skipBlanks_skipBlanks (c : Cursor) : c.skipBlanks.skipBlanks = c.skipBlanks := by
  refine skipWhile_eq_self fun ch hch => ?_
  rw [Cursor.rest_skipBlanks] at hch
  have hhead := List.head?_dropWhile_not isBlank c.rest
  rw [Option.mem_def.1 hch] at hhead
  simpa using hhead

theorem quotedEnd?_append {quote : Char} {s : List Char} (hs : quote ∉ s)
    (before rest : List Char) (line : Nat) :
    Cursor.quotedEnd? quote before line (s ++ quote :: rest) =
      some (s, ⟨quote :: (s.reverse ++ before), rest, line + newlines (s ++ [quote])⟩) := by
  induction s generalizing before line with
  | nil => simp [Cursor.quotedEnd?, lineAfter_eq]
  | cons c s ih =>
    obtain ⟨hc, hs⟩ := List.ne_and_not_mem_of_not_mem_cons hs
    have hline : Cursor.lineAfter line c + newlines (s ++ [quote]) =
        line + newlines (c :: s ++ [quote]) := by
      rw [lineAfter_eq, Nat.add_assoc, ← newlines_append, List.singleton_append, List.cons_append]
    rw [List.cons_append, Cursor.quotedEnd?, if_neg (Ne.symm hc), ih hs, hline]
    simp

/-! ## Tags -/

/-- A text that is read back as a tag: it is not empty and has only characters of tags in it. -/
def IsTag (tag : List Char) : Prop :=
  tag ≠ [] ∧ ∀ ch ∈ tag, isTagChar ch = true

instance : DecidablePred IsTag := fun tag =>
  inferInstanceAs (Decidable (tag ≠ [] ∧ ∀ ch ∈ tag, isTagChar ch = true))

theorem isBlank_eq_false_of_isTagChar {ch : Char} (hch : isTagChar ch = true) :
    isBlank ch = false := by
  simp only [isTagChar, Bool.or_eq_true, beq_iff_eq] at hch
  rcases hch with ((hname | rfl) | rfl) | rfl
  · exact Text.isBlank_eq_false_of_isNameChar hname
  · decide
  · decide
  · decide

section Tags

variable {c : Cursor} {tag rest : List Char}

theorem tagName_of_rest (htag : ∀ ch ∈ tag, isTagChar ch = true) (hc : c.rest = tag ++ rest)
    (hrest : ∀ ch ∈ rest.head?, isTagChar ch = false) : c.tagName = String.ofList tag := by
  unfold Cursor.tagName
  rw [hc, takeWhile_append_head htag hrest]

theorem rest_skipTagName_of_rest (htag : ∀ ch ∈ tag, isTagChar ch = true)
    (hc : c.rest = tag ++ rest) (hrest : ∀ ch ∈ rest.head?, isTagChar ch = false) :
    c.skipTagName.rest = rest := by
  unfold Cursor.skipTagName
  rw [Cursor.rest_skipWhile, hc, dropWhile_append_head htag hrest]

/-- A tag begins with a character that is not blank. -/
theorem skipBlanks_of_tag (htag : IsTag tag) (hc : c.rest = tag ++ rest) : c.skipBlanks = c := by
  obtain ⟨before, text, n⟩ := c
  obtain ⟨hne, hchars⟩ := htag
  obtain ⟨d, more, rfl⟩ := List.exists_cons_of_ne_nil hne
  obtain rfl : text = d :: (more ++ rest) := hc
  refine skipWhile_eq_self ?_
  rintro ch ⟨⟩
  exact isBlank_eq_false_of_isTagChar (hchars d List.mem_cons_self)

/-- No blank begins the name in a closing tag, which is empty for a fragment. -/
theorem skipBlanks_of_closing (htag : ∀ ch ∈ tag, isTagChar ch = true)
    (hc : c.rest = tag ++ '>' :: rest) :
    c.skipBlanks = c := by
  refine skipWhile_eq_self ?_
  rw [hc]
  cases tag with
  | nil =>
    rintro ch ⟨⟩
    decide
  | cons d more =>
    rintro ch ⟨⟩
    exact isBlank_eq_false_of_isTagChar (htag d List.mem_cons_self)

theorem closingName_of_rest (htag : ∀ ch ∈ tag, isTagChar ch = true)
    (hc : c.rest = '<' :: '/' :: (tag ++ '>' :: rest)) : c.closingName = String.ofList tag := by
  have hrest : c.next.next.rest = tag ++ '>' :: rest := by simp [hc]
  unfold Cursor.closingName
  rw [skipBlanks_of_closing htag hrest, tagName_of_rest htag hrest]
  rintro ch ⟨⟩
  decide

theorem rest_closingEnd_of_rest (htag : ∀ ch ∈ tag, isTagChar ch = true)
    (hc : c.rest = '<' :: '/' :: (tag ++ '>' :: rest)) : c.closingEnd.rest = '>' :: rest := by
  have hrest : c.next.next.rest = tag ++ '>' :: rest := by simp [hc]
  unfold Cursor.closingEnd
  rw [skipBlanks_of_closing htag hrest, Cursor.rest_skipBlanks,
    rest_skipTagName_of_rest htag hrest]
  · simp [isBlank]
  · rintro ch ⟨⟩
    decide

end Tags

/-! ## Elements in script text -/

section Script

variable {element : ElementScanner} {stack : List String} {extent : Extent} {bound depth : Nat}
  {c stop : Cursor}

theorem scanScript_element (extent : Extent) (depth : Nat) {findings : Findings}
    (hstep : c.step = .element) (hrest : c.rest ≠ [])
    (helement : Yields (element stack c) () findings stop) (hc : c.rest.length ≤ bound) :
    ∃ h, scanScript element stack extent bound depth c hc =
      (scanScript element stack extent bound depth stop h).map (Scanned.after findings id) := by
  obtain ⟨hstop, hscan⟩ := helement
  have hshorter : stop.rest.length < c.rest.length :=
    Scanned.lt_of_ne_nil (⟨(), findings, stop, hstop⟩ : Scanned Unit c.rest.tail.length) hrest
  refine ⟨within_of_lt hshorter hc, ?_⟩
  rw [scanScript.eq_def, hstep]
  simp only [hrest, dite_false, hscan]
  split <;> rename_i hlater <;> rw [hlater] <;> rfl

theorem scanScript_element_error {reason : Anomaly} (hstep : c.step = .element)
    (hrest : c.rest ≠ []) (helement : element stack c = .error reason)
    (hc : c.rest.length ≤ bound) :
    scanScript element stack extent bound depth c hc = .error reason := by
  rw [scanScript.eq_def, hstep]
  simp only [hrest, dite_false, helement]

/-- A source ends behind a passable text. -/
theorem yields_scanScript_atEnd (element : ElementScanner) (stack : List String)
    (hrest : Passable c.rest) (hc : c.rest.length ≤ bound) :
    ∃ stop, Yields (scanScript element stack .source bound 0 c hc) () .none stop := by
  obtain ⟨before, text, n⟩ := c
  have hrun := hrest before [] n 0
  rw [List.append_nil] at hrun
  obtain ⟨hend, hscan⟩ := scanScript_of_passes element stack .source hrun hc
  refine ⟨⟨text.reverse ++ before, [], n + newlines text⟩, hend, ?_⟩
  rw [hscan, scanScript.eq_def, step_atEnd]
  rfl

end Script

/-! ## Expressions and values -/

variable {element : ElementScanner} {stack : List String}

/-- The expression in braces is the text between them. -/
theorem yields_scanExpression {s : List Char} (hs : Passable s) (tag name : String) (line : Nat)
    (before rest : List Char) (n : Nat) :
    Yields (scanExpression element stack tag name line ⟨before, s ++ '\x7d' :: rest, n⟩) s .none
      ⟨'\x7d' :: (s.reverse ++ before), rest, n + newlines s⟩ := by
  obtain ⟨hc, hscan⟩ :=
    scanScript_of_passes element stack (.expression n) (hs before ('\x7d' :: rest) n 0)
      (Nat.le_refl _)
  obtain ⟨h, hclose⟩ := step_closeBrace (s.reverse ++ before) rest (n + newlines s)
  have hend := scanScript.eq_def element stack (.expression n) (s ++ '\x7d' :: rest).length 0
    ⟨s.reverse ++ before, '\x7d' :: rest, n + newlines s⟩ hc
  rw [hclose] at hend
  have hlength : (s ++ '\x7d' :: rest).length - rest.length = s.length + 1 := by
    simp only [List.length_append, List.length_cons]
    omega
  have htake : (s ++ '\x7d' :: rest).take (s.length + 1) = s ++ ['\x7d'] := by
    rw [List.take_length_add_append, List.take_succ_cons, List.take_zero]
  refine ⟨within_of_lt h hc, ?_⟩
  rw [scanExpression, hscan, hend]
  simp only [Scanned.quiet, Cursor.textUntil, hlength, htake, List.dropLast_concat]

/-- A quoted value ends at its second quote. -/
theorem yields_scanValue_of_quotedEnd? (element : ElementScanner) (stack : List String)
    {quote : Char} {text rest : List Char} {c stop : Cursor}
    (hquote : quote = '"' ∨ quote = '\x27') (hc : c.rest = quote :: rest)
    (hend : Cursor.quotedEnd? quote (quote :: c.before) c.line rest = some (text, stop))
    (tag name : String) (line : Nat) :
    Yields (scanValue element stack tag name line c) (.text (String.ofList text)) .none stop := by
  obtain ⟨before, _, n⟩ := c
  cases hc
  unfold scanValue Yields
  simp only [hquote, if_true]
  split
  · rename_i hstop
    rw [hend] at hstop
    cases hstop
    exact ⟨Nat.le_succ_of_le (Nat.le_of_lt (Cursor.quotedEnd?_lt hend)), rfl⟩
  · rename_i hnone
    rw [hend] at hnone
    cases hnone

theorem scanValue_of_quotedEnd?_none (element : ElementScanner) (stack : List String)
    {quote : Char} {rest : List Char} {c : Cursor} (hquote : quote = '"' ∨ quote = '\x27')
    (hc : c.rest = quote :: rest)
    (hend : Cursor.quotedEnd? quote (quote :: c.before) c.line rest = none) (tag name : String)
    (line : Nat) :
    scanValue element stack tag name line c = .error (.unterminatedAttribute tag name line) := by
  obtain ⟨before, _, n⟩ := c
  cases hc
  unfold scanValue
  simp only [hquote, if_true]
  split
  · rename_i hstop
    rw [hend] at hstop
    cases hstop
  · rfl

/-- Nothing else is a value. -/
theorem scanValue_of_head? (element : ElementScanner) (stack : List String) {c : Cursor}
    (hc : ∀ ch ∈ c.rest.head?, ¬(ch = '"' ∨ ch = '\x27') ∧ ch ≠ '\x7b') (tag name : String)
    (line : Nat) :
    scanValue element stack tag name line c = .error (.unterminatedAttribute tag name line) := by
  obtain ⟨before, text, n⟩ := c
  unfold scanValue
  cases text with
  | nil => rfl
  | cons ch rest =>
    obtain ⟨hquote, hbrace⟩ := hc ch rfl
    simp only [if_neg hquote, if_neg hbrace]

theorem next_openBrace {c : Cursor} {rest : List Char} (hc : c.rest = '\x7b' :: rest) :
    c.next = ⟨'\x7b' :: c.before, rest, c.line⟩ := by
  obtain ⟨before, _, n⟩ := c
  cases hc
  rfl

/-- A value in braces is its expression. -/
theorem yields_scanValue_of_scanExpression {text rest : List Char} {findings : Findings}
    {c stop : Cursor} (hc : c.rest = '\x7b' :: rest) {tag name : String} {line : Nat}
    (hexpression : Yields (scanExpression element stack tag name line c.next) text findings
      stop) :
    Yields (scanValue element stack tag name line c) (.expression (String.ofList text)) findings
      stop := by
  obtain ⟨before, _, n⟩ := c
  cases hc
  obtain ⟨h, hscan⟩ := hexpression
  refine ⟨Nat.le_succ_of_le h, ?_⟩
  unfold scanValue
  simp [hscan]

theorem scanValue_of_scanExpression_error {rest : List Char} {reason : Anomaly} {c : Cursor}
    (hc : c.rest = '\x7b' :: rest) {tag name : String} {line : Nat}
    (hexpression : scanExpression element stack tag name line c.next = .error reason) :
    scanValue element stack tag name line c = .error reason := by
  obtain ⟨before, _, n⟩ := c
  cases hc
  unfold scanValue
  simp [hexpression]

theorem yields_scanValue_braces (element : ElementScanner) (stack : List String)
    {s rest : List Char} {c : Cursor} (hs : Passable s)
    (hc : c.rest = '\x7b' :: (s ++ '\x7d' :: rest)) (tag name : String) (line : Nat) :
    ∃ stop, c.Leads stop ∧ stop.rest = rest ∧
      Yields (scanValue element stack tag name line c) (.expression (String.ofList s)) .none
        stop := by
  refine ⟨⟨'\x7d' :: (s.reverse ++ '\x7b' :: c.before), rest, c.line + newlines s⟩, ?_, rfl,
    yields_scanValue_of_scanExpression hc ?_⟩
  · refine ⟨'\x7b' :: (s ++ ['\x7d']), by simp, by simp [hc], ?_⟩
    simp [newlines]
  · rw [next_openBrace hc]
    exact yields_scanExpression hs tag name line _ rest c.line

/-- A name without an equals sign behind it is a flag. -/
theorem yields_scanNamed_flag {c : Cursor} (hc : c.skipBlanks.rest.head? ≠ some '=')
    (tag name : String) (line : Nat) :
    Yields (scanNamed element stack tag name line c) .flag .none c.skipBlanks := by
  refine ⟨Cursor.skipBlanks_le c, ?_⟩
  rw [scanNamed, if_neg hc]
  rfl

theorem yields_scanNamed_value {c stop : Cursor} {tag name : String} {line : Nat} {value : Value}
    {findings : Findings} (hc : c.skipBlanks.rest.head? = some '=')
    (hvalue : Yields (scanValue element stack tag name line c.skipBlanks.next.skipBlanks) value
      findings stop) :
    Yields (scanNamed element stack tag name line c) value findings stop := by
  obtain ⟨h, hscan⟩ := hvalue
  refine ⟨Nat.le_trans h (Cursor.skipEquals_le c), ?_⟩
  rw [scanNamed, if_pos hc, hscan]

/-! ## Attributes -/

section Attributes

variable {tag : String} {tagLine bound : Nat} {c stop : Cursor} {ch : Char} {rest : List Char}

theorem scanAttributes_atEnd (hrest : c.skipBlanks.rest = []) (hc : c.rest.length ≤ bound) :
    scanAttributes element stack tag tagLine bound c hc =
      .error (.unterminatedTag tag tagLine) := by
  rw [scanAttributes.eq_def]
  simp only
  split
  · rfl
  · rename_i hcons
    rw [hrest] at hcons
    cases hcons

/-- What is left behind blanks is within a bound. -/
theorem within_skipBlanks {d : Cursor} (hblanks : c.skipBlanks = d) (hc : c.rest.length ≤ bound) :
    d.rest.length ≤ bound :=
  hblanks ▸ Nat.le_trans (Cursor.skipBlanks_le c) hc

/-- What stands behind blanks in an opening tag decides on the scan of its attributes. -/
theorem scanAttributes_cons {d : Cursor} (hblanks : c.skipBlanks = d)
    (hrest : d.rest = ch :: rest) (hc : c.rest.length ≤ bound) :
    scanAttributes element stack tag tagLine bound c hc =
      if ch = '>' ∨ ch = '/' then .ok (.quiet [] d (within_skipBlanks hblanks hc))
      else if ch = '\x7b' then
        match scanExpression element stack tag Attribute.spreadName d.line d.next with
        | .error reason => .error reason
        | .ok found =>
          (scanAttributes element stack tag tagLine bound found.stop
            (Nat.le_trans found.within
              (Nat.le_trans (Cursor.next_le _) (within_skipBlanks hblanks hc)))).map
            (Scanned.after found.findings
              (⟨Attribute.spreadName, .expression (String.ofList (spreadText found.value)),
                d.line⟩ :: ·))
      else if isNameChar ch = true then
        match scanNamed element stack tag d.tagName d.line d.skipTagName with
        | .error reason => .error reason
        | .ok found =>
          (scanAttributes element stack tag tagLine bound found.stop
            (Nat.le_trans found.within
              (Nat.le_trans (Cursor.skipTagName_le _) (within_skipBlanks hblanks hc)))).map
            (Scanned.after found.findings (⟨d.tagName, found.value, d.line⟩ :: ·))
      else .error (.malformedTag tag ch d.line) := by
  subst hblanks
  rw [scanAttributes.eq_def]
  simp only
  split
  · rename_i hnil
    rw [hrest] at hnil
    cases hnil
  · rename_i hcons
    rw [hrest] at hcons
    cases hcons
    split
    · rfl
    · split
      · cases scanExpression element stack tag Attribute.spreadName c.skipBlanks.line
          c.skipBlanks.next with
        | error reason => rfl
        | ok found =>
          simp only
          split <;> rename_i hlater <;> rw [hlater] <;> rfl
      · split
        · cases scanNamed element stack tag c.skipBlanks.tagName c.skipBlanks.line
            c.skipBlanks.skipTagName with
          | error reason => rfl
          | ok found =>
            simp only
            split <;> rename_i hlater <;> rw [hlater] <;> rfl
        · rfl

/-- Blanks in front of attributes do not matter. -/
theorem scanAttributes_congr {d : Cursor} (hblanks : c.skipBlanks = d.skipBlanks)
    (hc : c.rest.length ≤ bound) (hd : d.rest.length ≤ bound) :
    scanAttributes element stack tag tagLine bound c hc =
      scanAttributes element stack tag tagLine bound d hd := by
  cases hrest : d.skipBlanks.rest with
  | nil => rw [scanAttributes_atEnd hrest hd, scanAttributes_atEnd (hblanks ▸ hrest) hc]
  | cons ch rest => rw [scanAttributes_cons rfl hrest hd, scanAttributes_cons hblanks hrest hc]

/-- The sign that ends an opening tag ends its attributes. -/
theorem yields_scanAttributes_end (hrest : c.skipBlanks.rest = ch :: rest)
    (hch : ch = '>' ∨ ch = '/') (hc : c.rest.length ≤ bound) :
    Yields (scanAttributes element stack tag tagLine bound c hc) [] .none c.skipBlanks := by
  refine ⟨Nat.le_trans (Cursor.skipBlanks_le c) hc, ?_⟩
  rw [scanAttributes_cons rfl hrest, if_pos hch]
  rfl

/-- The first character of a name begins neither the end of a tag nor an expression. -/
theorem ne_of_isNameChar (hch : isNameChar ch = true) : ¬(ch = '>' ∨ ch = '/') ∧ ch ≠ '\x7b' := by
  constructor
  · rintro (rfl | rfl) <;> exact absurd hch (by decide)
  · rintro rfl
    exact absurd hch (by decide)

end Attributes

/-! ## Children -/

section Children

variable {tag : String} {bound : Nat} {c : Cursor} {rest tail : List Char}

theorem scanChildren_atEnd (hrest : c.rest = []) (hc : c.rest.length ≤ bound) :
    Yields (scanChildren element stack tag bound c hc) ⟨false, [], false, false⟩ .none c := by
  obtain ⟨before, text, n⟩ := c
  cases hrest
  refine ⟨hc, ?_⟩
  rw [scanChildren.eq_def]
  rfl

/-- What stands between the tags of an element decides on the scan of its children. -/
theorem scanChildren_cons {ch : Char} (hrest : c.rest = ch :: rest) (hc : c.rest.length ≤ bound) :
    scanChildren element stack tag bound c hc =
      if ch = '<' then
        if rest.head? = some '/' then
          if c.closingEnd.rest.head? = some '>' then
            if c.closingName = tag then
              .ok (.quiet ⟨true, [], false, false⟩ c.closingEnd.next
                (Nat.le_trans (Cursor.next_le _) (Nat.le_trans (Cursor.closingEnd_le c) hc)))
            else if stack.contains c.closingName then .ok (.quiet ⟨false, [], false, false⟩ c hc)
            else
              (scanChildren element stack tag bound c.closingEnd.next
                (Nat.le_trans (Cursor.next_le _) (Nat.le_trans (Cursor.closingEnd_le c) hc))).map
                (Scanned.after (.unexpectedClosing c.closingName c.line) id)
          else .error (.unterminatedTag c.closingName c.line)
        else
          match element stack c with
          | .error reason => .error reason
          | .ok found =>
            (scanChildren element stack tag bound found.stop
              (Nat.le_trans found.within (Nat.le_trans c.rest.tail_sublist.length_le hc))).map
              (Scanned.after found.findings fun i => { i with hasElement := true })
      else if ch = '\x7b' then
        match scanExpression element stack tag "children" c.line c.next with
        | .error reason => .error reason
        | .ok found =>
          (scanChildren element stack tag bound found.stop
            (Nat.le_trans found.within (Nat.le_trans (Cursor.next_le c) hc))).map
            (Scanned.after found.findings fun i =>
              { i with hasExpression := showsSomething found.value || i.hasExpression })
      else
        (scanChildren element stack tag bound (c.skipWhile isPlain)
          (Nat.le_trans (Cursor.skipWhile_le _ c) hc)).map
          (Scanned.after .none fun i =>
            { i with text := c.rest.takeWhile isPlain ++ i.text }) := by
  obtain ⟨before, text, n⟩ := c
  cases hrest
  rw [scanChildren.eq_def]
  simp only
  split
  · split
    · split
      · rename_i hend
        have hhead : (Cursor.mk before (ch :: rest) n).closingEnd.rest.head? = some '>' := by
          rw [hend]
          rfl
        rw [if_pos hhead]
        split
        · rfl
        · split
          · rfl
          · split <;> rename_i hlater <;> rw [hlater] <;> rfl
      · rename_i hother
        have hhead : (Cursor.mk before (ch :: rest) n).closingEnd.rest.head? ≠ some '>' := by
          intro hhead
          obtain ⟨later, hend⟩ := List.head?_eq_some_iff.1 hhead
          exact hother later hend
        rw [if_neg hhead]
    · cases element stack ⟨before, ch :: rest, n⟩ with
      | error reason => rfl
      | ok found =>
        simp only
        split <;> rename_i hlater <;> rw [hlater] <;> rfl
  · split
    · cases scanExpression element stack tag "children" n
        (Cursor.mk before (ch :: rest) n).next with
      | error reason => rfl
      | ok found =>
        simp only
        split <;> rename_i hlater <;> rw [hlater] <;> rfl
    · split <;> rename_i hlater <;> rw [hlater] <;> rfl

/-- The name in a closing tag decides whether it is that of the element, of one further out, or of
none. -/
theorem scanChildren_closing (hrest : c.rest = '<' :: '/' :: rest)
    (hend : c.closingEnd.rest = '>' :: tail) (hc : c.rest.length ≤ bound) :
    scanChildren element stack tag bound c hc =
      if c.closingName = tag then
        .ok (.quiet ⟨true, [], false, false⟩ c.closingEnd.next
          (Nat.le_trans (Cursor.next_le _) (Nat.le_trans (Cursor.closingEnd_le c) hc)))
      else if stack.contains c.closingName then .ok (.quiet ⟨false, [], false, false⟩ c hc)
      else
        (scanChildren element stack tag bound c.closingEnd.next
          (Nat.le_trans (Cursor.next_le _) (Nat.le_trans (Cursor.closingEnd_le c) hc))).map
          (Scanned.after (.unexpectedClosing c.closingName c.line) id) := by
  have hhead : c.closingEnd.rest.head? = some '>' := by
    rw [hend]
    rfl
  rw [scanChildren_cons hrest, if_pos rfl, List.head?_cons, if_pos rfl, if_pos hhead]

/-- The children end at the closing tag of their element. -/
theorem scanChildren_own (element : ElementScanner) (stack : List String)
    (hrest : c.rest = '<' :: '/' :: rest) (hend : c.closingEnd.rest = '>' :: tail)
    (htag : c.closingName = tag) (hc : c.rest.length ≤ bound) :
    Yields (scanChildren element stack tag bound c hc) ⟨true, [], false, false⟩ .none
      c.closingEnd.next := by
  refine ⟨within_of_lt (Cursor.closingEnd_next_lt hend) hc, ?_⟩
  rw [scanChildren_closing hrest hend, if_pos htag]
  rfl

/-- The children end in front of the closing tag of an element further out. -/
theorem scanChildren_outer (element : ElementScanner) (hrest : c.rest = '<' :: '/' :: rest)
    (hend : c.closingEnd.rest = '>' :: tail) (htag : c.closingName ≠ tag)
    (hstack : stack.contains c.closingName = true) (hc : c.rest.length ≤ bound) :
    Yields (scanChildren element stack tag bound c hc) ⟨false, [], false, false⟩ .none c := by
  refine ⟨hc, ?_⟩
  rw [scanChildren_closing hrest hend, if_neg htag, if_pos hstack]
  rfl

/-- Scanning children from one place is scanning them from another one behind the given findings,
and `f` adds what stands between the places. -/
def Continues (element : ElementScanner) (stack : List String) (tag : String) (bound : Nat)
    (c : Cursor) (found : Findings) (f : Inside → Inside) (d : Cursor) : Prop :=
  ∀ hc : c.rest.length ≤ bound, ∃ hd : d.rest.length ≤ bound,
    scanChildren element stack tag bound c hc =
      (scanChildren element stack tag bound d hd).map (Scanned.after found f)

theorem Continues.refl (c : Cursor) : Continues element stack tag bound c .none id c :=
  fun hc => ⟨hc, (map_after_none _).symm⟩

theorem Continues.trans {d e : Cursor} {found found' : Findings} {f f' : Inside → Inside}
    (h : Continues element stack tag bound c found f d)
    (h' : Continues element stack tag bound d found' f' e) :
    Continues element stack tag bound c (found ++ found') (f ∘ f') e := by
  intro hc
  obtain ⟨hd, hscan⟩ := h hc
  obtain ⟨he, hscan'⟩ := h' hd
  refine ⟨he, ?_⟩
  rw [hscan, hscan', map_after_after]

/-- The scan from the first place ends as the one from the second place does. -/
theorem Continues.yields {d stop : Cursor} {found found' : Findings} {f : Inside → Inside}
    {inside : Inside} (h : Continues element stack tag bound c found f d)
    (hlater : ∀ hd, Yields (scanChildren element stack tag bound d hd) inside found' stop)
    (hc : c.rest.length ≤ bound) :
    Yields (scanChildren element stack tag bound c hc) (f inside) (found ++ found') stop := by
  obtain ⟨hd, hscan⟩ := h hc
  rw [hscan]
  exact (hlater hd).after found f

/-- A closing tag of no open element is reported and passed over. -/
theorem continues_stray (element : ElementScanner) (hrest : c.rest = '<' :: '/' :: rest)
    (hend : c.closingEnd.rest = '>' :: tail) (htag : c.closingName ≠ tag)
    (hstack : stack.contains c.closingName = false) :
    Continues element stack tag bound c (.unexpectedClosing c.closingName c.line) id
      c.closingEnd.next := by
  intro hc
  refine ⟨within_of_lt (Cursor.closingEnd_next_lt hend) hc, ?_⟩
  rw [scanChildren_closing hrest hend, if_neg htag,
    if_neg (ne_true_of_eq_false hstack)]

/-- An element is passed over with its findings. -/
theorem continues_element (tag : String) (bound : Nat) {findings : Findings} {stop : Cursor}
    (hrest : c.rest = '<' :: rest) (hhead : rest.head? ≠ some '/')
    (helement : Yields (element stack c) () findings stop) :
    Continues element stack tag bound c findings (fun i => { i with hasElement := true })
      stop := by
  intro hc
  obtain ⟨hstop, hscan⟩ := helement
  refine ⟨Nat.le_trans hstop (Nat.le_trans c.rest.tail_sublist.length_le hc), ?_⟩
  rw [scanChildren_cons hrest, if_pos rfl, if_neg hhead, hscan]

theorem scanChildren_element_error {reason : Anomaly} (hrest : c.rest = '<' :: rest)
    (hhead : rest.head? ≠ some '/') (helement : element stack c = .error reason)
    (hc : c.rest.length ≤ bound) :
    scanChildren element stack tag bound c hc = .error reason := by
  rw [scanChildren_cons hrest, if_pos rfl, if_neg hhead, helement]

/-- An expression is passed over with its findings. -/
theorem continues_of_scanExpression {s : List Char} {findings : Findings} {stop : Cursor}
    (bound : Nat) (hrest : c.rest = '\x7b' :: rest)
    (hexpression : Yields (scanExpression element stack tag "children" c.line c.next) s findings
      stop) :
    Continues element stack tag bound c findings
      (fun i => { i with hasExpression := showsSomething s || i.hasExpression }) stop := by
  intro hc
  obtain ⟨hstop, hscan⟩ := hexpression
  refine ⟨Nat.le_trans hstop (Nat.le_trans (Cursor.next_le c) hc), ?_⟩
  rw [scanChildren_cons hrest, if_neg (by decide), if_pos rfl, hscan]

/-- An expression in braces is passed over. -/
theorem continues_expression (element : ElementScanner) (stack : List String) (tag : String)
    (bound : Nat) {s : List Char} (hs : Passable s)
    (hrest : c.rest = '\x7b' :: (s ++ '\x7d' :: tail)) :
    ∃ stop, stop.rest = tail ∧ Continues element stack tag bound c .none
      (fun i => { i with hasExpression := showsSomething s || i.hasExpression }) stop := by
  refine ⟨⟨'\x7d' :: (s.reverse ++ '\x7b' :: c.before), tail, c.line + newlines s⟩, rfl,
    continues_of_scanExpression bound hrest ?_⟩
  rw [next_openBrace hrest]
  exact yields_scanExpression hs tag "children" c.line _ tail c.line

/-- A run of plain text is passed over. -/
theorem continues_run (element : ElementScanner) (stack : List String) (tag : String)
    (bound : Nat) (hrest : ∃ ch s, c.rest = ch :: s ∧ isPlain ch = true) :
    Continues element stack tag bound c .none
      (fun i => { i with text := c.rest.takeWhile isPlain ++ i.text }) (c.skipWhile isPlain) := by
  obtain ⟨ch, s, hrest, hplain⟩ := hrest
  intro hc
  refine ⟨within_of_lt (Cursor.skipWhile_lt hrest hplain) hc, ?_⟩
  have hsign : ch ≠ '<' := by
    rintro rfl
    exact absurd hplain (by decide)
  have hbrace : ch ≠ '\x7b' := by
    rintro rfl
    exact absurd hplain (by decide)
  rw [scanChildren_cons hrest, if_neg hsign, if_neg hbrace]

/-- Plain text is passed over, also in front of more plain text. -/
theorem continues_text (element : ElementScanner) (stack : List String) (tag : String)
    (bound : Nat) {s : List Char} (hs : ∀ ch ∈ s, isPlain ch = true) (before tail : List Char)
    (n : Nat) :
    Continues element stack tag bound ⟨before, s ++ tail, n⟩ .none
      (fun i => { i with text := s ++ i.text }) ⟨s.reverse ++ before, tail, n + newlines s⟩ := by
  let d : Cursor := ⟨s.reverse ++ before, tail, n + newlines s⟩
  have hskip : (Cursor.mk before (s ++ tail) n).skipWhile isPlain = d.skipWhile isPlain :=
    skipFrom_append hs before tail n
  cases s with
  | nil => exact Continues.refl _
  | cons ch s =>
    have hrun := continues_run element stack tag bound
      (c := ⟨before, ch :: s ++ tail, n⟩) ⟨ch, s ++ tail, rfl, hs ch List.mem_cons_self⟩
    rw [hskip] at hrun
    have htake : (ch :: s ++ tail).takeWhile isPlain = ch :: s ++ tail.takeWhile isPlain :=
      List.takeWhile_append_of_pos hs
    simp only [htake] at hrun
    by_cases htail : ∃ ch rest, d.rest = ch :: rest ∧ isPlain ch = true
    · -- The text behind is one run with this one, and a scan from its middle reads the rest of
      -- the run.
      intro hc
      have hd : tail.length ≤ bound := by
        simp only [List.length_append] at hc
        omega
      obtain ⟨he, hscan⟩ := hrun hc
      obtain ⟨he', hscan'⟩ := continues_run element stack tag bound htail hd
      refine ⟨hd, ?_⟩
      rw [hscan, hscan', map_after_after]
      simp [Function.comp_def, d]
    · have hhead : ∀ ch ∈ d.rest.head?, isPlain ch = false := by
        intro ch hch
        obtain ⟨rest, hrest⟩ := List.head?_eq_some_iff.1 hch
        exact Bool.eq_false_iff.2 fun hplain => htail ⟨ch, rest, hrest, hplain⟩
      have hnone : tail.takeWhile isPlain = [] := takeWhile_append_head (s := []) (by simp) hhead
      simp only [hnone, List.append_nil, skipWhile_eq_self hhead] at hrun
      exact hrun

theorem continues_plain (element : ElementScanner) (stack : List String) (tag : String)
    (bound : Nat) {s : List Char} (hs : ∀ ch ∈ s, isPlain ch = true)
    (hrest : c.rest = s ++ tail) :
    ∃ stop, stop.rest = tail ∧
      Continues element stack tag bound c .none (fun i => { i with text := s ++ i.text })
        stop := by
  obtain ⟨before, text, n⟩ := c
  obtain rfl : text = s ++ tail := hrest
  exact ⟨_, rfl, continues_text element stack tag bound hs before tail n⟩

end Children

/-! ## Elements -/

section Elements

variable {c stop : Cursor} {attributes : List Attribute} {findings : Findings} {rest : List Char}

/-- The element with the given opening tag and nothing between its tags. -/
def Element.bare (tag : String) (attributes : List Attribute) (line : Nat)
    (ancestors : List String) (selfClosing : Bool) : Element :=
  { tag, attributes, line, ancestors, text := "", hasExpressionChild := false,
    hasElementChild := false
    selfClosing }

/-- The element with the given things between its tags. -/
def Element.filled (e : Element) (inside : Inside) : Element :=
  { e with
    text := collapse inside.text
    hasExpressionChild := inside.hasExpression
    hasElementChild := inside.hasElement }

/-- The finding of an element whose children ended without its closing tag. -/
def Findings.missingClose (inside : Inside) (tag : String) (line : Nat) : Findings :=
  if inside.closed then .none else .unclosedTag tag line

theorem Findings.elements_missingClose (inside : Inside) (tag : String) (line : Nat) :
    (missingClose inside tag line).elements = [] := by
  unfold missingClose
  split <;> rfl

/-- The end of an opening tag, with or without a slash. -/
theorem head?_skipSlash_iff :
    (stop.skipSlash (stop.rest.head? == some '/')).rest.head? = some '>' ↔
      (∃ rest, stop.rest = '/' :: '>' :: rest) ∨ ∃ rest, stop.rest = '>' :: rest := by
  obtain ⟨before, text, n⟩ := stop
  cases text with
  | nil => simp [Cursor.skipSlash]
  | cons ch rest =>
    by_cases hslash : ch = '/'
    · subst hslash
      cases rest <;> simp [Cursor.skipSlash, Cursor.next]
    · simp [Cursor.skipSlash, hslash]

theorem scanElementWith_attributes_error {reason : Anomaly}
    (hattributes : ∀ h,
      scanAttributes element stack c.next.tagName c.line c.rest.tail.length
        c.next.skipTagName h = .error reason) :
    scanElementWith element stack c = .error reason := by
  rw [scanElementWith]
  simp only [hattributes]

variable (hattributes : ∀ h, Yields
  (scanAttributes element stack c.next.tagName c.line c.rest.tail.length c.next.skipTagName h)
  attributes findings stop)
include hattributes

/-- An opening tag without its greater-than sign. -/
theorem scanElementWith_unterminated
    (hend : (stop.skipSlash (stop.rest.head? == some '/')).rest.head? ≠ some '>') :
    scanElementWith element stack c = .error (.unterminatedTag c.next.tagName c.line) := by
  obtain ⟨h, hscan⟩ := hattributes c.skipTagName_next_le
  rw [scanElementWith]
  simp only [hscan, if_neg hend]

theorem yields_scanElementWith_selfClosing (hstop : stop.rest = '/' :: '>' :: rest) :
    Yields (scanElementWith element stack c) ()
      (findings ++ .element (.bare c.next.tagName attributes c.line stack true))
      stop.next.next := by
  obtain ⟨h, hscan⟩ := hattributes c.skipTagName_next_le
  refine ⟨Nat.le_trans (Cursor.next_skipSlash_le stop true) h, ?_⟩
  rw [scanElementWith]
  simp only [hscan]
  simp [hstop, Cursor.skipSlash, Element.bare]

theorem yields_scanElementWith_open {inside : Inside} {findings' : Findings} {stop' : Cursor}
    (hstop : stop.rest = '>' :: rest)
    (hinside : ∀ h, Yields
      (scanChildren element (stack ++ [c.next.tagName]) c.next.tagName c.rest.tail.length
        stop.next h) inside findings' stop') :
    Yields (scanElementWith element stack c) ()
      (findings ++
        .element ((Element.bare c.next.tagName attributes c.line stack false).filled inside) ++
        findings' ++ .missingClose inside c.next.tagName c.line) stop' := by
  obtain ⟨h, hscan⟩ := hattributes c.skipTagName_next_le
  obtain ⟨h', hinside⟩ := hinside (Nat.le_trans (Cursor.next_le stop) h)
  refine ⟨h', ?_⟩
  rw [scanElementWith]
  simp [hscan, hstop, Cursor.skipSlash, hinside, Element.bare, Element.filled,
    Findings.missingClose]

theorem scanElementWith_open_error {reason : Anomaly} (hstop : stop.rest = '>' :: rest)
    (hinside : ∀ h,
      scanChildren element (stack ++ [c.next.tagName]) c.next.tagName c.rest.tail.length
        stop.next h = .error reason) :
    scanElementWith element stack c = .error reason := by
  obtain ⟨h, hscan⟩ := hattributes c.skipTagName_next_le
  have hinside := hinside (Nat.le_trans (Cursor.next_le stop) h)
  rw [scanElementWith]
  simp [hscan, hstop, Cursor.skipSlash, hinside]

end Elements

end DesignCompiler.Markup
