import DesignCompiler.Proofs.Markup.Passing

/-!
# Places of one source

`Spans` relates two places of one source and the text between them, `Leads` two places of which
the second is not in front of the first. The movements of a scan all lead on: each comes to a
place of the source that it started in, with the line that the place is on. A movement that leaves
less to read goes `Ahead`.
-/

namespace DesignCompiler.Markup

open Text (newlines)

namespace Cursor

/-- The text stands between the two places of one source. -/
structure Spans (c : Cursor) (s : List Char) (d : Cursor) : Prop where
  before : d.before = s.reverse ++ c.before
  rest : c.rest = s ++ d.rest
  line : d.line = c.line + newlines s

/-- The second place is in the source of the first one, and not in front of it. -/
def Leads (c d : Cursor) : Prop :=
  ∃ s, c.Spans s d

/-- The second place is in the source of the first one, and behind it. -/
def Ahead (c d : Cursor) : Prop :=
  ∃ s, s ≠ [] ∧ c.Spans s d

section Relations

variable {c d e : Cursor} {s t : List Char}

theorem Spans.refl (c : Cursor) : c.Spans [] c :=
  ⟨rfl, rfl, rfl⟩

theorem Spans.trans (h : c.Spans s d) (h' : d.Spans t e) : c.Spans (s ++ t) e where
  before := by rw [h'.before, h.before, List.reverse_append, List.append_assoc]
  rest := by rw [h.rest, h'.rest, List.append_assoc]
  line := by rw [h'.line, h.line, newlines_append, Nat.add_assoc]

/-- There is one place behind a text at a place. -/
theorem exists_spans {rest : List Char} (hc : c.rest = s ++ rest) :
    ∃ d, c.Spans s d ∧ d.rest = rest :=
  ⟨⟨s.reverse ++ c.before, rest, c.line + newlines s⟩, ⟨rfl, hc, rfl⟩, rfl⟩

theorem Spans.unique (h : c.Spans s d) (h' : c.Spans s e) : d = e := by
  obtain ⟨before, rest, line⟩ := d
  obtain ⟨before', rest', line'⟩ := e
  obtain rfl : before = before' := h.before.trans h'.before.symm
  obtain rfl : line = line' := h.line.trans h'.line.symm
  obtain rfl : rest = rest' := List.append_cancel_left (h.rest.symm.trans h'.rest)
  rfl

/-- Between two places there is one behind every part of the text. -/
theorem Spans.split (h : c.Spans (s ++ t) e) : ∃ d, c.Spans s d ∧ d.Spans t e := by
  have hc : c.rest = s ++ (t ++ e.rest) := by rw [h.rest, List.append_assoc]
  obtain ⟨d, hd, hrest⟩ := exists_spans hc
  refine ⟨d, hd, ?_, hrest, ?_⟩
  · rw [h.before, hd.before, List.reverse_append, List.append_assoc]
  · rw [h.line, hd.line, newlines_append, Nat.add_assoc]

theorem Leads.refl (c : Cursor) : c.Leads c :=
  ⟨[], .refl c⟩

theorem Leads.trans (h : c.Leads d) (h' : d.Leads e) : c.Leads e := by
  obtain ⟨s, hs⟩ := h
  obtain ⟨t, ht⟩ := h'
  exact ⟨s ++ t, hs.trans ht⟩

/-- The text between two places is what the first one has in front of what the second one has. -/
theorem Leads.spans (h : c.Leads d) (hc : c.rest = s ++ d.rest) : c.Spans s d := by
  obtain ⟨t, ht⟩ := h
  have hsame : t = s := List.append_cancel_right (ht.rest.symm.trans hc)
  exact hsame ▸ ht

/-- A place is told by what it has in front of it. -/
theorem Leads.unique (h : c.Leads d) (h' : c.Leads e) (hrest : d.rest = e.rest) : d = e := by
  obtain ⟨s, hs⟩ := h
  exact hs.unique (h'.spans (hrest ▸ hs.rest))

/-- Of two places that are reached from one, one leads to the other. -/
theorem Leads.leads_or (h : c.Leads d) (h' : c.Leads e) : d.Leads e ∨ e.Leads d := by
  obtain ⟨s, hs⟩ := h
  obtain ⟨t, ht⟩ := h'
  rcases List.append_eq_append_iff.1 (hs.rest.symm.trans ht.rest) with
    ⟨u, rfl, -⟩ | ⟨u, rfl, -⟩
  · obtain ⟨f, hf, hlater⟩ := ht.split
    exact .inl ⟨u, hs.unique hf ▸ hlater⟩
  · obtain ⟨f, hf, hlater⟩ := hs.split
    exact .inr ⟨u, ht.unique hf ▸ hlater⟩

theorem Leads.line_le (h : c.Leads d) : c.line ≤ d.line := by
  obtain ⟨s, hs⟩ := h
  rw [hs.line]
  exact Nat.le_add_right _ _

theorem Leads.ahead (h : c.Leads d) (hlt : d.rest.length < c.rest.length) : c.Ahead d := by
  obtain ⟨s, hs⟩ := h
  refine ⟨s, ?_, hs⟩
  rintro rfl
  rw [hs.rest, List.nil_append] at hlt
  omega

theorem Ahead.leads (h : c.Ahead d) : c.Leads d := by
  obtain ⟨s, -, hs⟩ := h
  exact ⟨s, hs⟩

theorem Ahead.lt (h : c.Ahead d) : d.rest.length < c.rest.length := by
  obtain ⟨s, hne, hs⟩ := h
  have hpos : 0 < s.length := List.length_pos_iff.2 hne
  rw [hs.rest, List.length_append]
  omega

theorem Ahead.rest_ne_nil (h : c.Ahead d) : c.rest ≠ [] := by
  intro hnil
  have hlt := h.lt
  rw [hnil] at hlt
  exact Nat.not_lt_zero _ hlt

theorem Ahead.trans_leads (h : c.Ahead d) (h' : d.Leads e) : c.Ahead e := by
  obtain ⟨s, hne, hs⟩ := h
  obtain ⟨t, ht⟩ := h'
  exact ⟨s ++ t, List.append_ne_nil_of_left_ne_nil hne t, hs.trans ht⟩

theorem Leads.trans_ahead (h : c.Leads d) (h' : d.Ahead e) : c.Ahead e := by
  obtain ⟨s, hs⟩ := h
  obtain ⟨t, hne, ht⟩ := h'
  exact ⟨s ++ t, List.append_ne_nil_of_right_ne_nil s hne, hs.trans ht⟩

end Relations

/-! ## Movements -/

section Movements

variable {c d stop : Cursor} {before rest : List Char} {line : Nat}

theorem ahead_cons (before rest : List Char) (line : Nat) (ch : Char) :
    Ahead ⟨before, ch :: rest, line⟩ ⟨ch :: before, rest, lineAfter line ch⟩ :=
  ⟨[ch], List.cons_ne_nil _ _, rfl, rfl, lineAfter_eq line ch⟩

/-- A character that ends no line. -/
theorem ahead_cons_of_ne {ch : Char} (hch : ch ≠ '\n') (before rest : List Char) (line : Nat) :
    Ahead ⟨before, ch :: rest, line⟩ ⟨ch :: before, rest, line⟩ := by
  have hline : lineAfter line ch = line := if_neg hch
  have h := ahead_cons before rest line ch
  rwa [hline] at h

theorem leads_next (c : Cursor) : c.Leads c.next := by
  obtain ⟨before, rest, line⟩ := c
  cases rest with
  | nil => exact .refl _
  | cons ch rest => exact (ahead_cons before rest line ch).leads

theorem ahead_next (hrest : c.rest ≠ []) : c.Ahead c.next := by
  obtain ⟨ch, rest, hcons⟩ := List.exists_cons_of_ne_nil hrest
  exact (leads_next c).ahead (next_lt hcons)

theorem rest_ne_nil_of_head? {ch : Char} (h : c.rest.head? = some ch) : c.rest ≠ [] := by
  intro hnil
  rw [hnil] at h
  cases h

theorem leads_skipFrom (accepts : Char → Bool) (before : List Char) (line : Nat)
    (rest : List Char) :
    Leads ⟨before, rest, line⟩ (skipFrom accepts before line rest) := by
  induction rest generalizing before line with
  | nil => exact .refl _
  | cons ch rest ih =>
    rw [skipFrom]
    split
    · exact (ahead_cons before rest line ch).leads.trans (ih _ _)
    · exact .refl _

theorem leads_skipWhile (accepts : Char → Bool) (c : Cursor) : c.Leads (c.skipWhile accepts) :=
  leads_skipFrom accepts c.before c.line c.rest

theorem leads_skipBlanks (c : Cursor) : c.Leads c.skipBlanks :=
  leads_skipWhile Text.isBlank c

theorem leads_skipTagName (c : Cursor) : c.Leads c.skipTagName :=
  leads_skipWhile isTagChar c

theorem leads_skipSlash (c : Cursor) (isSlash : Bool) : c.Leads (c.skipSlash isSlash) := by
  cases isSlash with
  | false => exact .refl c
  | true => exact leads_next c

theorem leads_closingEnd (c : Cursor) : c.Leads c.closingEnd :=
  (leads_next c).trans ((leads_next _).trans ((leads_skipBlanks _).trans
    ((leads_skipTagName _).trans (leads_skipBlanks _))))

theorem ahead_quotedEnd? {quote : Char} {text : List Char}
    (h : quotedEnd? quote before line rest = some (text, stop)) :
    Ahead ⟨before, rest, line⟩ stop := by
  induction rest generalizing before line text with
  | nil => cases h
  | cons ch rest ih =>
    have hfirst := ahead_cons before rest line ch
    rw [quotedEnd?] at h
    split at h
    · cases h
      exact hfirst
    · obtain ⟨⟨text', stop'⟩, hlater, hpair⟩ := Option.map_eq_some_iff.1 h
      cases hpair
      exact hfirst.trans_leads (ih hlater).leads

/-- A value in quotes ends behind its start. -/
theorem ahead_of_quotedEnd? {quote : Char} {text : List Char}
    (hquote : quote = '"' ∨ quote = '\x27') (hrest : c.rest = quote :: rest)
    (h : quotedEnd? quote (quote :: c.before) c.line rest = some (text, stop)) :
    c.Ahead stop := by
  obtain ⟨before, _, line⟩ := c
  cases hrest
  have hline : quote ≠ '\n' := by
    rcases hquote with rfl | rfl <;> decide
  exact (ahead_cons_of_ne hline before rest line).trans_leads (ahead_quotedEnd? h).leads

theorem ahead_stringEnd? {quote : Char} (h : stringEnd? quote before line rest = some stop) :
    Ahead ⟨before, rest, line⟩ stop := by
  fun_induction stringEnd? quote before line rest with
  | case1 => cases h
  | case2 => cases h
  | case3 before line ch rest ih =>
    have hslash := ahead_cons_of_ne (show '\\' ≠ '\n' by decide) before (ch :: rest) line
    exact hslash.trans_leads ((ahead_cons _ rest line ch).leads.trans (ih h).leads)
  | case4 => cases h
  | case5 =>
    cases h
    exact ahead_cons _ _ _ _
  | case6 =>
    rename_i ih
    exact (ahead_cons _ _ _ _).trans_leads (ih h).leads

theorem ahead_regexEnd? {inClass : Bool} (h : regexEnd? inClass before line rest = some stop) :
    Ahead ⟨before, rest, line⟩ stop := by
  fun_induction regexEnd? inClass before line rest with
  | case1 => cases h
  | case2 => cases h
  | case3 inClass before line ch rest ih =>
    have hslash := ahead_cons_of_ne (show '\\' ≠ '\n' by decide) before (ch :: rest) line
    exact hslash.trans_leads ((ahead_cons _ rest line ch).leads.trans (ih h).leads)
  | case4 => cases h
  | case5 =>
    rename_i hline _
    cases h
    exact ahead_cons_of_ne hline _ _ _
  | case6 =>
    rename_i hline _ ih
    exact (ahead_cons_of_ne hline _ _ _).trans_leads (ih h).leads

theorem leads_blockCommentEnd (before : List Char) (line : Nat) (rest : List Char) :
    Leads ⟨before, rest, line⟩ (blockCommentEnd before line rest) := by
  fun_induction blockCommentEnd before line rest with
  | case1 => exact .refl _
  | case2 before line rest =>
    have hstar := ahead_cons_of_ne (show '*' ≠ '\n' by decide) before ('/' :: rest) line
    have hslash := ahead_cons_of_ne (show '/' ≠ '\n' by decide) ('*' :: before) rest line
    exact hstar.leads.trans hslash.leads
  | case3 before line ch rest _ ih => exact (ahead_cons before rest line ch).leads.trans ih

theorem leads_typeParametersEnd (depth : Nat) (previous : Char) (before : List Char) (line : Nat)
    (rest : List Char) :
    Leads ⟨before, rest, line⟩ (typeParametersEnd depth previous before line rest) := by
  fun_induction typeParametersEnd depth previous before line rest with
  | case1 => exact .refl _
  | case2 _ _ before line rest ih =>
    exact (ahead_cons_of_ne (show '<' ≠ '\n' by decide) before rest line).leads.trans ih
  | case3 _ _ before line ch rest _ hclose =>
    exact (ahead_cons_of_ne (by rw [hclose.1]; decide) before rest line).leads
  | case4 _ _ before line ch rest _ hclose _ ih =>
    exact (ahead_cons_of_ne (by rw [hclose.1]; decide) before rest line).leads.trans ih
  | case5 _ _ before line ch rest _ _ ih => exact (ahead_cons before rest line ch).leads.trans ih

end Movements

end Cursor

/-! ## Steps -/

/-- The place that a step comes to, if something is passed over. -/
def Step.stop? {c : Cursor} : Step c → Option Cursor
  | .pass stop _ | .openBrace stop _ | .closeBrace stop _ => some stop
  | .atEnd | .element | .broken _ => none

theorem Step.lt_of_stop? {c stop : Cursor} {step : Step c} (h : step.stop? = some stop) :
    stop.rest.length < c.rest.length := by
  cases step with
  | pass _ shorter | openBrace _ shorter | closeBrace _ shorter =>
    cases h
    exact shorter
  | atEnd | element | broken => cases h

/-- An element starts with a less-than sign. -/
theorem head?_of_step {c : Cursor} (h : c.step = .element) : c.rest.head? = some '<' := by
  cases begins_of_step h
  rfl

/-- There is something to read at an element. -/
theorem rest_ne_nil_of_step {c : Cursor} (h : c.step = .element) : c.rest ≠ [] :=
  Cursor.rest_ne_nil_of_head? (head?_of_step h)

theorem ne_newline_of_isQuote {ch : Char} (h : isQuote ch = true) : ch ≠ '\n' := by
  rintro rfl
  exact absurd h (by decide)

/-- The place that something which begins leads to, if it is passed over. -/
def Beginning.stop? : Beginning → Option Cursor
  | pass stop | openBrace stop | closeBrace stop => some stop
  | atEnd | element | broken _ => none

theorem Step.stop?_beginning {c : Cursor} (step : Step c) :
    step.beginning.stop? = step.stop? := by
  cases step <;> rfl

/-- What is passed over leads on. -/
theorem Begins.leads {c stop : Cursor} {b : Beginning} (h : Begins c b)
    (hstop : b.stop? = some stop) :
    c.Leads stop := by
  have hfirst {ch : Char} {before rest : List Char} {line : Nat} (hch : ch ≠ '\n') :
      Cursor.Leads ⟨before, ch :: rest, line⟩ ⟨ch :: before, rest, line⟩ :=
    (Cursor.ahead_cons_of_ne hch before rest line).leads
  cases h with
  | atEnd | openString | openRegex | element => cases hstop
  | string hquote hend =>
    cases hstop
    exact (hfirst (ne_newline_of_isQuote hquote)).trans (Cursor.ahead_stringEnd? hend).leads
  | lineComment =>
    cases hstop
    exact (hfirst (by decide)).trans (Cursor.leads_skipWhile _ _)
  | blockComment =>
    cases hstop
    exact (hfirst (by decide)).trans
      ((hfirst (by decide)).trans (Cursor.leads_blockCommentEnd _ _ _))
  | regex _ _ hend =>
    cases hstop
    exact (hfirst (by decide)).trans
      ((Cursor.ahead_regexEnd? hend).leads.trans (Cursor.leads_skipWhile _ _))
  | openBrace | closeBrace =>
    cases hstop
    exact hfirst (by decide)
  | typeParameters =>
    cases hstop
    exact (hfirst (by decide)).trans (Cursor.leads_typeParametersEnd _ _ _ _ _)
  | single =>
    cases hstop
    exact (Cursor.ahead_cons _ _ _ _).leads

/-- A step in script text leads on. -/
theorem leads_step {c stop : Cursor} (h : c.step.stop? = some stop) : c.Leads stop :=
  (begins_of_step rfl).leads ((Step.stop?_beginning c.step).trans h)

/-- A step in script text goes ahead. -/
theorem ahead_step {c stop : Cursor} (h : c.step.stop? = some stop) : c.Ahead stop :=
  (leads_step h).ahead (Step.lt_of_stop? h)

/-- A passable text is passed over from its first place to its last. -/
theorem Passable.passes {s : List Char} (hs : Passable s) {c d : Cursor} (hspans : c.Spans s d)
    (depth : Nat) :
    Passes c depth d depth := by
  obtain ⟨before, rest, line⟩ := c
  obtain ⟨dbefore, drest, dline⟩ := d
  obtain ⟨hbefore, hrest, hline⟩ := hspans
  have hrun := hs before drest line depth
  rwa [← hbefore, ← hrest, ← hline] at hrun

end DesignCompiler.Markup
