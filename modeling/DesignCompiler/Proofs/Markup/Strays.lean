import DesignCompiler.Proofs.Markup.Pairing

/-!
# Closing tags behind the root element

Closing tags are read between the tags of an element only. Behind the root element a source is
script text again, and there a less-than sign in front of a slash begins nothing. So closing tags
that stand directly behind the root are not reported, however many they are (`scanSource_strays`).

Two things can happen to the root. If its name starts with a letter, it is scanned as an element,
and the closing tags behind it are passed over. Otherwise the root is script text too, and all
tags are passed over, one after the other. The only tags that do not end at their own greater-than
sign are self-closing ones whose name ends in a word such as `return` or in a colon: their slash
begins a regular expression, which ends at the slash of a later tag.
-/

namespace DesignCompiler.Markup

open Text (isBlank isNameChar isAlphabetic)

/-! ## Signs and slashes in script text -/

/-- The characters of tags begin nothing. -/
theorem isInert_of_isTagChar {ch : Char} (hch : isTagChar ch = true) : isInert ch = true :=
  isInert_of_class (by decide) hch

theorem beginsNoComment_of_head? {rest : List Char}
    (hhead : ∀ ch ∈ rest.head?, ch ≠ '/' ∧ ch ≠ '*') :
    BeginsNoComment rest :=
  ⟨fun h => (hhead '/' h).1 rfl, fun h => (hhead '*' h).2 rfl⟩

theorem step_slash {before rest : List Char} (line : Nat)
    (hhead : ∀ ch ∈ rest.head?, ch ≠ '/' ∧ ch ≠ '*') (hplace : operandMayFollow before = false) :
    ∃ h, (Cursor.mk before ('/' :: rest) line).step = .pass ⟨'/' :: before, rest, line⟩ h :=
  step_pass (.single (by decide) (fun _ => ⟨beginsNoComment_of_head? hhead, hplace⟩) (by decide)
    (by decide) fun h => absurd h (by decide))

theorem step_regex {before rest : List Char} {line : Nat} {stop : Cursor}
    (hhead : ∀ ch ∈ rest.head?, ch ≠ '/' ∧ ch ≠ '*') (hplace : operandMayFollow before = true)
    (hend : Cursor.regexEnd? false ('/' :: before) line rest = some stop) :
    ∃ h, (Cursor.mk before ('/' :: rest) line).step = .pass (stop.skipWhile isNameChar) h :=
  step_pass (.regex (beginsNoComment_of_head? hhead) hplace hend)

/-- A regular expression goes on over characters that neither end it nor start something in it. -/
theorem regexEnd?_append {s : List Char}
    (hs : ∀ ch ∈ s, ch ≠ '\\' ∧ ch ≠ '\n' ∧ ch ≠ '/' ∧ ch ≠ '[' ∧ ch ≠ ']')
    (before rest : List Char) (line : Nat) :
    Cursor.regexEnd? false before line (s ++ rest) =
      Cursor.regexEnd? false (s.reverse ++ before) line rest := by
  induction s generalizing before with
  | nil => rfl
  | cons ch s ih =>
    obtain ⟨hescape, hbreak, hslash, hopen, hclose⟩ := hs ch List.mem_cons_self
    rw [List.cons_append, Cursor.regexEnd?.eq_4 _ _ _ _ _ (by simp [hescape]) (by simp [hescape])]
    simp only [hbreak, hslash, hopen, hclose, false_and, if_false]
    rw [ih fun d hd => hs d (List.mem_cons_of_mem ch hd)]
    simp

theorem regexEnd?_slash (before rest : List Char) (line : Nat) :
    Cursor.regexEnd? false before line ('/' :: rest) = some ⟨'/' :: before, rest, line⟩ := by
  simp [Cursor.regexEnd?]

/-- The characters of tags and their signs belong to a regular expression that they stand in. -/
theorem of_isTagChar {ch : Char} (hch : isTagChar ch = true) :
    ch ≠ '\\' ∧ ch ≠ '\n' ∧ ch ≠ '/' ∧ ch ≠ '[' ∧ ch ≠ ']' := by
  refine ⟨?_, ?_, ?_, ?_, ?_⟩ <;> rintro rfl <;> exact absurd hch (by decide)

/-! ## Tags in script text -/

/-- Behind the greater-than sign of a tag, which is not that of an arrow. -/
def BehindTag (before : List Char) : Prop :=
  ∃ ch earlier, before = '>' :: ch :: earlier ∧ ch ≠ '='

theorem BehindTag.operandMayFollow_eq {before : List Char} (h : BehindTag before) :
    operandMayFollow before = false := by
  obtain ⟨ch, earlier, rfl, hne⟩ := h
  have hblank : isBlank '>' = false := by decide
  have hopens : opensOperand '>' = false := by decide
  simp [operandMayFollow, hblank, hopens, hne]

/-- No element starts behind a tag. -/
theorem BehindTag.elementMayStart_eq {before : List Char} (h : BehindTag before)
    (rest : List Char) :
    elementMayStart before rest = false := by
  unfold elementMayStart
  rw [h.operandMayFollow_eq]
  split <;> simp

/-- The scan of script text passes from the place to the given rest of the text and comes out
behind a tag. -/
def PassesTags (c : Cursor) (rest : List Char) : Prop :=
  ∃ c', c'.rest = rest ∧ BehindTag c'.before ∧ ∀ depth, Passes c depth c' depth

/-- From the place a regular expression goes on; it ends, and the scan passes on to the given rest
of the text and comes out behind a tag. -/
def RegexPassesTags (c : Cursor) (rest : List Char) : Prop :=
  ∃ stop, Cursor.regexEnd? false c.before c.line c.rest = some stop ∧
    PassesTags (stop.skipWhile isNameChar) rest

section Tags

variable {t : String} {name before rest : List Char} {line : Nat}

theorem passesTags_of_passes {c c' : Cursor} (hrun : ∀ depth, Passes c depth c' depth)
    (h : PassesTags c' rest) :
    PassesTags c rest := by
  obtain ⟨d, hrest, hbehind, hpasses⟩ := h
  exact ⟨d, hrest, hbehind, fun depth => (hrun depth).trans (hpasses depth)⟩

theorem passesTags_of_step {c stop : Cursor} (hstep : ∃ h, c.step = .pass stop h)
    (h : PassesTags stop rest) :
    PassesTags c rest := by
  obtain ⟨_, hstep⟩ := hstep
  exact passesTags_of_passes (fun depth => .pass hstep (.refl stop depth)) h

theorem passesTags_sign {ch : Char} (hne : ch ≠ '=') (earlier : List Char) (rest : List Char)
    (line : Nat) :
    PassesTags ⟨ch :: earlier, '>' :: rest, line⟩ rest := by
  refine passesTags_of_step (step_inert (by decide) (ch :: earlier) rest line) ?_
  exact ⟨_, rfl, ⟨ch, earlier, rfl, hne⟩, fun depth => .refl _ depth⟩

theorem IsTag.exists_reverse (ht : IsTag name) (before : List Char) :
    ∃ ch earlier, name.reverse ++ before = ch :: earlier ∧ ch ≠ '=' := by
  obtain ⟨ch, earlier, hreverse⟩ := List.exists_cons_of_ne_nil (List.reverse_ne_nil_iff.2 ht.1)
  refine ⟨ch, earlier ++ before, by rw [hreverse]; rfl, ?_⟩
  rintro rfl
  have hmem : '=' ∈ name := List.mem_reverse.1 (hreverse ▸ List.mem_cons_self)
  exact absurd (ht.2 '=' hmem) (by decide)

/-- A part of a name with the end of its tag behind it. -/
theorem passesTags_name {ch : Char} {earlier : List Char} (hname : ∀ d ∈ name, isTagChar d = true)
    (hlast : name.reverse ++ before = ch :: earlier) (hne : ch ≠ '=') (rest : List Char)
    (line : Nat) :
    PassesTags ⟨before, name ++ '>' :: rest, line⟩ rest := by
  have hpass := passable_of_inert fun d hd => isInert_of_isTagChar (hname d hd)
  refine passesTags_of_passes (hpass before ('>' :: rest) line) ?_
  rw [hlast]
  exact passesTags_sign hne earlier rest _

/-- Also if the start of the part is skipped as flags. -/
theorem passesTags_flags {ch : Char} {earlier : List Char}
    (hname : ∀ d ∈ name, isTagChar d = true) (hlast : name.reverse ++ before = ch :: earlier)
    (hne : ch ≠ '=') (rest : List Char) (line : Nat) :
    PassesTags (Cursor.skipWhile isNameChar ⟨before, name ++ '>' :: rest, line⟩) rest := by
  induction name generalizing before line with
  | nil =>
    rw [skipWhile_eq_self (by rintro d ⟨⟩; decide)]
    exact passesTags_name hname hlast hne rest line
  | cons d name ih =>
    cases hd : isNameChar d with
    | false =>
      rw [skipWhile_eq_self (by rintro d' ⟨⟩; exact hd)]
      exact passesTags_name hname hlast hne rest line
    | true =>
      have hskip : Cursor.skipWhile isNameChar ⟨before, d :: name ++ '>' :: rest, line⟩ =
          Cursor.skipWhile isNameChar
            ⟨d :: before, name ++ '>' :: rest, Cursor.lineAfter line d⟩ := by
        simp [Cursor.skipWhile, Cursor.skipFrom, hd]
      rw [hskip]
      exact ih (fun d' hd' => hname d' (List.mem_cons_of_mem d hd')) (by simpa using hlast) _

theorem head?_name (ht : IsTag name) (rest : List Char) :
    ∀ ch ∈ (name ++ rest).head?, ch ≠ '/' ∧ ch ≠ '*' := by
  obtain ⟨d, name', rfl⟩ := List.exists_cons_of_ne_nil ht.1
  rintro ch ⟨⟩
  have hd := ht.2 d List.mem_cons_self
  refine ⟨?_, ?_⟩ <;> rintro rfl <;> exact absurd hd (by decide)

theorem passesTags_opening (ht : IsTag t.toList)
    (hstart : elementMayStart before (t.toList ++ '>' :: rest) = false) :
    PassesTags ⟨before, TagEvent.text (.opening t) ++ rest, line⟩ rest := by
  have htext : TagEvent.text (.opening t) ++ rest = '<' :: (t.toList ++ '>' :: rest) := by
    simp [TagEvent.text]
  obtain ⟨ch, earlier, hlast, hne⟩ := ht.exists_reverse ('<' :: before)
  rw [htext]
  exact passesTags_of_step (step_sign line hstart) (passesTags_name ht.2 hlast hne rest line)

/-- A closing tag is passed over wherever it stands. -/
theorem passesTags_closing (ht : IsTag t.toList) (before rest : List Char) (line : Nat) :
    PassesTags ⟨before, TagEvent.text (.closing t) ++ rest, line⟩ rest := by
  have htext : TagEvent.text (.closing t) ++ rest = '<' :: '/' :: (t.toList ++ '>' :: rest) := by
    simp [TagEvent.text]
  have hstart : elementMayStart before ('/' :: (t.toList ++ '>' :: rest)) = false := by
    have hslash : isAlphabetic '/' = false := by decide
    simp [elementMayStart, hslash]
  have hplace : operandMayFollow ('<' :: before) = false := by
    have hblank : isBlank '<' = false := by decide
    have hopens : opensOperand '<' = false := by decide
    have hname : isNameChar '<' = false := by decide
    simp [operandMayFollow, hblank, hopens, hname]
  obtain ⟨ch, earlier, hlast, hne⟩ := ht.exists_reverse ('/' :: '<' :: before)
  rw [htext]
  refine passesTags_of_step (step_sign line hstart) ?_
  refine passesTags_of_step (step_slash line (head?_name ht _) hplace) ?_
  exact passesTags_name ht.2 hlast hne rest line

/-- The slash of a self-closing tag is passed over, or it begins a regular expression. -/
theorem passesTags_selfClosing (ht : IsTag t.toList)
    (hstart : elementMayStart before (t.toList ++ '/' :: '>' :: rest) = false) (line : Nat) :
    PassesTags ⟨before, TagEvent.text (.selfClosing t) ++ rest, line⟩ rest ∨
      ∃ c : Cursor, c.rest = rest ∧ ∀ tail, RegexPassesTags c tail →
        PassesTags ⟨before, TagEvent.text (.selfClosing t) ++ rest, line⟩ tail := by
  have htext : TagEvent.text (.selfClosing t) ++ rest =
      '<' :: (t.toList ++ '/' :: '>' :: rest) := by
    simp [TagEvent.text]
  have hname := passable_of_inert (fun d hd => isInert_of_isTagChar (ht.2 d hd)) ('<' :: before)
    ('/' :: '>' :: rest) line
  have hhead : ∀ ch ∈ ('>' :: rest).head?, ch ≠ '/' ∧ ch ≠ '*' := by
    rintro ch ⟨⟩
    decide
  rw [htext]
  cases hplace : operandMayFollow (t.toList.reverse ++ '<' :: before) with
  | false =>
    refine .inl (passesTags_of_step (step_sign line hstart) (passesTags_of_passes hname ?_))
    exact passesTags_of_step (step_slash _ hhead hplace) (passesTags_sign (by decide) _ rest _)
  | true =>
    refine .inr ⟨⟨'>' :: '/' :: (t.toList.reverse ++ '<' :: before), rest,
      line + Text.newlines t.toList⟩, rfl, ?_⟩
    rintro tail ⟨stop, hend, hpasses⟩
    have hsign :=
      regexEnd?_append (s := ['>']) (by decide) ('/' :: (t.toList.reverse ++ '<' :: before)) rest
        (line + Text.newlines t.toList)
    refine passesTags_of_step (step_sign line hstart) (passesTags_of_passes hname ?_)
    exact passesTags_of_step (step_regex hhead hplace (hsign.trans hend)) hpasses

/-- The name of a tag belongs to a regular expression, and so do the signs around it. -/
theorem regexEnd?_name (ht : IsTag name) (before rest : List Char) (line : Nat) :
    Cursor.regexEnd? false before line ('<' :: (name ++ rest)) =
      Cursor.regexEnd? false (name.reverse ++ '<' :: before) line rest := by
  have hsign := regexEnd?_append (s := ['<']) (by decide) before (name ++ rest) line
  exact hsign.trans (regexEnd?_append (fun ch hch => of_isTagChar (ht.2 ch hch)) ('<' :: before)
    rest line)

/-- A regular expression goes on over an opening tag. -/
theorem regexPassesTags_opening (ht : IsTag t.toList) {c : Cursor} {tail : List Char}
    (hc : c.rest = TagEvent.text (.opening t) ++ rest)
    (h : ∀ d : Cursor, d.rest = rest → RegexPassesTags d tail) : RegexPassesTags c tail := by
  obtain ⟨before, text, line⟩ := c
  obtain rfl : text = '<' :: (t.toList ++ '>' :: rest) := hc.trans (by simp [TagEvent.text])
  obtain ⟨stop, hend, hpasses⟩ := h ⟨'>' :: (t.toList.reverse ++ '<' :: before), rest, line⟩ rfl
  refine ⟨stop, ?_, hpasses⟩
  have hsign :=
    regexEnd?_append (s := ['>']) (by decide) (t.toList.reverse ++ '<' :: before) rest line
  exact (regexEnd?_name ht before ('>' :: rest) line).trans (hsign.trans hend)

/-- A regular expression ends at the slash of a closing tag; the start of the name is taken for
its flags. -/
theorem regexPassesTags_closing (ht : IsTag t.toList) {c : Cursor}
    (hc : c.rest = TagEvent.text (.closing t) ++ rest) :
    RegexPassesTags c rest := by
  obtain ⟨before, text, line⟩ := c
  obtain rfl : text = '<' :: '/' :: (t.toList ++ '>' :: rest) :=
    hc.trans (by simp [TagEvent.text])
  have hsign :=
    regexEnd?_append (s := ['<']) (by decide) before ('/' :: (t.toList ++ '>' :: rest)) line
  refine ⟨_, hsign.trans (regexEnd?_slash ('<' :: before) _ line), ?_⟩
  obtain ⟨ch, earlier, hlast, hne⟩ := ht.exists_reverse ('/' :: '<' :: before)
  exact passesTags_flags ht.2 hlast hne rest line

/-- A regular expression ends at the slash of a self-closing tag. -/
theorem regexPassesTags_selfClosing (ht : IsTag t.toList) {c : Cursor}
    (hc : c.rest = TagEvent.text (.selfClosing t) ++ rest) : RegexPassesTags c rest := by
  obtain ⟨before, text, line⟩ := c
  obtain rfl : text = '<' :: (t.toList ++ '/' :: '>' :: rest) :=
    hc.trans (by simp [TagEvent.text])
  refine ⟨_, (regexEnd?_name ht before ('/' :: '>' :: rest) line).trans
    (regexEnd?_slash _ _ line), ?_⟩
  rw [skipWhile_eq_self (by rintro ch ⟨⟩; decide)]
  exact passesTags_sign (by decide) _ rest line

/-- Tags that end with a closing one are passed over in script text where the first of them starts
no element, and a regular expression in front of them ends in them. The induction is on the tags,
for both at once: a self-closing tag may begin a regular expression, and a regular expression
leaves script text again. -/
theorem passesTags_tagText {w : List TagEvent} (hw : ∀ e ∈ w, IsTag e.tag.toList)
    (ht : IsTag t.toList) (rest : List Char) :
    (∀ before line, elementMayStart before (tagText (w ++ [.closing t]) ++ rest).tail = false →
      PassesTags ⟨before, tagText (w ++ [.closing t]) ++ rest, line⟩ rest) ∧
    ∀ c : Cursor, c.rest = tagText (w ++ [.closing t]) ++ rest → RegexPassesTags c rest := by
  induction w with
  | nil =>
    have htext : tagText ([] ++ [.closing t]) ++ rest = TagEvent.text (.closing t) ++ rest := by
      simp
    rw [htext]
    exact ⟨fun before line _ => passesTags_closing ht before rest line,
      fun c hc => regexPassesTags_closing ht hc⟩
  | cons e w ih =>
    obtain ⟨hscript, hregex⟩ := ih fun d hd => hw d (List.mem_cons_of_mem e hd)
    have he : IsTag e.tag.toList := hw e List.mem_cons_self
    have htext : tagText (e :: w ++ [.closing t]) ++ rest =
        e.text ++ (tagText (w ++ [.closing t]) ++ rest) := by
      rw [List.cons_append, tagText_cons, List.append_assoc]
    rw [htext]
    have hlater {c : Cursor} (h : PassesTags c (tagText (w ++ [.closing t]) ++ rest)) :
        PassesTags c rest := by
      obtain ⟨⟨before, _, line⟩, rfl, hbehind, hpasses⟩ := h
      exact passesTags_of_passes hpasses (hscript before line (hbehind.elementMayStart_eq _))
    have hlaterRegex {c : Cursor} (h : RegexPassesTags c (tagText (w ++ [.closing t]) ++ rest)) :
        RegexPassesTags c rest := by
      obtain ⟨stop, hend, hpasses⟩ := h
      exact ⟨stop, hend, hlater hpasses⟩
    cases e with
    | opening t' =>
      refine ⟨fun before line hstart => hlater (passesTags_opening he ?_), fun c hc =>
        regexPassesTags_opening he hc hregex⟩
      simpa [TagEvent.text] using hstart
    | closing t' =>
      exact ⟨fun before line _ => hlater (passesTags_closing he before _ line), fun c hc =>
        hlaterRegex (regexPassesTags_closing he hc)⟩
    | selfClosing t' =>
      refine ⟨fun before line hstart => ?_,
        fun c hc => hlaterRegex (regexPassesTags_selfClosing he hc)⟩
      have hstart' : elementMayStart before
          (t'.toList ++ '/' :: '>' :: (tagText (w ++ [.closing t]) ++ rest)) = false := by
        simpa [TagEvent.text] using hstart
      rcases passesTags_selfClosing he hstart' line with hpasses | ⟨c, hc, hpasses⟩
      · exact hlater hpasses
      · exact hpasses rest (hregex c hc)

end Tags

/-! ## Sources with closing tags behind the root -/

/-- The tags are those of one element, with at most so many of them around any place. -/
inductive SingleRooted : Nat → List TagEvent → Prop where
  | selfClosing {n : Nat} (t : String) : SingleRooted (n + 1) [.selfClosing t]
  | element {n : Nat} {v : List TagEvent} (t : String) (hv : NestedWithin n v) :
      SingleRooted (n + 1) (.opening t :: (v ++ [.closing t]))

/-- Closing tags of the given names. -/
def closings (names : List String) : List TagEvent :=
  names.map .closing

/-- The source of a component that returns the given tags. -/
def taggedSource (w : List TagEvent) : String :=
  String.ofList (rootPrefix ++ (tagText w ++ [')', ';']))

section Strays

variable {e : List TagEvent} {strays : List String} {text : List Char} {t : String}

theorem passes_closings (hstrays : ∀ t ∈ strays, IsTag t.toList) (before rest : List Char)
    (line : Nat) :
    ∃ c', c'.rest = rest ∧
      ∀ depth, Passes ⟨before, tagText (closings strays) ++ rest, line⟩ depth c' depth := by
  induction strays generalizing before line with
  | nil => exact ⟨_, rfl, fun depth => .refl _ depth⟩
  | cons t strays ih =>
    have htext : tagText (closings (t :: strays)) ++ rest =
        TagEvent.text (.closing t) ++ (tagText (closings strays) ++ rest) := by
      simp [closings]
    obtain ⟨⟨before', _, line'⟩, rfl, -, hfirst⟩ :=
      passesTags_closing (hstrays t List.mem_cons_self) before
        (tagText (closings strays) ++ rest) line
    obtain ⟨c', hrest, hlater⟩ :=
      ih (fun t' ht' => hstrays t' (List.mem_cons_of_mem t ht')) before' line'
    rw [htext]
    exact ⟨c', hrest, fun depth => (hfirst depth).trans (hlater depth)⟩

/-- The root of the source is met as an element if its name starts with a letter. -/
theorem step_root (ht : IsTag t.toList) (hletter : ∀ d ∈ t.toList.head?, isAlphabetic d = true)
    {ch : Char} (hch : ch = '>' ∨ ch = '/') (rest : List Char) (line : Nat) :
    (Cursor.mk rootPrefix.reverse ('<' :: (t.toList ++ ch :: rest)) line).step = .element := by
  refine step_element line ?_
    (startsTypeParameters_openingTag ht.2 (List.forall_mem_nil _) (fun _ _ h => nomatch h)
      (List.forall_mem_nil _) hch rest)
  obtain ⟨d, name, hname⟩ := List.exists_cons_of_ne_nil ht.1
  have hd : isAlphabetic d = true := hletter d (by rw [hname]; rfl)
  have hplace : operandMayFollow rootPrefix.reverse = true := by decide
  simp only [hname, List.cons_append, elementMayStart, hd, hplace, Bool.true_or, Bool.and_self]

/-- A name that starts with no letter is not met as an element. -/
theorem elementMayStart_of_not_letter (ht : IsTag t.toList)
    (hletter : ¬ ∀ d ∈ t.toList.head?, isAlphabetic d = true) (before rest : List Char) :
    elementMayStart before (t.toList ++ rest) = false := by
  obtain ⟨d, name, hname⟩ := List.exists_cons_of_ne_nil ht.1
  have htag : isTagChar d = true := ht.2 d (by rw [hname]; exact List.mem_cons_self)
  have hsign : d ≠ '>' := by
    rintro rfl
    exact absurd htag (by decide)
  have hd : isAlphabetic d = false := by
    rw [Bool.eq_false_iff]
    intro hd
    refine hletter fun d' hd' => ?_
    rw [hname] at hd'
    obtain rfl := Option.some.inj hd'
    exact hd
  simp [elementMayStart, hname, hd, hsign]

/-- A root element whose name starts with a letter is read without a report, up to what stands
behind it. -/
theorem yields_singleRooted (he : SingleRooted maxNesting e)
    (hnames : ∀ d ∈ e, IsTag d.tag.toList) {c : Cursor} (rest : List Char)
    (hc : c.rest = tagText e ++ rest) :
    ∃ found stop, Yields (scanElement maxNesting [] c) () found stop ∧ found.Clean ∧
      stop.rest = rest := by
  generalize hn : maxNesting = n at he ⊢
  cases he with
  | @selfClosing n t =>
    have ht : IsTag t.toList := hnames _ List.mem_cons_self
    rw [tagText_cons, tagText_nil, List.append_nil] at hc
    obtain ⟨e, stop, hstop, hyields⟩ := yields_selfClosingEvent (scanElement n) [] ht hc
    exact ⟨_, stop, hyields, Findings.clean_element e, hstop⟩
  | @element n v t hv =>
    have ht : IsTag t.toList := hnames _ List.mem_cons_self
    have hc : c.rest = TagEvent.text (.opening t) ++
        (tagText v ++ (TagEvent.text (.closing t) ++ rest)) := by
      simp [hc]
    obtain ⟨e, d, bound, hd, hdrest, hyields, -⟩ :=
      scanElementWith_openingEvent (scanElement n) [] ht hc
    have hinside : GoesOn n n ([] ++ [t]) t bound d _ :=
      goesOn_nested hv (fun d hd => hnames d (by simp [hd])) hdrest
    rcases hinside with ⟨hlt, -⟩ | ⟨d', found, f, hrest', hfound, hf, hscan⟩
    · exact absurd hlt (Nat.lt_irrefl n)
    · obtain ⟨hname, hend⟩ := closing_of_rest ht.2 hrest'
      have hown := hscan.yields (fun _ => scanChildren_own _ _ hrest' hend hname _) hd
      have helement := hyields _ _ _ hown
      rw [Findings.missingClose, hf, if_pos rfl, Findings.append_none,
        Findings.append_none] at helement
      exact ⟨_, _, helement, (Findings.clean_element _).append hfound, by simp [hend]⟩

/-- The tags of one element start with those of its name. -/
theorem SingleRooted.exists_text {n : Nat} (he : SingleRooted n e) :
    ∃ (d : TagEvent) (ch : Char) (rest : List Char), d ∈ e ∧ (ch = '>' ∨ ch = '/') ∧
      tagText e = '<' :: (d.tag.toList ++ ch :: rest) := by
  cases he with
  | selfClosing t =>
    exact ⟨_, '/', ['>'], List.mem_cons_self, .inr rfl, by simp [TagEvent.text, TagEvent.tag]⟩
  | element t hv =>
    exact ⟨_, '>', _, List.mem_cons_self, .inl rfl, by simp [TagEvent.text, TagEvent.tag]; rfl⟩

/-- **Closing tags behind the root are not reported.** Whatever element is returned, with at most
as much nesting as is followed, and however many closing tags stand directly behind it: the source
is taken apart, and it has no closing tags without an open one, and no open tags without a closing
one either. -/
theorem scanSource_strays (he : SingleRooted maxNesting e) (hnames : ∀ d ∈ e, IsTag d.tag.toList)
    (hstrays : ∀ t ∈ strays, IsTag t.toList) (hne : strays ≠ []) :
    ∃ found, scanSource (rootPrefix ++ (tagText (e ++ closings strays) ++ [')', ';'])) =
      .ok found ∧ found.Clean := by
  have hprefix : Passable rootPrefix := passable_of_inert (by decide)
  have hsuffix : Passable [')', ';'] := passable_of_inert (by decide)
  have hrun := hprefix [] (tagText (e ++ closings strays) ++ [')', ';']) 1 0
  rw [List.append_nil] at hrun
  obtain ⟨d, ch, rest, hd, hch, htext⟩ := he.exists_text
  have htag : IsTag d.tag.toList := hnames d hd
  have hroot : tagText (e ++ closings strays) ++ [')', ';'] =
      '<' :: (d.tag.toList ++ ch :: (rest ++ (tagText (closings strays) ++ [')', ';']))) := by
    rw [tagText_append, htext]
    simp
  by_cases hletter : ∀ ch ∈ d.tag.toList.head?, isAlphabetic ch = true
  · have hstep := step_root htag hletter hch (rest ++ (tagText (closings strays) ++ [')', ';']))
      (1 + Text.newlines rootPrefix)
    rw [← hroot] at hstep
    obtain ⟨found, ⟨before, _, line⟩, hyields, hclean, rfl⟩ :=
      yields_singleRooted he hnames
        (c := ⟨rootPrefix.reverse, tagText (e ++ closings strays) ++ [')', ';'], _⟩)
        (tagText (closings strays) ++ [')', ';']) (by simp)
    obtain ⟨⟨before', _, line'⟩, rfl, hpasses⟩ := passes_closings hstrays before [')', ';'] line
    refine ⟨found, ?_, hclean⟩
    exact scanSource_element hrun hstep (by simp) hyields
      ((hpasses 0).trans (hsuffix before' [] line' 0)) rfl
  · have hstart : elementMayStart rootPrefix.reverse
        (tagText (e ++ closings strays) ++ [')', ';']).tail = false := by
      rw [hroot]
      exact elementMayStart_of_not_letter htag hletter _ _
    obtain ⟨before, last, rfl⟩ : ∃ before last, strays = before ++ [last] :=
      ⟨_, _, (List.dropLast_concat_getLast hne).symm⟩
    have hlast : e ++ closings (before ++ [last]) =
        (e ++ closings before) ++ [.closing last] := by simp [closings]
    have hall : ∀ d ∈ e ++ closings before, IsTag d.tag.toList := by
      intro d hd
      rcases List.mem_append.1 hd with hd | hd
      · exact hnames d hd
      · obtain ⟨t, ht, rfl⟩ := List.mem_map.1 hd
        exact hstrays t (List.mem_append_left _ ht)
    rw [hlast] at hrun hstart ⊢
    obtain ⟨⟨before', _, line'⟩, rfl, -, hpasses⟩ :=
      (passesTags_tagText hall (hstrays last (by simp)) [')', ';']).1 _
        (1 + Text.newlines rootPrefix) hstart
    refine ⟨.none, ?_, Findings.clean_none⟩
    exact scanSource_of_passes_atEnd (hrun.trans ((hpasses 0).trans (hsuffix before' [] line' 0)))
      rfl

end Strays

end DesignCompiler.Markup
