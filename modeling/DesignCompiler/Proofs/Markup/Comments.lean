import DesignCompiler.Proofs.Markup.Lookahead
import DesignCompiler.Proofs.Markup.Lookback
import DesignCompiler.Proofs.Markup.Sources

/-!
# Comments in script text

A comment in script text that is in no element is passed over at once, and blanks instead of it
are passed over one by one. `Lookahead` says that the scan comes to the one as it comes to the
other, and `Lookback` that it goes on behind the one as behind the other, unless the next
character that is not blank asks for the token in front of it. Then the characters of the comment
are taken for that token, so `ofText_blankOut` asks that they answer as the text in front of the
comment does. It also asks for something else than the comment and blanks, since a text of blanks
is no source.
-/

namespace DesignCompiler.Markup

open Text (isBlank isNameChar newlines)

/-- A comment in front of the given text: up to the end of its line, or up to the sign that ends
it. -/
inductive IsComment : List Char → List Char → Prop where
  | line (body behind : List Char) (hbody : '\n' ∉ body)
      (hbehind : ∀ ch ∈ behind.head?, ch = '\n') :
      IsComment ('/' :: '/' :: body) behind
  | block (body behind : List Char) (hbody : ¬ ['*', '/'] <:+: body) :
      IsComment ('/' :: '*' :: (body ++ ['*', '/'])) behind

/-- The text with a space in place of every character that ends no line. -/
def blankOut (s : List Char) : List Char :=
  s.map fun ch => if ch = '\n' then ch else ' '

/-- The scan of a text comes to the place between two parts of it, which is in script text and in
no element. -/
def StandsBetween (before behind : List Char) : Prop :=
  ∃ line depth found, (Turn.goesOn (.start (before ++ behind))).Becomes maxNesting
    (.goesOn ⟨⟨before.reverse, behind, line⟩, .script none depth found, []⟩)

/-- The elements of a source and its tags that do not pair. -/
def Structure.tags (s : Structure) : List Element × List (String × Nat) × List (String × Nat) :=
  (s.elements, s.unclosed, s.unexpectedClosings)

/-! ## Script text that is passed over, turn by turn -/

section Turns

variable {limit depth depth' line : Nat} {c c' stop : Cursor} {found : Findings}
  {before behind comment : List Char}

/-- The scan of script text comes to every place that it passes to. -/
theorem becomes_of_passes (limit : Nat) (found : Findings) (hrun : Passes c depth c' depth') :
    (Turn.goesOn ⟨c, .script none depth found, []⟩).Becomes limit
      (.goesOn ⟨c', .script none depth' found, []⟩) := by
  induction hrun with
  | refl c depth => exact .refl _
  | @pass c stop _ depth _ _ hstep _ ih =>
    have hturn : Reading.turn limit ⟨c, .script none depth found, []⟩ =
        .goesOn ⟨stop, .script none depth found, []⟩ := by
      simp only [Reading.turn, Turn.script, hstep]
    exact .goesOn (hturn ▸ ih)
  | @openBrace c stop _ depth _ _ hstep _ ih =>
    have hturn : Reading.turn limit ⟨c, .script none depth found, []⟩ =
        .goesOn ⟨stop, .script none (depth + 1) found, []⟩ := by
      simp only [Reading.turn, Turn.script, hstep]
    exact .goesOn (hturn ▸ ih)
  | @closeBrace c stop _ depth _ _ hstep _ ih =>
    have hturn : Reading.turn limit ⟨c, .script none (depth + 1) found, []⟩ =
        .goesOn ⟨stop, .script none depth found, []⟩ := by
      simp only [Reading.turn, Turn.script, hstep]
    exact .goesOn (hturn ▸ ih)

theorem run_of_passes (limit : Nat) (found : Findings) (hrun : Passes c depth c' depth') :
    Reading.run limit ⟨c, .script none depth found, []⟩ =
      Reading.run limit ⟨c', .script none depth' found, []⟩ :=
  (becomes_of_passes limit found hrun).result_eq

theorem run_atEnd (limit : Nat) (before : List Char) (line depth : Nat) (found : Findings) :
    Reading.run limit ⟨⟨before, [], line⟩, .script none depth found, []⟩ = .ok found := by
  rw [Reading.run_eq]
  rfl

theorem passes_of_begins (hbegins : Begins c (.pass stop)) (depth : Nat) :
    Passes c depth stop depth := by
  obtain ⟨_, hstep⟩ := step_pass hbegins
  exact .pass hstep (.refl stop depth)

/-! ## Comments -/

/-- A block comment ends at its first closing sign. -/
theorem blockCommentEnd_append {body : List Char} (hbody : ¬ ['*', '/'] <:+: body)
    (before behind : List Char) (line : Nat) :
    Cursor.blockCommentEnd before line (body ++ '*' :: '/' :: behind) =
      ⟨'/' :: '*' :: (body.reverse ++ before), behind, line + newlines body⟩ := by
  induction body generalizing before line with
  | nil => rfl
  | cons ch body ih =>
    have hlater : ¬ ['*', '/'] <:+: body :=
      fun h => hbody (h.trans (List.suffix_cons ch body).isInfix)
    have hopen (more : List Char) (hstar : ch = '*')
        (hmore : body ++ '*' :: '/' :: behind = '/' :: more) : False := by
      subst hstar
      cases body with
      | nil => cases hmore
      | cons next body =>
        cases hmore
        exact hbody ⟨[], body, rfl⟩
    have hline : Cursor.lineAfter line ch + newlines body = line + newlines (ch :: body) := by
      rw [lineAfter_eq, Nat.add_assoc, ← newlines_append, List.singleton_append]
    rw [List.cons_append, Cursor.blockCommentEnd.eq_3 _ _ _ _ hopen, ih hlater, hline]
    simp

/-- A comment is passed over. -/
theorem passes_comment (hcomment : IsComment comment behind) (before : List Char)
    (line depth : Nat) :
    Passes ⟨before, comment ++ behind, line⟩ depth
      ⟨comment.reverse ++ before, behind, line + newlines comment⟩ depth := by
  refine passes_of_begins ?_ depth
  cases hcomment with
  | line body _ hbody hbehind =>
    have haccepts : ∀ ch ∈ '/' :: body, decide (ch ≠ '\n') = true := by
      intro ch hch
      rcases List.mem_cons.1 hch with rfl | hmem
      · decide
      · exact decide_eq_true fun heq => hbody (heq ▸ hmem)
    have hend : ∀ ch ∈ behind.head?, decide (ch ≠ '\n') = false := by
      intro ch hch
      simp [hbehind ch hch]
    have hskip : Cursor.skipWhile (· ≠ '\n') ⟨'/' :: before, '/' :: (body ++ behind), line⟩ =
        ⟨('/' :: body).reverse ++ '/' :: before, behind, line + newlines ('/' :: body)⟩ := by
      rw [Cursor.skipWhile, ← List.cons_append, skipFrom_append haccepts]
      exact skipWhile_eq_self (c := ⟨_, behind, _⟩) hend
    have hbegins : Begins ⟨before, '/' :: '/' :: (body ++ behind), line⟩ _ := .lineComment
    rw [hskip] at hbegins
    simpa [newlines] using hbegins
  | block body _ hbody =>
    have hend := blockCommentEnd_append hbody ('*' :: '/' :: before) behind line
    have hbegins : Begins ⟨before, '/' :: '*' :: (body ++ '*' :: '/' :: behind), line⟩ _ :=
      .blockComment
    rw [hend] at hbegins
    simpa [newlines] using hbegins

theorem newlines_blankOut (s : List Char) : newlines (blankOut s) = newlines s := by
  induction s with
  | nil => rfl
  | cons ch s ih =>
    unfold newlines blankOut at ih ⊢
    rw [List.map_cons, List.count_cons, List.count_cons, ih]
    by_cases hch : ch = '\n' <;> simp [hch]

theorem isBlank_of_mem_blankOut {s : List Char} {ch : Char} (hch : ch ∈ blankOut s) :
    isBlank ch = true := by
  obtain ⟨d, -, rfl⟩ := List.mem_map.1 hch
  split
  · rename_i hd
    rw [hd]
    decide
  · decide

/-- Blanks instead of a text are passed over. -/
theorem passes_blankOut (s before behind : List Char) (line depth : Nat) :
    Passes ⟨before, blankOut s ++ behind, line⟩ depth
      ⟨(blankOut s).reverse ++ before, behind, line + newlines s⟩ depth := by
  rw [← newlines_blankOut s]
  exact passable_of_inert (fun ch hch => isInert_of_isBlank (isBlank_of_mem_blankOut hch)) before
    behind line depth

/-! ## Behind a comment -/

/-- Where no operand may follow, a slash or a less-than sign that asks for one is passed over
alone. -/
theorem begins_of_no_operand (hlooks : looksBack c.rest = true)
    (hback : operandMayFollow c.before = false) :
    Begins c (.pass c.next) := by
  obtain ⟨before, rest, line⟩ := c
  have hstart (rest : List Char) : elementMayStart before rest = false := by
    unfold elementMayStart
    rw [show operandMayFollow before = false from hback]
    split <;> simp
  cases rest with
  | nil => cases hlooks
  | cons ch rest =>
    simp only [looksBack] at hlooks
    split at hlooks
    · rename_i heq
      obtain ⟨rfl, rfl⟩ := List.cons.inj heq
      simp only [Bool.and_eq_true, bne_iff_ne, ne_eq] at hlooks
      exact .single (by decide) (fun _ => ⟨hlooks, hback⟩) (by decide) (by decide)
        fun h => absurd h (by decide)
    · rename_i heq
      obtain ⟨rfl, rfl⟩ := List.cons.inj heq
      exact .single (by decide) (fun h => absurd h (by decide)) (by decide) (by decide)
        fun _ => hstart _
    · cases hlooks

section Behind

variable {earlier earlier' blanks : List Char}

theorem operandMayFollow_blanks (hblanks : ∀ ch ∈ blanks, isBlank ch = true)
    (earlier : List Char) :
    operandMayFollow (blanks ++ earlier) = operandMayFollow earlier := by
  unfold operandMayFollow
  rw [List.dropWhile_append_of_pos hblanks]

theorem operandMayFollow_of_blanks (hblanks : ∀ ch ∈ blanks, isBlank ch = true) :
    operandMayFollow blanks = true := by
  rw [← List.append_nil blanks, operandMayFollow_blanks hblanks]
  rfl

/-- Behind a text that does not ask for the token in front of it, or that an operand may follow,
the scan goes on as at the start of a source. -/
theorem run_operand (limit : Nat) (hearlier : EndsToken earlier)
    (hblanks : ∀ ch ∈ blanks, isBlank ch = true)
    (hbehind : ∀ ch ∈ behind.head?, isBlank ch = false)
    (hback : looksBack behind = true → operandMayFollow earlier = true) (line depth : Nat)
    (found : Findings) :
    Reading.run limit ⟨⟨blanks ++ earlier, behind, line⟩, .script none depth found, []⟩ =
      Reading.run limit ⟨⟨blanks, behind, line⟩, .script none depth found, []⟩ := by
  refine run_onto_of_turn (s := ⟨⟨blanks, behind, line⟩, .script none depth found, []⟩) hearlier
    (fun hlooks => ?_) ?_
  · show operandMayFollow (blanks ++ earlier) = operandMayFollow blanks
    rw [operandMayFollow_blanks hblanks, hback hlooks, operandMayFollow_of_blanks hblanks]
  · intro next hturn
    have hmoves := moves_turn limit ⟨⟨blanks, behind, line⟩, .script none depth found, []⟩
    rw [hturn] at hmoves
    cases hmoves with
    | leaves hloop => cases hloop
    | ahead hahead =>
      obtain ⟨text, hne, htext⟩ := hahead
      obtain ⟨ch, more, rfl⟩ := List.exists_cons_of_ne_nil hne
      have hrest : behind = ch :: (more ++ next.cursor.rest) := htext.rest
      refine ⟨ch, ?_, hbehind ch (by rw [hrest]; rfl)⟩
      rw [htext.before]
      simp

/-- Behind a text that no operand may follow, a character that asks for one is passed over
alone. -/
theorem run_no_operand (limit : Nat) (hearlier : EndsToken earlier)
    (hblanks : ∀ ch ∈ blanks, isBlank ch = true)
    (hbehind : ∀ ch ∈ behind.head?, isBlank ch = false) (hlooks : looksBack behind = true)
    (hback : operandMayFollow earlier = false) (line depth : Nat) (found : Findings) :
    Reading.run limit ⟨⟨blanks ++ earlier, behind, line⟩, .script none depth found, []⟩ =
      Reading.run limit ⟨Cursor.next ⟨blanks, behind, line⟩, .script none depth found, []⟩ := by
  have hbegins : Begins ⟨blanks ++ earlier, behind, line⟩
      (.pass (Cursor.next ⟨blanks ++ earlier, behind, line⟩)) :=
    begins_of_no_operand hlooks ((operandMayFollow_blanks hblanks earlier).trans hback)
  have hnext : Cursor.next ⟨blanks ++ earlier, behind, line⟩ =
      (Cursor.next ⟨blanks, behind, line⟩).onto earlier :=
    Cursor.next_onto earlier ⟨blanks, behind, line⟩
  rw [run_of_passes limit found (passes_of_begins hbegins depth), hnext]
  refine run_onto (s := ⟨Cursor.next ⟨blanks, behind, line⟩, .script none depth found, []⟩)
    hearlier ?_
  cases behind with
  | nil => cases hlooks
  | cons ch behind => exact ⟨ch, List.mem_cons_self, hbehind ch rfl⟩

/-- The scan goes on in the same way behind two texts and blanks, if both answer the same where
the next character asks for the token in front of it. -/
theorem run_behind_blanks (limit : Nat) (hearlier : EndsToken earlier)
    (hearlier' : EndsToken earlier') (hblanks : ∀ ch ∈ blanks, isBlank ch = true)
    (hbehind : ∀ ch ∈ behind.head?, isBlank ch = false)
    (hback : looksBack behind = true → operandMayFollow earlier = operandMayFollow earlier')
    (line depth : Nat) (found : Findings) :
    Reading.run limit ⟨⟨blanks ++ earlier, behind, line⟩, .script none depth found, []⟩ =
      Reading.run limit ⟨⟨blanks ++ earlier', behind, line⟩, .script none depth found, []⟩ := by
  by_cases hno : looksBack behind = true ∧ operandMayFollow earlier = false
  · obtain ⟨hlooks, hno⟩ := hno
    rw [run_no_operand limit hearlier hblanks hbehind hlooks hno,
      run_no_operand limit hearlier' hblanks hbehind hlooks ((hback hlooks).symm.trans hno)]
  · have hyes (hlooks : looksBack behind = true) : operandMayFollow earlier = true :=
      (Bool.not_eq_false _).mp fun hfalse => hno ⟨hlooks, hfalse⟩
    rw [run_operand limit hearlier hblanks hbehind hyes,
      run_operand limit hearlier' hblanks hbehind
        fun hlooks => (hback hlooks).symm.trans (hyes hlooks)]

theorem run_behind (limit : Nat) (hearlier : EndsToken earlier) (hearlier' : EndsToken earlier')
    (hback : looksBack (behind.dropWhile isBlank) = true →
      operandMayFollow earlier = operandMayFollow earlier')
    (line depth : Nat) (found : Findings) :
    Reading.run limit ⟨⟨earlier, behind, line⟩, .script none depth found, []⟩ =
      Reading.run limit ⟨⟨earlier', behind, line⟩, .script none depth found, []⟩ := by
  have hblanks : ∀ ch ∈ behind.takeWhile isBlank, isBlank ch = true :=
    fun ch hch => List.mem_takeWhile_imp hch
  have hpass := passable_of_inert fun ch hch => isInert_of_isBlank (hblanks ch hch)
  have hrun (before : List Char) :=
    run_of_passes limit found (hpass before (behind.dropWhile isBlank) line depth)
  rw [List.takeWhile_append_dropWhile] at hrun
  rw [hrun, hrun]
  have hhead : ∀ ch ∈ (behind.dropWhile isBlank).head?, isBlank ch = false := by
    intro ch hch
    have hnot := List.head?_dropWhile_not isBlank behind
    rw [hch] at hnot
    simpa using hnot
  exact run_behind_blanks limit hearlier hearlier'
    (fun ch hch => hblanks ch (List.mem_reverse.1 hch)) hhead hback _ _ _

end Behind

/-- **The scan goes on behind a comment as behind blanks instead of it**, unless the next
character that is not blank asks for the token in front of it, and the comment answers otherwise
than the text in front of it does. -/
theorem run_blankOut (limit : Nat) (hcomment : IsComment comment behind)
    (hback : looksBack (behind.dropWhile isBlank) = true →
      operandMayFollow (comment.reverse ++ before) = operandMayFollow before) (line depth : Nat)
    (found : Findings) :
    Reading.run limit ⟨⟨before, blankOut comment ++ behind, line⟩, .script none depth found, []⟩ =
      Reading.run limit ⟨⟨before, comment ++ behind, line⟩, .script none depth found, []⟩ := by
  rw [run_of_passes limit found (passes_blankOut comment before behind line depth),
    run_of_passes limit found (passes_comment hcomment before line depth)]
  have hback' : looksBack (behind.dropWhile isBlank) = true →
      operandMayFollow ((blankOut comment).reverse ++ before) =
        operandMayFollow (comment.reverse ++ before) := by
    intro hlooks
    rw [hback hlooks, operandMayFollow_blanks
      fun ch hch => isBlank_of_mem_blankOut (List.mem_reverse.1 hch)]
  cases hcomment with
  | block body _ hbody =>
    refine run_behind limit ?_ ?_ hback' _ _ _
    · have hlast : (blankOut ('/' :: '*' :: (body ++ ['*', '/']))).reverse =
          ' ' :: ' ' :: (blankOut body).reverse ++ [' ', ' '] := by
        simp [blankOut]
      rw [hlast]
      rintro ch ⟨⟩
      decide
    · have hlast : ('/' :: '*' :: (body ++ ['*', '/'])).reverse =
          '/' :: '*' :: body.reverse ++ ['*', '/'] := by simp
      rw [hlast]
      rintro ch ⟨⟩
      decide
  | line body _ hbody hbehind =>
    cases behind with
    | nil => rw [run_atEnd, run_atEnd]
    | cons ch behind =>
      obtain rfl := hbehind ch rfl
      have hbreak := passable_of_inert (s := ['\n']) (by decide)
      have hrun (before : List Char) (line : Nat) :=
        run_of_passes limit found (hbreak before behind line depth)
      have hends (before : List Char) : EndsToken ('\n' :: before) := by
        rintro ch ⟨⟩
        decide
      have hblank : ∀ ch ∈ ['\n'], isBlank ch = true := by decide
      have hanswer (before : List Char) :
          operandMayFollow ('\n' :: before) = operandMayFollow before :=
        operandMayFollow_blanks hblank before
      refine (hrun _ _).trans (Eq.trans ?_ (hrun _ _).symm)
      refine run_behind limit (hends _) (hends _) (fun hlooks => ?_) _ _ _
      exact (hanswer _).trans ((hback' hlooks).trans (hanswer _).symm)

end Turns

/-! ## Sources with a comment -/

section Sources

variable {before behind comment : List Char}

theorem IsComment.startsComment (hcomment : IsComment comment behind) :
    StartsComment (comment ++ behind) := by
  cases hcomment with
  | line => exact ⟨'/', _, rfl, .inl rfl⟩
  | block => exact ⟨'*', _, rfl, .inr rfl⟩

theorem IsComment.separates_blankOut (hcomment : IsComment comment behind) :
    Separates (blankOut comment ++ behind) := by
  cases hcomment <;> exact .inr rfl

/-- Blanks instead of a comment change nothing in what a scan comes to. -/
theorem scanSource_blankOut (hplace : StandsBetween before (comment ++ behind))
    (hcomment : IsComment comment behind)
    (hback : looksBack (behind.dropWhile isBlank) = true →
      operandMayFollow (comment.reverse ++ before.reverse) = operandMayFollow before.reverse) :
    scanSource (before ++ (blankOut comment ++ behind)) =
      scanSource (before ++ (comment ++ behind)) := by
  obtain ⟨line, depth, found, hcomes⟩ := hplace
  have hinstead : (Turn.goesOn (.start (before ++ (blankOut comment ++ behind)))).Becomes
      maxNesting
      (.goesOn ⟨⟨before.reverse, blankOut comment ++ behind, line⟩, .script none depth found,
        []⟩) :=
    becomes_extend maxNesting (s := .start before) hcomment.startsComment
      hcomment.separates_blankOut rfl hcomes
  calc scanSource (before ++ (blankOut comment ++ behind))
      = (Reading.start (before ++ (blankOut comment ++ behind))).run maxNesting :=
    (run_start maxNesting _).symm
    _ = Reading.run maxNesting
          ⟨⟨before.reverse, blankOut comment ++ behind, line⟩, .script none depth found, []⟩ :=
      hinstead.result_eq
    _ = Reading.run maxNesting
          ⟨⟨before.reverse, comment ++ behind, line⟩, .script none depth found, []⟩ :=
      run_blankOut maxNesting hcomment hback line depth found
    _ = (Reading.start (before ++ (comment ++ behind))).run maxNesting := hcomes.result_eq.symm
    _ = scanSource (before ++ (comment ++ behind)) := run_start maxNesting _

/-- **Comments do not change what is found in a source.** Wherever the scan comes to a comment in
script text that is in no element, spaces in place of its characters leave the elements, the tags
that do not pair and the failure of the source as they are. Something else than blanks has to
stand in the source; and if the next character that is not blank asks for the token in front of
it, the characters of the comment have to answer as the text in front of it does. -/
theorem ofText_blankOut (hplace : StandsBetween before (comment ++ behind))
    (hcomment : IsComment comment behind) (hmore : ∃ ch ∈ before ++ behind, isBlank ch = false)
    (hback : looksBack (behind.dropWhile isBlank) = true →
      operandMayFollow (comment.reverse ++ before.reverse) = operandMayFollow before.reverse) :
    (Structure.ofText (String.ofList (before ++ (blankOut comment ++ behind)))).map
      Structure.tags =
      (Structure.ofText (String.ofList (before ++ (comment ++ behind)))).map Structure.tags := by
  have hslash : '/' ∈ before ++ (comment ++ behind) := by
    cases hcomment <;> simp
  obtain ⟨ch, hmem, hch⟩ := hmore
  have hkept : ch ∈ before ++ (blankOut comment ++ behind) := by
    simp only [List.mem_append] at hmem ⊢
    exact hmem.imp_right .inr
  rw [ofText_of_scanSource hkept hch, ofText_of_scanSource hslash (by decide),
    scanSource_blankOut hplace hcomment hback]
  cases scanSource (before ++ (comment ++ behind)) <;> rfl

theorem standsBetween_of_inert (hbefore : ∀ ch ∈ before, isInert ch = true) (behind : List Char) :
    StandsBetween before behind := by
  have hrun := becomes_of_passes maxNesting .none (passable_of_inert hbefore [] behind 1 0)
  rw [List.append_nil] at hrun
  exact ⟨_, 0, .none, hrun⟩

theorem ofText_blankOut_return :
    StandsBetween "return ".toList ("/* c */".toList ++ " (<b/>);".toList) ∧
      IsComment "/* c */".toList " (<b/>);".toList ∧
      (Structure.ofText (String.ofList
          ("return ".toList ++ (blankOut "/* c */".toList ++ " (<b/>);".toList)))).map
        Structure.tags =
        (Structure.ofText
          (String.ofList ("return ".toList ++ ("/* c */".toList ++ " (<b/>);".toList)))).map
          Structure.tags ∧
      ((Structure.ofText "return /* c */ (<b/>);").map fun s => s.elements.map (·.tag)) =
        .ok ["b"] := by
  have hplace : StandsBetween "return ".toList ("/* c */".toList ++ " (<b/>);".toList) :=
    standsBetween_of_inert (by decide) _
  have hcomment : IsComment "/* c */".toList " (<b/>);".toList :=
    .block " c ".toList " (<b/>);".toList (by decide)
  exact ⟨hplace, hcomment,
    ofText_blankOut hplace hcomment ⟨'r', by decide, by decide⟩ (by decide), by decide +kernel⟩

/-- An element behind a comment is not found, and a source of nothing but a comment is none
without it. -/
theorem ofText_blankOut_differs :
    StandsBetween "const A = () => ".toList ("/* c */".toList ++ " <b/>;".toList) ∧
      IsComment "/* c */".toList " <b/>;".toList ∧
      ((Structure.ofText "const A = () => /* c */ <b/>;").map fun s => s.elements.map (·.tag)) =
        .ok [] ∧
      ((Structure.ofText "const A = () =>         <b/>;").map fun s => s.elements.map (·.tag)) =
        .ok ["b"] ∧
      blankOut "/* c */".toList = "       ".toList ∧
      StandsBetween [] ("// x".toList ++ []) ∧ IsComment "// x".toList [] ∧
      (Structure.ofText "// x").map Structure.tags = .ok ([], [], []) ∧
      Structure.ofText "    " = .error .empty ∧ blankOut "// x".toList = "    ".toList :=
  ⟨standsBetween_of_inert (by decide) _, .block " c ".toList " <b/>;".toList (by decide),
    by decide +kernel, by decide +kernel, by decide, standsBetween_of_inert (by decide) _,
    .line " x".toList [] (by decide) (by decide), by decide +kernel, by decide +kernel, by decide⟩

end Sources

end DesignCompiler.Markup
