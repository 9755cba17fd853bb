import DesignCompiler.Proofs.Markup.Extensions
import Mathlib.Data.List.TakeWhile

/-!
# What a scan sees of the text behind it

When a scan comes to a comment in script text that is in no element, everything before was read
without regard to the comment: a turn that takes some of the comment with it never stands in front
of it again, and a turn that only looks whether something goes on there finds that it does not, at
a slash as at a space. So `becomes_extend`: a scan that comes to a comment comes to the same place
if there are spaces instead of it.

Some turns look further than the next character. There the comment is not met in script text: a
slash right in front of it makes a comment that starts earlier, a less-than sign between tags
makes a closing tag without an end, and behind a name that a less-than sign or a tag stands in
front of, the comment is an error in that tag.
-/

namespace DesignCompiler.Markup

open Text (isBlank isNameChar isAlphabetic takeWhile_append_of_end dropWhile_append_of_end)

/-- A comment starts here. -/
def StartsComment (later : List Char) : Prop :=
  ∃ ch rest, later = '/' :: ch :: rest ∧ (ch = '/' ∨ ch = '*')

theorem StartsComment.separates {later : List Char} (h : StartsComment later) :
    Separates later := by
  obtain ⟨ch, rest, rfl, -⟩ := h
  exact .inl rfl

/-! ## Turns that miss a comment -/

/-- The scan never comes to the given rest of the text in script text that is in no element. -/
def Misses (limit : Nat) (later : List Char) (t : Turn) : Prop :=
  ∀ c depth found, c.rest = later → ¬ t.Becomes limit (.goesOn ⟨c, .script none depth found, []⟩)

section Misses

variable {limit : Nat} {later : List Char}

theorem misses_ended (limit : Nat) (later : List Char) (result : Except Anomaly Findings) :
    Misses limit later (.ended result) := by
  rintro c depth found - ⟨⟩

/-- Behind the start of the rest, the scan does not come to it. -/
theorem misses_of_lt {next : Reading} (h : next.cursor.rest.length < later.length) :
    Misses limit later (.goesOn next) := by
  rintro c depth found rfl hbecomes
  obtain ⟨text, htext⟩ := hbecomes.leads
  have hlength := congrArg List.length htext.rest
  rw [List.length_append] at hlength
  dsimp only at hlength
  omega

/-- No attribute starts with a slash, and an opening tag does not end with one alone. -/
theorem misses_attributes (hlater : StartsComment later) {c : Cursor}
    (hblanks : c.skipBlanks.rest = later) (opening : Opening) (outer : List Loop) :
    Misses limit later (.attributes opening c outer) := by
  obtain ⟨ch, rest, rfl, hch⟩ := hlater
  have hend : c.skipBlanks.next.rest.head? ≠ some '>' := by
    rw [Cursor.rest_next, hblanks, List.tail_cons, List.head?_cons]
    rcases hch with rfl | rfl <;> decide
  unfold Turn.attributes Turn.endOpening
  simp only [hblanks, or_true, if_true, List.head?_cons, beq_self_eq_true, Cursor.skipSlash,
    if_neg hend]
  exact misses_ended limit _ _

theorem misses_goesOn_attributes (hlater : StartsComment later) {c : Cursor}
    (hblanks : c.skipBlanks.rest = later) (opening : Opening) (outer : List Loop) :
    Misses limit later (.goesOn ⟨c, .attributes opening, outer⟩) := by
  rintro c' depth found hc' (_ | hbecomes)
  exact misses_attributes hlater hblanks opening outer c' depth found hc' hbecomes

end Misses

/-! ## What begins in front of a comment -/

/-- What begins at a place takes some of the text behind with it, has no end, or is an element
whose name stands right in front of that text. -/
def Beginning.Overruns (later : List Char) (c : Cursor) : Beginning → Prop
  | pass stop => stop.rest.length < later.length
  | element => c.next.skipTagName.skipBlanks.rest = later
  | broken _ => True
  | _ => False

section Beginnings

variable {limit : Nat} {later rest : List Char} {c : Cursor}

theorem misses_of_overruns (hlater : StartsComment later) {begins : Beginning}
    (h : begins.Overruns later c) (limit : Nat) (expression : Option Expression) (depth : Nat)
    (found : Findings) (outer : List Loop) :
    Misses limit later (begins.turn limit expression depth found c outer) := by
  cases begins with
  | atEnd => cases h
  | pass stop => exact misses_of_lt h
  | openBrace stop => cases h
  | closeBrace stop => cases h
  | element =>
    show Misses limit later (Turn.enterElement limit c (.script expression depth found) outer)
    unfold Turn.enterElement
    split
    · exact misses_ended limit later _
    · exact misses_goesOn_attributes hlater h _ _
  | broken reason => exact misses_ended limit later _

theorem overruns_upTo {reason : Anomaly} {stop? : Option Cursor}
    (h : ∀ stop, stop? = some stop → stop.rest.length < later.length) :
    (Beginning.upTo reason stop?).Overruns later c := by
  cases stop? with
  | none => trivial
  | some stop => exact h stop rfl

/-- What is read up to the end of the line takes the start of the comment with it if it does not
end in the text. -/
theorem skipLine_beyond (hlater : StartsComment later)
    (hall : (c.skipWhile (· ≠ '\n')).rest = []) :
    ((c.extend later).skipWhile (· ≠ '\n')).rest.length < later.length := by
  obtain ⟨ch, tail, rfl, -⟩ := hlater
  rw [Cursor.rest_skipWhile_extend hall, List.dropWhile_cons_of_pos (by decide)]
  exact Nat.lt_succ_of_le (List.dropWhile_suffix _).length_le

/-- A regular expression with its flags ends in the text, or it takes the start of the comment
with it. -/
theorem regexBegins_extend (reason : Anomaly) (c : Cursor) (before : List Char) (line : Nat)
    (rest : List Char) :
    (Beginning.upTo reason
      ((Cursor.regexEnd? false before line (rest ++ later)).map
        (·.skipWhile isNameChar))).Overruns
        later c ∨
      ∀ later', Separates later' →
        .upTo reason ((Cursor.regexEnd? false before line (rest ++ later')).map
          (·.skipWhile isNameChar)) =
          (Beginning.upTo reason
            ((Cursor.regexEnd? false before line rest).map (·.skipWhile isNameChar))).shift
            (Cursor.extend later') := by
  cases hend : Cursor.regexEnd? false before line rest with
  | none =>
    refine .inl (overruns_upTo fun stop hstop => ?_)
    obtain ⟨stop', hstop', rfl⟩ := Option.map_eq_some_iff.1 hstop
    exact Nat.lt_of_le_of_lt (Cursor.skipWhile_le _ _) (Cursor.regexEnd?_beyond hend hstop')
  | some stop =>
    refine .inr fun later' hlater' => ?_
    rw [Cursor.regexEnd?_extend hend, upTo_shift]
    simp only [Option.map_some]
    rw [Cursor.skipWhile_extend fun _ => hlater'.head (by decide) (by decide)]

/-- A slash begins the same in front of other texts, or what it begins overruns the text. -/
theorem slashBegins_extend (hlater : StartsComment later) (hrest : c.rest = '/' :: rest) :
    ((c.extend later).slashBegins (rest ++ later)).Overruns later (c.extend later) ∨
      ∀ later', Separates later' → (c.extend later').slashBegins (rest ++ later') =
        (c.slashBegins rest).shift (Cursor.extend later') := by
  have hnext (later : List Char) : (c.extend later).next = c.next.extend later :=
    Cursor.next_extend_of_rest later hrest
  have hnextRest : c.next.rest = rest := by rw [Cursor.rest_next, hrest, List.tail_cons]
  obtain ⟨tail, hhead⟩ : ∃ tail, later = '/' :: tail := by
    obtain ⟨ch, more, rfl, -⟩ := hlater
    exact ⟨_, rfl⟩
  unfold Cursor.slashBegins
  simp only [hnext]
  cases rest with
  | nil =>
    -- The slash and that of the comment start a comment together.
    have hslash : ([] ++ later).head? = some '/' := by rw [hhead]; rfl
    rw [if_pos hslash]
    exact .inl (skipLine_beyond hlater (by rw [Cursor.rest_skipWhile, hnextRest]; rfl))
  | cons ch rest =>
    have hpeek (later : List Char) : (ch :: rest ++ later).head? = (ch :: rest).head? := rfl
    have hsecond (later : List Char) : (c.next.extend later).next = c.next.next.extend later :=
      Cursor.next_extend_of_rest later hnextRest
    simp only [hpeek, hsecond, Cursor.before_extend, Cursor.line_extend]
    by_cases hslash : (ch :: rest).head? = some '/'
    · simp only [if_pos hslash]
      by_cases hall : (c.next.skipWhile (· ≠ '\n')).rest = []
      · exact .inl (skipLine_beyond hlater hall)
      · exact .inr fun later' _ =>
          congrArg Beginning.pass (Cursor.skipWhile_extend fun hnil => absurd hnil hall)
    · simp only [if_neg hslash]
      by_cases hstar : (ch :: rest).head? = some '*'
      · simp only [if_pos hstar]
        exact (Cursor.blockCommentEnd_extend (by rw [hhead]; rfl) _ c.line
          c.next.next.rest).imp_right
          fun h later' _ => congrArg Beginning.pass (h later')
      · simp only [if_neg hstar]
        by_cases hback : operandMayFollow c.before = true
        · simp only [hback, if_true]
          exact regexBegins_extend _ _ _ _ _
        · simp only [hback, if_false, Bool.false_eq_true]
          exact .inr fun later' _ => rfl

/-- Whether an element may start is settled by the text and the slash or space behind it. -/
theorem elementMayStart_append (hlater : Separates later) (before rest : List Char) :
    elementMayStart before (rest ++ later) = elementMayStart before rest := by
  cases rest with
  | cons ch rest => rfl
  | nil =>
    cases later with
    | nil => rfl
    | cons ch later =>
      have hch : (isAlphabetic ch || ch == '>') = false :=
        @Separates.head (ch :: later) hlater (fun ch => isAlphabetic ch || ch == '>') (by decide)
          (by decide) ch rfl
      simp only [List.nil_append, elementMayStart, hch, Bool.false_and]

/-- A less-than sign with more behind it than a name and blanks reads like type parameters or not,
whatever follows. -/
theorem startsTypeParameters_append (hlater : Separates later)
    (hmore : (rest.dropWhile isNameChar).dropWhile isBlank ≠ []) :
    startsTypeParameters (rest ++ later) = startsTypeParameters rest := by
  have hname : ∀ ch ∈ later.head?, isNameChar ch = false := hlater.head (by decide) (by decide)
  obtain ⟨ch, tail, htail⟩ := List.exists_cons_of_ne_nil hmore
  have hword : (ch :: (tail ++ later)).takeWhile isNameChar = (ch :: tail).takeWhile isNameChar :=
    takeWhile_append_of_end (s := ch :: tail) fun _ => hname
  unfold startsTypeParameters
  rw [takeWhile_append_of_end fun _ => hname, dropWhile_append_of_end fun _ => hname,
    dropWhile_append_of_end fun hnil => absurd hnil hmore, htail, List.cons_append]
  split
  · rfl
  · split
    · rename_i heq
      cases heq
      rfl
    · rename_i heq
      cases heq
      simp [hword]
    · rename_i heq
      cases heq

/-- What accepts no slash ends where a comment starts. -/
theorem dropWhile_comment (hlater : StartsComment later) {accepts : Char → Bool}
    (hslash : accepts '/' = false) :
    later.dropWhile accepts = later := by
  obtain ⟨ch, tail, rfl, -⟩ := hlater
  exact List.dropWhile_cons_of_neg (by simp [hslash])

/-- Blanks in front of a comment end there. -/
theorem dropWhile_isBlank_comment (hlater : StartsComment later)
    (hend : rest.dropWhile isBlank = []) :
    (rest ++ later).dropWhile isBlank = later := by
  obtain ⟨ch, tail, rfl, -⟩ := hlater
  rw [dropWhile_append_of_end (by rintro - ch ⟨⟩; decide), hend, List.nil_append]

theorem rest_skipBlanks_extend (hlater : StartsComment later) (hend : c.skipBlanks.rest = []) :
    (c.extend later).skipBlanks.rest = later := by
  rw [Cursor.rest_skipBlanks] at hend ⊢
  exact dropWhile_isBlank_comment hlater hend

/-- A less-than sign with nothing but a name and blanks between it and a comment opens an element,
if anything. -/
theorem startsTypeParameters_comment (hlater : StartsComment later)
    (hend : (rest.dropWhile isNameChar).dropWhile isBlank = []) :
    startsTypeParameters (rest ++ later) = false := by
  have hdrop : ((rest ++ later).dropWhile isNameChar).dropWhile isBlank = later := by
    rw [dropWhile_append_of_end fun _ => hlater.separates.head (by decide) (by decide)]
    exact dropWhile_isBlank_comment hlater hend
  obtain ⟨ch, tail, rfl, -⟩ := hlater
  unfold startsTypeParameters
  rw [hdrop]
  split <;> rfl

/-- Behind the characters of a name and blanks there are blanks behind those of a tag. -/
theorem dropWhile_isTagChar_of_name (hend : (rest.dropWhile isNameChar).dropWhile isBlank = []) :
    (rest.dropWhile isTagChar).dropWhile isBlank = [] := by
  have hblank := List.dropWhile_eq_nil_iff.1 hend
  rw [List.dropWhile_eq_nil_iff]
  rw [← List.takeWhile_append_dropWhile (p := isNameChar) (l := rest),
    List.dropWhile_append_of_pos]
  · exact fun ch hch => hblank ch ((List.dropWhile_suffix _).subset hch)
  · exact fun ch hch => isTagChar_of_isNameChar (List.mem_takeWhile_imp hch)

/-- A less-than sign begins the same in front of other texts, or what it begins overruns the
text. -/
theorem signBegins_extend (hlater : StartsComment later) (hrest : c.rest = '<' :: rest) :
    ((c.extend later).signBegins (rest ++ later)).Overruns later (c.extend later) ∨
      ∀ later', Separates later' → (c.extend later').signBegins (rest ++ later') =
        (c.signBegins rest).shift (Cursor.extend later') := by
  have hnext (later : List Char) : (c.extend later).next = c.next.extend later :=
    Cursor.next_extend_of_rest later hrest
  have hnextRest : c.next.rest = rest := by rw [Cursor.rest_next, hrest, List.tail_cons]
  unfold Cursor.signBegins
  rw [Cursor.before_extend, Cursor.line_extend, elementMayStart_append hlater.separates]
  by_cases hstart : elementMayStart c.before rest = true
  · rw [if_pos hstart, if_pos hstart]
    by_cases hmore : (rest.dropWhile isNameChar).dropWhile isBlank = []
    · left
      rw [startsTypeParameters_comment hlater hmore, if_neg Bool.false_ne_true]
      show (c.extend later).next.skipTagName.skipBlanks.rest = later
      rw [hnext, Cursor.skipTagName_extend hlater.separates]
      refine rest_skipBlanks_extend hlater ?_
      rw [Cursor.rest_skipBlanks, Cursor.skipTagName, Cursor.rest_skipWhile, hnextRest]
      exact dropWhile_isTagChar_of_name hmore
    · rw [startsTypeParameters_append hlater.separates hmore]
      have hsame (later' : List Char) (hlater' : Separates later') :
          startsTypeParameters (rest ++ later') = startsTypeParameters rest :=
        startsTypeParameters_append hlater' hmore
      by_cases htypes : startsTypeParameters rest = true
      · rw [if_pos htypes]
        have hne : later ≠ [] := by
          obtain ⟨ch, tail, rfl, -⟩ := hlater
          exact List.cons_ne_nil _ _
        refine (Cursor.typeParametersEnd_extend hne 1 '<' ('<' :: c.before) c.line rest).imp_right
          ?_
        intro h later' hlater'
        rw [elementMayStart_append hlater', Cursor.before_extend, if_pos hstart,
          hsame later' hlater', if_pos htypes, if_pos htypes]
        exact congrArg Beginning.pass (h later')
      · refine .inr fun later' hlater' => ?_
        rw [elementMayStart_append hlater', Cursor.before_extend, if_pos hstart,
          hsame later' hlater', if_neg htypes, if_neg htypes]
        rfl
  · refine .inr fun later' hlater' => ?_
    rw [elementMayStart_append hlater', Cursor.before_extend, if_neg hstart, if_neg hstart, hnext]
    rfl

/-- A comment begins where it starts, and takes its start with it. -/
theorem begins_comment (hlater : StartsComment later) (hrest : c.rest = later) :
    c.begins.Overruns later c := by
  obtain ⟨ch, tail, rfl, hch⟩ := hlater
  have hquote : ¬isQuote '/' = true := by decide
  unfold Cursor.begins Cursor.slashBegins
  simp only [hrest, if_neg hquote, if_true, List.head?_cons, Option.some.injEq]
  rcases hch with rfl | rfl
  · exact hrest ▸ Cursor.lt_of_le_next hrest (Cursor.skipWhile_le _ c.next)
  · rw [if_neg (by decide), if_pos rfl]
    exact hrest ▸ Cursor.lt_of_le_next hrest
      (Nat.le_trans (Cursor.blockCommentEnd_le _ _ _) (Cursor.next_le c.next))

/-- The same begins in front of other texts, or what begins overruns the text. -/
theorem begins_extend (hlater : StartsComment later) (c : Cursor) :
    (c.extend later).begins.Overruns later (c.extend later) ∨
      ∀ later', Separates later' →
        (c.extend later').begins = c.begins.shift (Cursor.extend later') := by
  by_cases hrest : c.rest = []
  · exact .inl (begins_comment hlater (by rw [Cursor.rest_extend, hrest, List.nil_append]))
  have hnext (later : List Char) : (c.extend later).next = c.next.extend later :=
    Cursor.next_extend later hrest
  obtain ⟨ch, rest, hcons⟩ := List.exists_cons_of_ne_nil hrest
  unfold Cursor.begins
  simp only [Cursor.rest_extend, hcons, List.cons_append, Cursor.before_extend,
    Cursor.line_extend, hnext]
  by_cases hquote : isQuote ch = true
  · simp only [if_pos hquote]
    cases hend : Cursor.stringEnd? ch (ch :: c.before) c.line rest with
    | none => exact .inl (overruns_upTo fun stop hstop => Cursor.stringEnd?_beyond hend hstop)
    | some stop =>
      refine .inr fun later' _ => ?_
      rw [Cursor.stringEnd?_extend hend]
      rfl
  · simp only [if_neg hquote]
    by_cases hslash : ch = '/'
    · subst hslash
      simp only [if_true]
      exact slashBegins_extend hlater hcons
    · simp only [if_neg hslash]
      by_cases hsign : ch = '<'
      · subst hsign
        exact signBegins_extend hlater hcons
      · refine .inr fun later' _ => ?_
        simp only [if_neg hsign]
        repeat' split
        all_goals rfl

end Beginnings

/-! ## Turns in front of a comment -/

/-- In front of the start of a comment the turn misses the comment, or it is the given turn in
front of other texts. -/
def MissesOrKeeps (limit : Nat) (later : List Char) (turn : (Cursor → Cursor) → Turn) (t : Turn) :
    Prop :=
  Misses limit later (turn (Cursor.extend later)) ∨
    ∀ later', Separates later' → turn (Cursor.extend later') = t.shift (Cursor.extend later')

theorem MissesOrKeeps.congr {limit : Nat} {later : List Char}
    {turn turn' : (Cursor → Cursor) → Turn} {t : Turn} (h : MissesOrKeeps limit later turn t)
    (heq : ∀ later, turn' (Cursor.extend later) = turn (Cursor.extend later)) :
    MissesOrKeeps limit later turn' t :=
  h.imp (heq later ▸ ·) fun h later' hlater' => (heq later').trans (h later' hlater')

section Turns

variable (limit : Nat) {later : List Char} (opening : Opening) (name : String) (line : Nat)
  (outer : List Loop)

theorem script_extend (hlater : StartsComment later) (expression : Option Expression)
    (depth : Nat) (found : Findings) (c : Cursor) :
    MissesOrKeeps limit later
      (fun f =>
        .script limit (expression.map (Expression.shift f)) depth found (f c)
          (outer.map (Loop.shift f)))
      (.script limit expression depth found c outer) := by
  unfold MissesOrKeeps
  simp only [Beginning.script_eq]
  refine (begins_extend hlater c).imp (misses_of_overruns hlater · _ _ _ _ _)
    fun h later' hlater' => ?_
  rw [h later' hlater']
  refine turn_shift (Cursor.isShift_extend later') (fun helement => ?_) _ _ _ _ _
  have hrest : c.rest ≠ [] := by
    intro hnil
    rw [Cursor.begins, hnil] at helement
    cases helement
  rw [Cursor.next_extend later' hrest]
  exact ⟨Cursor.skipTagName_extend hlater' c.next, Cursor.tagName_extend hlater' c.next⟩

/-- No value starts with a slash. -/
theorem misses_value (hlater : StartsComment later) {c : Cursor} (hrest : c.rest = later) :
    Misses limit later (.value opening name line c outer) := by
  obtain ⟨ch, tail, rfl, -⟩ := hlater
  unfold Turn.value
  simp only [hrest]
  rw [if_neg (by decide), if_neg (by decide)]
  exact misses_ended limit _ _

theorem value_extend (hlater : StartsComment later) (c : Cursor) :
    MissesOrKeeps limit later (fun f => .value opening name line (f c) (outer.map (Loop.shift f)))
      (.value opening name line c outer) := by
  cases hrest : c.rest with
  | nil =>
    exact .inl (misses_value limit opening name line _ hlater
      (by rw [Cursor.rest_extend, hrest]; rfl))
  | cons ch rest =>
    unfold MissesOrKeeps Turn.value
    simp only [Cursor.rest_extend, hrest, List.cons_append, Cursor.before_extend,
      Cursor.line_extend]
    by_cases hquote : ch = '"' ∨ ch = '\x27'
    · simp only [if_pos hquote]
      cases hend : Cursor.quotedEnd? ch (ch :: c.before) c.line rest with
      | none =>
        left
        split
        · rename_i hstop
          exact misses_of_lt (Cursor.quotedEnd?_beyond hend hstop)
        · exact misses_ended limit _ _
      | some found =>
        refine .inr fun later' _ => ?_
        rw [Cursor.quotedEnd?_extend hend]
        rfl
    · refine .inr fun later' _ => ?_
      rw [if_neg hquote, if_neg hquote, Cursor.next_extend_of_rest later' hrest]
      split <;> rfl

theorem value_skipBlanks_extend (hlater : StartsComment later) (c : Cursor) :
    MissesOrKeeps limit later
      (fun f => .value opening name line (f c).skipBlanks (outer.map (Loop.shift f)))
      (.value opening name line c.skipBlanks outer) := by
  by_cases hblanks : c.skipBlanks.rest = []
  · exact .inl (misses_value limit opening name line _ hlater
      (rest_skipBlanks_extend hlater hblanks))
  · refine (value_extend limit opening name line outer hlater c.skipBlanks).congr fun later => ?_
    rw [Cursor.skipBlanks_extend later hblanks]

theorem named_extend (hlater : StartsComment later) (c : Cursor) :
    MissesOrKeeps limit later (fun f => .named opening name line (f c) (outer.map (Loop.shift f)))
      (.named opening name line c outer) := by
  unfold MissesOrKeeps Turn.named
  by_cases hblanks : c.skipBlanks.rest = []
  · -- A flag, and the comment in the opening tag behind it.
    left
    have hcomment := rest_skipBlanks_extend hlater hblanks
    have hagain : (c.extend later).skipBlanks.skipBlanks.rest = later := by
      rw [Cursor.rest_skipBlanks, hcomment, dropWhile_comment hlater (by decide)]
    have hsign : (c.extend later).skipBlanks.rest.head? ≠ some '=' := by
      rw [hcomment]
      obtain ⟨ch, tail, rfl, -⟩ := hlater
      rintro ⟨⟩
    simp only [if_neg hsign]
    exact misses_goesOn_attributes hlater hagain _ _
  · have hskip (later : List Char) : (c.extend later).skipBlanks = c.skipBlanks.extend later :=
      Cursor.skipBlanks_extend later hblanks
    have hhead (later : List Char) :
        (c.skipBlanks.extend later).rest.head? = c.skipBlanks.rest.head? :=
      Cursor.head?_extend later hblanks
    have hnext (later : List Char) :
        (c.skipBlanks.extend later).next = c.skipBlanks.next.extend later :=
      Cursor.next_extend later hblanks
    simp only [hskip, hhead, hnext]
    by_cases hsign : c.skipBlanks.rest.head? = some '='
    · simp only [if_pos hsign]
      exact value_skipBlanks_extend limit opening name line outer hlater c.skipBlanks.next
    · simp only [if_neg hsign]
      exact .inr fun _ _ => rfl

theorem endOpening_extend (hlater : StartsComment later) {c : Cursor} (hrest : c.rest ≠ []) :
    MissesOrKeeps limit later (fun f => .endOpening opening (f c) (outer.map (Loop.shift f)))
      (.endOpening opening c outer) := by
  have hhead (later : List Char) := Cursor.head?_extend later hrest
  have hslash (later : List Char) :=
    Cursor.skipSlash_extend later hrest (c.rest.head? == some '/')
  unfold MissesOrKeeps Turn.endOpening
  simp only [hhead, hslash, openTags_shift]
  by_cases hlast : (c.skipSlash (c.rest.head? == some '/')).rest = []
  · left
    have hsign : ((c.skipSlash (c.rest.head? == some '/')).extend later).rest.head? ≠
        some '>' := by
      obtain ⟨ch, tail, rfl, -⟩ := hlater
      rw [Cursor.rest_extend, hlast]
      rintro ⟨⟩
    rw [if_neg hsign]
    exact misses_ended limit later _
  · refine .inr fun later' _ => ?_
    rw [Cursor.head?_extend later' hlast, Cursor.next_extend later' hlast]
    split
    · split
      · exact leaveElement_shift _ _ _ _
      · rfl
    · rfl

theorem attributes_extend (hlater : StartsComment later) (c : Cursor) :
    MissesOrKeeps limit later (fun f => .attributes opening (f c) (outer.map (Loop.shift f)))
      (.attributes opening c outer) := by
  by_cases hblanks : c.skipBlanks.rest = []
  · exact .inl (misses_attributes hlater (rest_skipBlanks_extend hlater hblanks) opening _)
  · have hskip (later : List Char) := Cursor.skipBlanks_extend later hblanks
    have hnext (later : List Char) := Cursor.next_extend later hblanks
    obtain ⟨ch, rest, hcons⟩ := List.exists_cons_of_ne_nil hblanks
    unfold MissesOrKeeps Turn.attributes
    simp only [hskip, Cursor.rest_extend, hcons, List.cons_append, hnext, Cursor.line_extend]
    by_cases hend : ch = '>' ∨ ch = '/'
    · simp only [if_pos hend]
      exact endOpening_extend limit opening outer hlater hblanks
    · simp only [if_neg hend]
      by_cases hbrace : ch = '\x7b'
      · simp only [if_pos hbrace]
        exact .inr fun _ _ => rfl
      · simp only [if_neg hbrace]
        by_cases hname : isNameChar ch = true
        · simp only [if_pos hname]
          have hnamed :=
            named_extend limit opening c.skipBlanks.tagName c.skipBlanks.line outer hlater
              c.skipBlanks.skipTagName
          refine hnamed.imp (fun h => ?_) fun h later' hlater' => ?_
          · rwa [Cursor.tagName_extend hlater.separates,
              Cursor.skipTagName_extend hlater.separates]
          · rw [Cursor.tagName_extend hlater', Cursor.skipTagName_extend hlater']
            exact h later' hlater'
        · simp only [if_neg hname]
          exact .inr fun _ _ => rfl

theorem rest_closingEnd (c : Cursor) :
    c.closingEnd.rest = ((c.next.next.rest.dropWhile isBlank).dropWhile isTagChar).dropWhile
      isBlank := by
  rw [Cursor.closingEnd, Cursor.rest_skipBlanks, Cursor.skipTagName, Cursor.rest_skipWhile,
    Cursor.rest_skipBlanks]

/-- A closing tag ends in the text, or its name and the blanks around it end where the comment
starts. -/
theorem closingEnd_extend (hlater : StartsComment later) {c : Cursor} (hnext : c.next.rest ≠ []) :
    (c.extend later).closingEnd.rest = later ∨
      c.closingEnd.rest ≠ [] ∧ ∀ later', Separates later' →
        (c.extend later').closingEnd = c.closingEnd.extend later' ∧
          (c.extend later').closingName = c.closingName := by
  have hrest : c.rest ≠ [] := by
    intro hnil
    rw [Cursor.rest_next, hnil] at hnext
    exact hnext rfl
  have hsecond (later : List Char) : (c.extend later).next.next = c.next.next.extend later := by
    rw [Cursor.next_extend later hrest, Cursor.next_extend later hnext]
  by_cases hblanks : c.next.next.skipBlanks.rest = []
  · left
    rw [Cursor.rest_skipBlanks] at hblanks
    rw [rest_closingEnd, hsecond, Cursor.rest_extend, dropWhile_isBlank_comment hlater hblanks,
      dropWhile_comment hlater (by decide), dropWhile_comment hlater (by decide)]
  · have hskip (later : List Char) := Cursor.skipBlanks_extend later hblanks
    by_cases hend : c.next.next.skipBlanks.skipTagName.skipBlanks.rest = []
    · left
      rw [Cursor.closingEnd, hsecond, hskip, Cursor.skipTagName_extend hlater.separates]
      exact rest_skipBlanks_extend hlater hend
    · refine .inr ⟨hend, fun later' hlater' => ?_⟩
      constructor
      · rw [Cursor.closingEnd, hsecond, hskip, Cursor.skipTagName_extend hlater',
          Cursor.skipBlanks_extend later' hend]
        rfl
      · rw [Cursor.closingName, hsecond, hskip, Cursor.tagName_extend hlater']
        rfl

/-- A closing tag without an end. -/
theorem misses_closing {c : Cursor} {rest : List Char} (hrest : c.rest = '<' :: '/' :: rest)
    (hend : c.closingEnd.rest.head? ≠ some '>') (inside : Inside) (found : Findings) :
    Misses limit later (.children limit opening inside found c outer) := by
  unfold Turn.children
  simp only [hrest, if_true, List.head?_cons, if_neg hend]
  exact misses_ended limit later _

theorem children_closing_extend (hlater : StartsComment later) (inside : Inside)
    (found : Findings) {c : Cursor} {rest : List Char} (hrest : c.rest = '<' :: '/' :: rest) :
    MissesOrKeeps limit later
      (fun f => .children limit opening inside found (f c) (outer.map (Loop.shift f)))
      (.children limit opening inside found c outer) := by
  have hsign (later : List Char) : (c.extend later).rest = '<' :: '/' :: (rest ++ later) := by
    rw [Cursor.rest_extend, hrest]
    rfl
  rcases closingEnd_extend hlater (c := c)
    (by rw [Cursor.rest_next, hrest]; exact List.cons_ne_nil _ _) with
    hcomment | ⟨hne, hkeeps⟩
  · refine .inl (misses_closing limit opening _ (hsign later) ?_ inside found)
    obtain ⟨ch, tail, rfl, -⟩ := hlater
    rw [hcomment]
    rintro ⟨⟩
  · refine .inr fun later' hlater' => ?_
    obtain ⟨hend, hname⟩ := hkeeps later' hlater'
    have hleave (inside : Inside) (stop : Cursor) :=
      leaveChildren_shift (Cursor.extend later') opening inside found stop outer
    unfold Turn.children
    simp only [hsign, hrest, if_true, List.head?_cons, hend, hname,
      Cursor.head?_extend later' hne, Cursor.next_extend later' hne, openTags_shift, hleave,
      Cursor.line_extend]
    repeat' split
    all_goals rfl

theorem children_sign_extend (hlater : StartsComment later) (inside : Inside) (found : Findings)
    {c : Cursor} {rest : List Char} (hrest : c.rest = '<' :: rest) :
    MissesOrKeeps limit later
      (fun f => .children limit opening inside found (f c) (outer.map (Loop.shift f)))
      (.children limit opening inside found c outer) := by
  cases rest with
  | nil =>
    -- The sign and the slash of the comment are read as those of a closing tag.
    left
    obtain ⟨ch, tail, rfl, hch⟩ := hlater
    have hsign : (c.extend ('/' :: ch :: tail)).rest = '<' :: '/' :: ch :: tail := by
      rw [Cursor.rest_extend, hrest]
      rfl
    refine misses_closing limit opening _ hsign ?_ inside found
    have hend : (c.extend ('/' :: ch :: tail)).closingEnd.rest = ch :: tail := by
      rw [rest_closingEnd, Cursor.rest_next, Cursor.rest_next, Cursor.rest_extend, hrest]
      rcases hch with rfl | rfl <;> rfl
    rw [hend]
    rcases hch with rfl | rfl <;> rintro ⟨⟩
  | cons ch rest =>
    by_cases hslash : ch = '/'
    · subst hslash
      exact children_closing_extend limit opening outer hlater inside found hrest
    · refine .inr fun later' hlater' => ?_
      have hnext : (c.extend later').next = c.next.extend later' :=
        Cursor.next_extend_of_rest later' hrest
      unfold Turn.children
      simp only [Cursor.rest_extend, hrest, List.cons_append, if_true, List.head?_cons,
        Option.some.injEq, hslash, if_false]
      exact enterElement_shift (Cursor.isShift_extend later')
        (by rw [hnext, Cursor.skipTagName_extend hlater'])
        (by rw [hnext, Cursor.tagName_extend hlater']) limit
        (.children opening inside found) outer

/-- Text between tags takes the start of a comment with it if it does not end in front of it. -/
theorem misses_plain (hlater : StartsComment later) {c : Cursor}
    (hall : (c.skipWhile isPlain).rest = []) (inside : Inside) (found : Findings) :
    Misses limit later (.children limit opening inside found (c.extend later) outer) := by
  have hless : ((c.extend later).skipWhile isPlain).rest.length < later.length := by
    obtain ⟨ch, tail, rfl, -⟩ := hlater
    rw [Cursor.rest_skipWhile_extend hall, List.dropWhile_cons_of_pos (by decide)]
    exact Nat.lt_succ_of_le (List.dropWhile_suffix _).length_le
  obtain ⟨ch, rest, hcons, hplain⟩ :
      ∃ ch rest, (c.extend later).rest = ch :: rest ∧ isPlain ch = true := by
    rw [Cursor.rest_skipWhile, List.dropWhile_eq_nil_iff] at hall
    cases hrest : c.rest with
    | nil =>
      obtain ⟨ch, tail, rfl, -⟩ := hlater
      exact ⟨'/', ch :: tail, by rw [Cursor.rest_extend, hrest]; rfl, by decide⟩
    | cons ch rest =>
      exact ⟨ch, rest ++ later, by rw [Cursor.rest_extend, hrest]; rfl, hall ch (by simp [hrest])⟩
  have hsign : ch ≠ '<' := by
    rintro rfl
    exact absurd hplain (by decide)
  have hbrace : ch ≠ '\x7b' := by
    rintro rfl
    exact absurd hplain (by decide)
  unfold Turn.children
  simp only [hcons, if_neg hsign, if_neg hbrace]
  exact misses_of_lt hless

theorem children_extend (hlater : StartsComment later) (inside : Inside) (found : Findings)
    (c : Cursor) :
    MissesOrKeeps limit later
      (fun f => .children limit opening inside found (f c) (outer.map (Loop.shift f)))
      (.children limit opening inside found c outer) := by
  by_cases hall : (c.skipWhile isPlain).rest = []
  · exact .inl (misses_plain limit opening _ hlater hall inside found)
  have hrest : c.rest ≠ [] := by
    intro hnil
    rw [Cursor.rest_skipWhile, hnil] at hall
    exact hall rfl
  obtain ⟨ch, rest, hcons⟩ := List.exists_cons_of_ne_nil hrest
  by_cases hsign : ch = '<'
  · subst hsign
    exact children_sign_extend limit opening outer hlater inside found hcons
  · refine .inr fun later' _ => ?_
    have hskip : (c.extend later').skipWhile isPlain = (c.skipWhile isPlain).extend later' :=
      Cursor.skipWhile_extend fun hnil => absurd hnil hall
    have htext : (ch :: (rest ++ later')).takeWhile isPlain = (ch :: rest).takeWhile isPlain := by
      rw [Cursor.rest_skipWhile, hcons] at hall
      exact takeWhile_append_of_end (s := ch :: rest) fun hnil => absurd hnil hall
    unfold Turn.children
    simp only [Cursor.rest_extend, hcons, List.cons_append, if_neg hsign,
      Cursor.next_extend later' hrest, hskip, htext, Cursor.line_extend]
    split <;> rfl

/-- **A turn in front of a comment** misses the comment, or it is the same in front of every text
that starts with a slash or a space. -/
theorem turn_extend (hlater : StartsComment later) (s : Reading) :
    MissesOrKeeps limit later (fun f => (s.shift f).turn limit) (s.turn limit) := by
  obtain ⟨c, loop, outer⟩ := s
  cases loop with
  | script expression depth found =>
    exact script_extend limit outer hlater expression depth found c
  | attributes opening => exact attributes_extend limit opening outer hlater c
  | children opening inside found =>
    exact children_extend limit opening outer hlater inside found c

/-- Script text that is in no element, in front of the given rest of the text, is in front of
nothing without it. -/
theorem eq_of_shift_extend {s : Reading} {c : Cursor} {depth : Nat} {found : Findings}
    (hrest : c.rest = later)
    (h : s.shift (Cursor.extend later) = ⟨c, .script none depth found, []⟩) :
    s = ⟨⟨c.before, [], c.line⟩, .script none depth found, []⟩ := by
  obtain ⟨⟨before, rest, line⟩, loop, outer⟩ := s
  obtain ⟨hcursor, hloop, houter⟩ := Reading.mk.inj h
  subst hcursor
  obtain rfl : rest = [] := List.append_left_eq_self.1 hrest
  obtain rfl : outer = [] := List.map_eq_nil_iff.1 houter
  cases loop with
  | script expression depth' found' =>
    obtain ⟨hexpression, rfl, rfl⟩ := Loop.script.inj hloop
    obtain rfl := Option.map_eq_none_iff.1 hexpression
    rfl
  | attributes opening => cases hloop
  | children opening inside found' => cases hloop

/-- **A scan that comes to a comment** in script text that is in no element comes there too if
there is another text, which starts with a slash or a space, instead of the comment. -/
theorem becomes_extend (hlater : StartsComment later) {later' : List Char}
    (hlater' : Separates later') {s : Reading} {c : Cursor} {depth : Nat} {found : Findings}
    (hrest : c.rest = later)
    (h : (Turn.goesOn (s.shift (Cursor.extend later))).Becomes limit
      (.goesOn ⟨c, .script none depth found, []⟩)) :
    (Turn.goesOn (s.shift (Cursor.extend later'))).Becomes limit
      (.goesOn ⟨⟨c.before, later', c.line⟩, .script none depth found, []⟩) := by
  induction hpotential : s.potential using Nat.strongRecOn generalizing s with
  | ind n ih =>
    subst hpotential
    generalize hfirst : Turn.goesOn (s.shift (Cursor.extend later)) = first at h
    cases h with
    | refl =>
      rw [eq_of_shift_extend hrest (Turn.goesOn.inj hfirst)]
      exact .refl _
    | goesOn hturn =>
      cases hfirst
      rcases turn_extend limit hlater s with hmisses | hkeeps
      · exact absurd hturn (hmisses c depth found hrest)
      · have hsame : (s.shift (Cursor.extend later)).turn limit = _ :=
          hkeeps later hlater.separates
        have hsame' : (s.shift (Cursor.extend later')).turn limit = _ := hkeeps later' hlater'
        rw [hsame] at hturn
        refine .goesOn ?_
        rw [hsame']
        cases hnext : s.turn limit with
        | ended result =>
          rw [hnext] at hturn
          cases hturn
        | goesOn next =>
          rw [hnext] at hturn
          exact ih next.potential (Reading.potential_lt hnext) hturn rfl

end Turns

end DesignCompiler.Markup
