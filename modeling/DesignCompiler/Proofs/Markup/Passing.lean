import DesignCompiler.Markup.Scan
import DesignCompiler.Proofs.Markup.Beginnings
import DesignCompiler.Proofs.Text.Class

/-!
# Script text that is passed over

`Passes` relates two places of a script text when the scan of the text goes from one to the other
without meeting an element; `scanScript_of_passes` says that the scan from the first place is then
the scan from the second.

`Passable` is the property of texts that the rest of the theory works with. A passable text is
passed over wherever it stands and leaves as many braces open as there were. It holds of inert
characters, of quoted strings and of braces around a passable text, and it is closed under `++`,
so the layout around a literal never matters.
-/

namespace DesignCompiler.Markup

open Text (newlines)

theorem newlines_append (s t : List Char) : newlines (s ++ t) = newlines s + newlines t :=
  List.count_append

theorem lineAfter_eq (line : Nat) (c : Char) : Cursor.lineAfter line c = line + newlines [c] := by
  unfold Cursor.lineAfter newlines
  by_cases hc : c = '\n' <;> simp [hc]

/-! ## Steps -/

/-- A character that begins no string, comment, regular expression, brace or element. -/
def isInert (c : Char) : Bool :=
  !isQuote c && c != '/' && c != '\x7b' && c != '\x7d' && c != '<'

/-- The characters that begin something. -/
def activeChars : List Char :=
  ['\x27', '"', Char.ofNat 96, '/', '\x7b', '\x7d', '<']

/-- A class of characters without any that begin something is inert. -/
theorem isInert_of_class {accepts : Char → Bool} (hactive : ∀ d ∈ activeChars, accepts d = false)
    {c : Char} (hc : accepts c = true) : isInert c = true := by
  have hne (d : Char) (hd : d ∈ activeChars) : c ≠ d := by
    rintro rfl
    rw [hactive c hd] at hc
    cases hc
  have hgrave : c.toNat ≠ 96 := by
    intro hcode
    refine hne (Char.ofNat 96) (by decide) ?_
    rw [← hcode, Char.ofNat_toNat]
  simp [isInert, isQuote, hgrave, hne '\x27' (by decide), hne '"' (by decide),
    hne '/' (by decide), hne '\x7b' (by decide), hne '\x7d' (by decide), hne '<' (by decide)]

theorem isInert_of_isAlphanum {c : Char} (hc : c.isAlphanum = true) : isInert c = true :=
  isInert_of_class (by decide) hc

theorem isInert_of_isBlank {c : Char} (hc : Text.isBlank c = true) : isInert c = true :=
  isInert_of_class (by decide) hc

theorem step_inert {c : Char} (hc : isInert c = true) (before rest : List Char) (line : Nat) :
    ∃ h, (Cursor.mk before (c :: rest) line).step =
      .pass ⟨c :: before, rest, Cursor.lineAfter line c⟩ h := by
  simp only [isInert, Bool.and_eq_true, Bool.not_eq_true', bne_iff_ne, ne_eq] at hc
  obtain ⟨⟨⟨⟨hquote, hslash⟩, hopen⟩, hclose⟩, hsign⟩ := hc
  exact step_pass (.single hquote (fun h => absurd h hslash) hopen hclose fun h => absurd h hsign)

theorem step_openBrace (before rest : List Char) (line : Nat) :
    ∃ h, (Cursor.mk before ('\x7b' :: rest) line).step =
      .openBrace ⟨'\x7b' :: before, rest, line⟩ h :=
  ⟨Nat.lt_succ_self _, step_eq_of_begins .openBrace⟩

theorem step_closeBrace (before rest : List Char) (line : Nat) :
    ∃ h, (Cursor.mk before ('\x7d' :: rest) line).step =
      .closeBrace ⟨'\x7d' :: before, rest, line⟩ h :=
  ⟨Nat.lt_succ_self _, step_eq_of_begins .closeBrace⟩

theorem step_string {quote : Char} (hquote : isQuote quote = true) {before rest : List Char}
    {line : Nat} {stop : Cursor}
    (hend : Cursor.stringEnd? quote (quote :: before) line rest = some stop) :
    ∃ h, (Cursor.mk before (quote :: rest) line).step = .pass stop h :=
  step_pass (.string hquote hend)

theorem step_element {before rest : List Char} (line : Nat)
    (hstart : elementMayStart before rest = true) (htype : startsTypeParameters rest = false) :
    (Cursor.mk before ('<' :: rest) line).step = .element :=
  step_eq_of_begins (.element hstart htype)

theorem step_atEnd (before : List Char) (line : Nat) : (Cursor.mk before [] line).step = .atEnd :=
  step_eq_of_begins .atEnd

/-! ## Runs -/

/-- The scan of script text goes from one place to another without meeting an element; the numbers
are those of the braces that are open. -/
inductive Passes : Cursor → Nat → Cursor → Nat → Prop where
  | refl (c : Cursor) (depth : Nat) : Passes c depth c depth
  | pass {c stop c' : Cursor} {depth depth' : Nat} {h : stop.rest.length < c.rest.length}
      (hstep : c.step = .pass stop h) (hrun : Passes stop depth c' depth') :
      Passes c depth c' depth'
  | openBrace {c stop c' : Cursor} {depth depth' : Nat} {h : stop.rest.length < c.rest.length}
      (hstep : c.step = .openBrace stop h) (hrun : Passes stop (depth + 1) c' depth') :
      Passes c depth c' depth'
  | closeBrace {c stop c' : Cursor} {depth depth' : Nat} {h : stop.rest.length < c.rest.length}
      (hstep : c.step = .closeBrace stop h) (hrun : Passes stop depth c' depth') :
      Passes c (depth + 1) c' depth'

theorem Passes.trans {c₁ c₂ c₃ : Cursor} {d₁ d₂ d₃ : Nat} (h₁ : Passes c₁ d₁ c₂ d₂)
    (h₂ : Passes c₂ d₂ c₃ d₃) :
    Passes c₁ d₁ c₃ d₃ := by
  induction h₁ with
  | refl => exact h₂
  | pass hstep _ ih => exact .pass hstep (ih h₂)
  | openBrace hstep _ ih => exact .openBrace hstep (ih h₂)
  | closeBrace hstep _ ih => exact .closeBrace hstep (ih h₂)

/-- Scanning from a place is scanning from any place that it passes to. -/
theorem scanScript_of_passes (element : ElementScanner) (stack : List String) (extent : Extent)
    {bound : Nat} {c c' : Cursor} {depth depth' : Nat} (hrun : Passes c depth c' depth')
    (hc : c.rest.length ≤ bound) :
    ∃ hc', scanScript element stack extent bound depth c hc =
      scanScript element stack extent bound depth' c' hc' := by
  induction hrun with
  | refl => exact ⟨hc, rfl⟩
  | @pass c _ _ _ _ h hstep _ ih =>
    obtain ⟨hc', heq⟩ := ih (within_of_lt h hc)
    refine ⟨hc', ?_⟩
    rw [scanScript.eq_def, hstep]
    exact heq
  | @openBrace c _ _ _ _ h hstep _ ih =>
    obtain ⟨hc', heq⟩ := ih (within_of_lt h hc)
    refine ⟨hc', ?_⟩
    rw [scanScript.eq_def, hstep]
    exact heq
  | @closeBrace c _ _ _ _ h hstep _ ih =>
    obtain ⟨hc', heq⟩ := ih (within_of_lt h hc)
    refine ⟨hc', ?_⟩
    rw [scanScript.eq_def, hstep]
    exact heq

/-! ## Passable texts -/

/-- The text is passed over wherever it stands, and every brace in it is paired in it. -/
def Passable (s : List Char) : Prop :=
  ∀ (before rest : List Char) (line depth : Nat),
    Passes ⟨before, s ++ rest, line⟩ depth ⟨s.reverse ++ before, rest, line + newlines s⟩ depth

theorem passable_nil : Passable [] :=
  fun before rest line depth => .refl ⟨before, rest, line⟩ depth

theorem Passable.append {s t : List Char} (hs : Passable s) (ht : Passable t) :
    Passable (s ++ t) := by
  intro before rest line depth
  have hfirst := hs before (t ++ rest) line depth
  have hsecond := ht (s.reverse ++ before) rest (line + newlines s) depth
  have hboth := hfirst.trans hsecond
  simpa only [List.append_assoc, List.reverse_append, newlines_append, Nat.add_assoc] using hboth

theorem passable_cons {c : Char} {s : List Char} (hc : isInert c = true) (hs : Passable s) :
    Passable (c :: s) := by
  intro before rest line depth
  obtain ⟨h, hstep⟩ := step_inert hc before (s ++ rest) line
  refine .pass hstep ?_
  have hrun := hs (c :: before) rest (Cursor.lineAfter line c) depth
  have hline : Cursor.lineAfter line c + newlines s = line + newlines (c :: s) := by
    rw [lineAfter_eq, Nat.add_assoc, ← newlines_append, List.singleton_append]
  rw [hline] at hrun
  simpa only [List.reverse_cons, List.append_assoc, List.singleton_append] using hrun

/-- A text of inert characters is passed over. -/
theorem passable_of_inert {s : List Char} (hs : ∀ c ∈ s, isInert c = true) : Passable s := by
  induction s with
  | nil => exact passable_nil
  | cons c s ih =>
    exact passable_cons (hs c List.mem_cons_self)
      (ih fun d hd => hs d (List.mem_cons_of_mem c hd))

theorem passable_flatMap {α : Type} {f : α → List Char} {items : List α}
    (hf : ∀ a ∈ items, Passable (f a)) :
    Passable (items.flatMap f) := by
  induction items with
  | nil => exact passable_nil
  | cons a items ih =>
    rw [List.flatMap_cons]
    exact (hf a List.mem_cons_self).append (ih fun b hb => hf b (List.mem_cons_of_mem a hb))

theorem passable_joinWith {separator : List Char} {pieces : List (List Char)}
    (hseparator : Passable separator) (hpieces : ∀ piece ∈ pieces, Passable piece) :
    Passable (Text.joinWith separator pieces) := by
  induction pieces with
  | nil => exact passable_nil
  | cons piece pieces ih =>
    have hpiece := hpieces piece List.mem_cons_self
    have hrest := ih fun p hp => hpieces p (List.mem_cons_of_mem piece hp)
    cases pieces with
    | nil => exact hpiece
    | cons next more => exact (hpiece.append hseparator).append hrest

/-- Braces around a passable text. -/
theorem Passable.braces {s : List Char} (hs : Passable s) :
    Passable ('\x7b' :: (s ++ ['\x7d'])) := by
  intro before rest line depth
  obtain ⟨_, hopen⟩ := step_openBrace before (s ++ ['\x7d'] ++ rest) line
  obtain ⟨_, hclose⟩ := step_closeBrace (s.reverse ++ '\x7b' :: before) rest (line + newlines s)
  refine .openBrace hopen ?_
  rw [List.append_assoc]
  refine (hs ('\x7b' :: before) (['\x7d'] ++ rest) line (depth + 1)).trans (.closeBrace hclose ?_)
  have hlines : newlines ('\x7b' :: (s ++ ['\x7d'])) = newlines s := by
    simp [newlines]
  rw [hlines]
  simpa using Passes.refl _ depth

/-! ## Strings -/

/-- A text that may stand between two quotes: there is no bare quote and no line break in it, and
every backslash has a character behind it. -/
inductive Enclosed (quote : Char) : List Char → Prop where
  | nil : Enclosed quote []
  | plain {c : Char} {s : List Char} (hquote : c ≠ quote) (hslash : c ≠ '\\') (hbreak : c ≠ '\n')
      (hs : Enclosed quote s) : Enclosed quote (c :: s)
  | escaped (c : Char) {s : List Char} (hs : Enclosed quote s) : Enclosed quote ('\\' :: c :: s)

theorem Enclosed.append {quote : Char} {s t : List Char} (hs : Enclosed quote s)
    (ht : Enclosed quote t) :
    Enclosed quote (s ++ t) := by
  induction hs with
  | nil => exact ht
  | plain hquote hslash hbreak _ ih => exact .plain hquote hslash hbreak ih
  | escaped c _ ih => exact .escaped c ih

theorem enclosed_of_plain {quote : Char} {s : List Char}
    (hs : ∀ c ∈ s, c ≠ quote ∧ c ≠ '\\' ∧ c ≠ '\n') :
    Enclosed quote s := by
  induction s with
  | nil => exact .nil
  | cons c s ih =>
    obtain ⟨hquote, hslash, hbreak⟩ := hs c List.mem_cons_self
    exact .plain hquote hslash hbreak (ih fun d hd => hs d (List.mem_cons_of_mem c hd))

theorem enclosed_flatMap {quote : Char} {f : Char → List Char} (hf : ∀ c, Enclosed quote (f c))
    (s : List Char) :
    Enclosed quote (s.flatMap f) := by
  induction s with
  | nil => exact .nil
  | cons c s ih => exact (hf c).append ih

/-- A string ends at the quote behind an enclosed text. -/
theorem stringEnd?_of_enclosed {quote : Char} {s : List Char} (hs : Enclosed quote s)
    (hquote : isQuote quote = true) (before rest : List Char) (line : Nat) :
    Cursor.stringEnd? quote before line (s ++ quote :: rest) =
      some ⟨quote :: (s.reverse ++ before), rest, line + newlines s⟩ := by
  have hslash : quote ≠ '\\' := by
    rintro rfl
    simp [isQuote] at hquote
  have hbreak : quote ≠ '\n' := by
    rintro rfl
    simp [isQuote] at hquote
  induction hs generalizing before line with
  | nil => simp [Cursor.stringEnd?, hslash, hbreak, lineAfter_eq, newlines]
  | @plain c s hc hcslash hcbreak _ ih =>
    have hline : newlines [c] = 0 := by simp [newlines, hcbreak]
    rw [List.cons_append, Cursor.stringEnd?.eq_4 _ _ _ _ _ (by simp) (by simp [hcslash])]
    simp only [hcbreak, hc, false_and, if_false]
    rw [ih, lineAfter_eq, hline]
    simp [newlines, hcbreak]
  | @escaped c s _ ih =>
    rw [List.cons_append, List.cons_append, Cursor.stringEnd?, ih, lineAfter_eq]
    have hlines : newlines ('\\' :: c :: s) = newlines [c] + newlines s := by
      simp [newlines, List.count_cons, Nat.add_comm]
    rw [hlines, Nat.add_assoc]
    simp

/-- A quoted text is passed over. -/
theorem passable_quoted {quote : Char} {s : List Char} (hquote : isQuote quote = true)
    (hs : Enclosed quote s) :
    Passable (quote :: (s ++ [quote])) := by
  intro before rest line depth
  have hend := stringEnd?_of_enclosed hs hquote (quote :: before) rest line
  obtain ⟨_, hstep⟩ := step_string hquote hend
  have hlines : newlines (quote :: (s ++ [quote])) = newlines s := by
    have hbreak : quote ≠ '\n' := by
      rintro rfl
      simp [isQuote] at hquote
    simp [newlines, hbreak]
  rw [hlines, List.cons_append, List.append_assoc, List.singleton_append]
  refine .pass hstep ?_
  simpa using Passes.refl _ depth

end DesignCompiler.Markup
