import DesignCompiler.Text.Split
import Mathlib.Data.List.TakeWhile

/-!
# White space, words and pieces

What trimming keeps, where a run of characters ends in a longer text, and how the words of a text
depend on the white space around it. Where a text is cut at a character, which pieces it has, and
how they are joined to it again.
-/

namespace DesignCompiler.Text

/-! ## Trimming -/

theorem mem_dropWhile {p : Char → Bool} {s : List Char} {c : Char} (hmem : c ∈ s)
    (hc : p c = false) :
    c ∈ s.dropWhile p := by
  induction s with
  | nil => exact hmem
  | cons d s ih =>
    rw [List.dropWhile_cons]
    split
    · rename_i hd
      rcases List.mem_cons.1 hmem with rfl | hmem
      · rw [hc] at hd
        cases hd
      · exact ih hmem
    · exact hmem

/-- Trimming keeps every character that is not blank. -/
theorem mem_trim {s : List Char} {c : Char} (hmem : c ∈ s) (hc : isBlank c = false) :
    c ∈ trim s := by
  unfold trim trimEnd trimStart
  have hstart : c ∈ s.dropWhile isBlank := mem_dropWhile hmem hc
  rw [List.mem_reverse]
  exact mem_dropWhile (List.mem_reverse.2 hstart) hc

theorem trim_ne_nil {s : List Char} {c : Char} (hmem : c ∈ s) (hc : isBlank c = false) :
    trim s ≠ [] :=
  List.ne_nil_of_mem (mem_trim hmem hc)

/-! ## Runs of characters in longer texts -/

section Runs

variable {accepts : Char → Bool} {s later : List Char}

/-- A run of characters that ends in a text, or does not go on behind it, is that of the text. -/
theorem takeWhile_append_of_end
    (hend : s.dropWhile accepts = [] → ∀ c ∈ later.head?, accepts c = false) :
    (s ++ later).takeWhile accepts = s.takeWhile accepts := by
  induction s with
  | nil =>
    cases later with
    | nil => rfl
    | cons c later => exact List.takeWhile_cons_of_neg (by simp [hend rfl c rfl])
  | cons c s ih =>
    rw [List.cons_append, List.takeWhile_cons, List.takeWhile_cons]
    split
    · rename_i hc
      rw [ih (List.dropWhile_cons_of_pos hc ▸ hend)]
    · rfl

theorem dropWhile_append_of_end
    (hend : s.dropWhile accepts = [] → ∀ c ∈ later.head?, accepts c = false) :
    (s ++ later).dropWhile accepts = s.dropWhile accepts ++ later := by
  induction s with
  | nil =>
    cases later with
    | nil => rfl
    | cons c later => exact List.dropWhile_cons_of_neg (by simp [hend rfl c rfl])
  | cons c s ih =>
    rw [List.cons_append, List.dropWhile_cons, List.dropWhile_cons]
    split
    · rename_i hc
      exact ih (List.dropWhile_cons_of_pos hc ▸ hend)
    · rfl

/-- The word at the start of a text is no longer for what does not go on with it. -/
theorem takeWhile_append_of_head? (s : List Char)
    (hlater : ∀ c ∈ later.head?, accepts c = false) :
    (s ++ later).takeWhile accepts = s.takeWhile accepts :=
  takeWhile_append_of_end fun _ => hlater

theorem takeWhile_append_head (hs : ∀ c ∈ s, accepts c = true)
    (hlater : ∀ c ∈ later.head?, accepts c = false) :
    (s ++ later).takeWhile accepts = s := by
  rw [takeWhile_append_of_head? s hlater, List.takeWhile_eq_self_iff.2 hs]

theorem dropWhile_append_head (hs : ∀ c ∈ s, accepts c = true)
    (hlater : ∀ c ∈ later.head?, accepts c = false) :
    (s ++ later).dropWhile accepts = later := by
  rw [dropWhile_append_of_end fun _ => hlater, List.dropWhile_eq_nil_iff.2 hs, List.nil_append]

end Runs

/-! ## Blanks around a text -/

/-- Blanks around a text that neither starts nor ends with one are trimmed away. -/
theorem trim_between (before after : List Char) {s : List Char}
    (hbefore : ∀ c ∈ before, isBlank c = true) (hafter : ∀ c ∈ after, isBlank c = true)
    (hhead : ∃ c ∈ s.head?, isBlank c = false) (hlast : ∃ c ∈ s.getLast?, isBlank c = false) :
    trim (before ++ (s ++ after)) = s := by
  obtain ⟨c, hc, hcblank⟩ := hhead
  obtain ⟨d, hd, hdblank⟩ := hlast
  have hstart : trimStart (before ++ (s ++ after)) = s ++ after := by
    refine dropWhile_append_head hbefore ?_
    rw [List.head?_append, Option.mem_def.1 hc]
    rintro e ⟨⟩
    exact hcblank
  have hend : (s ++ after).reverse.dropWhile isBlank = s.reverse := by
    rw [List.reverse_append]
    refine dropWhile_append_head (fun e he => hafter e (List.mem_reverse.1 he)) ?_
    rw [List.head?_reverse, Option.mem_def.1 hd]
    rintro e ⟨⟩
    exact hdblank
  rw [trim, hstart, trimEnd, hend, List.reverse_reverse]

/-- A text between two characters that are not blank is trimmed already. -/
theorem trim_of_ends {c d : Char} (hc : isBlank c = false) (hd : isBlank d = false)
    (s : List Char) :
    trim (c :: (s ++ [d])) = c :: (s ++ [d]) := by
  have htrim := trim_between [] [] (by simp) (by simp) (s := c :: (s ++ [d])) ⟨c, rfl, hc⟩
    ⟨d, by rw [← List.cons_append, List.getLast?_concat]; rfl, hd⟩
  rwa [List.nil_append, List.append_nil] at htrim

/-- Only what stands before a character that is not blank can lose its start. -/
theorem trimStart_append_cons {c : Char} (hc : isBlank c = false) (s t : List Char) :
    trimStart (s ++ c :: t) = trimStart s ++ c :: t := by
  refine dropWhile_append_of_end ?_
  rintro - d ⟨⟩
  exact hc

theorem trimEnd_append_cons {c : Char} (hc : isBlank c = false) (s t : List Char) :
    trimEnd (s ++ c :: t) = s ++ c :: trimEnd t := by
  have hdrop : (t.reverse ++ c :: s.reverse).dropWhile isBlank =
      t.reverse.dropWhile isBlank ++ c :: s.reverse := by
    refine dropWhile_append_of_end ?_
    rintro - d ⟨⟩
    exact hc
  simp [trimEnd, hdrop]

theorem trimEnd_eq_self {s : List Char} (hlast : ∀ c ∈ s.getLast?, isBlank c = false) :
    trimEnd s = s := by
  rw [← List.head?_reverse] at hlast
  cases hs : s.reverse with
  | nil => rw [List.reverse_eq_nil_iff.1 hs]; rfl
  | cons c rest =>
    rw [hs] at hlast
    rw [trimEnd, hs, List.dropWhile_cons_of_neg (by simp [hlast c rfl]), ← hs,
      List.reverse_reverse]

/-- Trimming takes a piece off the end. -/
theorem exists_trimEnd_append (s : List Char) : ∃ blanks, trimEnd s ++ blanks = s := by
  refine ⟨(s.reverse.takeWhile isBlank).reverse, ?_⟩
  rw [trimEnd, ← List.reverse_append, List.takeWhile_append_dropWhile, List.reverse_reverse]

/-- A text is what trimming leaves of it, with white space on both sides. -/
theorem exists_blanks_around_trim (s : List Char) :
    ∃ before after, s = before ++ (trim s ++ after) ∧ (∀ c ∈ before, isBlank c = true) ∧
      ∀ c ∈ after, isBlank c = true := by
  have hsplit (t : List Char) : t = trimEnd t ++ (t.reverse.takeWhile isBlank).reverse := by
    rw [trimEnd, ← List.reverse_append, List.takeWhile_append_dropWhile, List.reverse_reverse]
  refine ⟨s.takeWhile isBlank, ((trimStart s).reverse.takeWhile isBlank).reverse, ?_, ?_, ?_⟩
  · rw [trim, ← hsplit, trimStart, List.takeWhile_append_dropWhile]
  · exact fun c hc => List.mem_takeWhile_imp hc
  · exact fun c hc => List.mem_takeWhile_imp (List.mem_reverse.1 hc)

theorem mem_of_mem_trimEnd {s : List Char} {c : Char} (hc : c ∈ trimEnd s) : c ∈ s := by
  obtain ⟨blanks, hs⟩ := exists_trimEnd_append s
  exact hs ▸ List.mem_append_left blanks hc

/-! ## Pieces -/

theorem splitWhere_eq_self {p : Char → Bool} {s : List Char} (hs : ∀ c ∈ s, p c = false) :
    splitWhere p s = [s] := by
  induction s with
  | nil => rfl
  | cons c s ih =>
    have hc := hs c List.mem_cons_self
    rw [splitWhere, ih fun d hd => hs d (List.mem_cons_of_mem c hd), hc]
    rfl

/-- What is no separator goes to the first piece behind it. -/
theorem exists_splitWhere_cons {p : Char → Bool} {c : Char} (hc : ¬ p c = true) (s : List Char) :
    ∃ piece pieces, splitWhere p s = piece :: pieces ∧
      splitWhere p (c :: s) = (c :: piece) :: pieces := by
  cases hpieces : splitWhere p s with
  | nil => exact absurd hpieces (splitWhere_ne_nil p s)
  | cons piece pieces => exact ⟨piece, pieces, rfl, by rw [splitWhere, if_neg hc, hpieces]⟩

/-- Every character is a separator or in a piece. -/
theorem mem_splitWhere {p : Char → Bool} {s : List Char} {c : Char} (hc : c ∈ s) :
    p c = true ∨ ∃ piece ∈ splitWhere p s, c ∈ piece := by
  induction s with
  | nil => cases hc
  | cons d s ih =>
    by_cases hd : p d = true
    · simp only [splitWhere, if_pos hd]
      rcases List.mem_cons.1 hc with rfl | hc
      · exact .inl hd
      · obtain h | ⟨piece, hpiece, hmem⟩ := ih hc
        · exact .inl h
        · exact .inr ⟨piece, List.mem_cons_of_mem _ hpiece, hmem⟩
    · obtain ⟨first, pieces, hpieces, hcons⟩ := exists_splitWhere_cons hd s
      rw [hpieces] at ih
      rw [hcons]
      rcases List.mem_cons.1 hc with rfl | hc
      · exact .inr ⟨c :: first, List.mem_cons_self, List.mem_cons_self⟩
      · obtain h | ⟨piece, hpiece, hmem⟩ := ih hc
        · exact .inl h
        · rcases List.mem_cons.1 hpiece with rfl | hpiece
          · exact .inr ⟨d :: piece, List.mem_cons_self, List.mem_cons_of_mem d hmem⟩
          · exact .inr ⟨piece, List.mem_cons_of_mem _ hpiece, hmem⟩

/-- There is no separator in a piece. -/
theorem not_of_mem_splitWhere {p : Char → Bool} {s piece : List Char} {c : Char}
    (hpiece : piece ∈ splitWhere p s) (hc : c ∈ piece) : p c = false := by
  induction s generalizing piece with
  | nil =>
    rw [splitWhere, List.mem_singleton] at hpiece
    subst hpiece
    cases hc
  | cons d s ih =>
    by_cases hd : p d = true
    · simp only [splitWhere, if_pos hd] at hpiece
      rcases List.mem_cons.1 hpiece with rfl | hpiece
      · cases hc
      · exact ih hpiece hc
    · obtain ⟨first, pieces, hpieces, hcons⟩ := exists_splitWhere_cons hd s
      rw [hpieces] at ih
      rw [hcons] at hpiece
      rcases List.mem_cons.1 hpiece with rfl | hpiece
      · rcases List.mem_cons.1 hc with rfl | hc
        · exact Bool.eq_false_iff.2 hd
        · exact ih List.mem_cons_self hc
      · exact ih (List.mem_cons_of_mem first hpiece) hc

/-- The first piece is the text up to the first separator. -/
theorem head?_splitWhere (p : Char → Bool) (s : List Char) :
    (splitWhere p s).head? = some (s.takeWhile fun c => !p c) := by
  induction s with
  | nil => rfl
  | cons d s ih =>
    by_cases hd : p d = true
    · simp [splitWhere, hd]
    · obtain ⟨first, pieces, hpieces, hcons⟩ := exists_splitWhere_cons hd s
      rw [hpieces] at ih
      rw [hcons]
      simp [hd, Option.some.inj ih]

/-! ## Words -/

/-- A separator parts the pieces before it from those behind it. -/
theorem splitWhere_append_cons {p : Char → Bool} {c : Char} (hc : p c = true) (s t : List Char) :
    splitWhere p (s ++ c :: t) = splitWhere p s ++ splitWhere p t := by
  induction s with
  | nil => simp [splitWhere, hc]
  | cons d s ih =>
    by_cases hd : p d = true
    · simp only [List.cons_append, splitWhere, if_pos hd, ih]
    · obtain ⟨piece, pieces, hpieces, hcons⟩ := exists_splitWhere_cons hd s
      rw [List.cons_append, hcons, splitWhere, if_neg hd, ih, hpieces]
      rfl

/-- The pieces between characters of a class that are not empty. -/
def wordsWhere (isSeparator : Char → Bool) (s : List Char) : List (List Char) :=
  (splitWhere isSeparator s).filter (!·.isEmpty)

section WordsWhere

variable {p : Char → Bool} {s t : List Char}

theorem wordsWhere_append_cons {c : Char} (hc : p c = true) (s t : List Char) :
    wordsWhere p (s ++ c :: t) = wordsWhere p s ++ wordsWhere p t := by
  unfold wordsWhere
  rw [splitWhere_append_cons hc, List.filter_append]

/-- Separators in front of a text add no words. -/
theorem wordsWhere_separators_append (hs : ∀ c ∈ s, p c = true) :
    wordsWhere p (s ++ t) = wordsWhere p t := by
  induction s with
  | nil => rfl
  | cons c s ih =>
    have hfirst := wordsWhere_append_cons (hs c List.mem_cons_self) [] (s ++ t)
    rw [List.nil_append] at hfirst
    rw [List.cons_append, hfirst, ih fun d hd => hs d (List.mem_cons_of_mem c hd)]
    rfl

theorem wordsWhere_of_separators (hs : ∀ c ∈ s, p c = true) : wordsWhere p s = [] := by
  have hnone := wordsWhere_separators_append (t := []) hs
  rwa [List.append_nil] at hnone

/-- A text without separators is one word. -/
theorem wordsWhere_eq_singleton (hne : s ≠ []) (hs : ∀ c ∈ s, p c = false) :
    wordsWhere p s = [s] := by
  unfold wordsWhere
  rw [splitWhere_eq_self hs]
  simp [hne]

end WordsWhere

theorem words_append_cons {c : Char} (hc : isBlank c = true) (s t : List Char) :
    words (s ++ c :: t) = words s ++ words t :=
  wordsWhere_append_cons hc s t

theorem words_of_blank {s : List Char} (hs : ∀ c ∈ s, isBlank c = true) : words s = [] :=
  wordsWhere_of_separators hs

/-- White space around a text adds no words. -/
theorem words_blank_append {b s : List Char} (hb : ∀ c ∈ b, isBlank c = true) :
    words (b ++ s) = words s :=
  wordsWhere_separators_append hb

theorem words_append_blank {b s : List Char} (hb : ∀ c ∈ b, isBlank c = true) :
    words (s ++ b) = words s := by
  cases b with
  | nil => rw [List.append_nil]
  | cons c b =>
    rw [words_append_cons (hb c List.mem_cons_self),
      words_of_blank fun d hd => hb d (List.mem_cons_of_mem c hd), List.append_nil]

theorem words_of_not_blank {s : List Char} (hne : s ≠ []) (hs : ∀ c ∈ s, isBlank c = false) :
    words s = [s] :=
  wordsWhere_eq_singleton hne hs

/-- A word and blanks in front of other words. -/
theorem words_append_gap {s gap t : List Char} (hne : gap ≠ [])
    (hgap : ∀ c ∈ gap, isBlank c = true) :
    words (s ++ (gap ++ t)) = words s ++ words t := by
  obtain ⟨c, gap, rfl⟩ := List.exists_cons_of_ne_nil hne
  rw [List.cons_append, words_append_cons (hgap c List.mem_cons_self),
    words_blank_append fun d hd => hgap d (List.mem_cons_of_mem c hd)]

/-! ## Cutting -/

theorem splitFirst_append {c : Char} {s : List Char} (hs : c ∉ s) (t : List Char) :
    splitFirst c (s ++ c :: t) = some (s, t) := by
  induction s with
  | nil => simp [splitFirst]
  | cons d s ih =>
    have hd : (d == c) = false := beq_false_of_ne fun h => hs (h ▸ List.mem_cons_self)
    have hlater := ih fun h => hs (List.mem_cons_of_mem d h)
    rw [List.cons_append, splitFirst, hd, hlater]
    rfl

theorem splitFirst_eq_none {c : Char} {s : List Char} (hs : c ∉ s) : splitFirst c s = none := by
  induction s with
  | nil => rfl
  | cons d s ih =>
    rw [List.mem_cons, not_or] at hs
    rw [splitFirst, ih hs.2, if_neg (by simpa using Ne.symm hs.1)]
    rfl

/-- A text with a separator in it is parted there, one without is not. -/
theorem splitFirst_spec (separator : Char) (s : List Char) :
    (separator ∉ s ∧ splitFirst separator s = none) ∨
      ∃ a b, s = a ++ separator :: b ∧ splitFirst separator s = some (a, b) := by
  induction s with
  | nil => exact .inl ⟨List.not_mem_nil, rfl⟩
  | cons c s ih =>
    rw [splitFirst]
    by_cases hc : c = separator
    · subst hc
      exact .inr ⟨[], s, rfl, by simp⟩
    · rcases ih with ⟨hmem, hsplit⟩ | ⟨a, b, rfl, hsplit⟩
      · exact .inl ⟨by simp [Ne.symm hc, hmem], by simp [hc, hsplit]⟩
      · exact .inr ⟨c :: a, b, rfl, by simp [hc, hsplit]⟩

theorem splitLast_append {c : Char} {t : List Char} (ht : c ∉ t) (s : List Char) :
    splitLast c (s ++ c :: t) = some (s, t) := by
  have hnone : splitLast c t = none := by
    induction t with
    | nil => rfl
    | cons d t ih =>
      rw [List.mem_cons, not_or] at ht
      rw [splitLast, ih ht.2]
      simp [Ne.symm ht.1]
  induction s with
  | nil => simp [splitLast, hnone]
  | cons d s ih => rw [List.cons_append, splitLast, ih]

/-! ## Joined pieces -/

theorem splitAt_eq_self {separator : Char} {s : List Char} (hs : separator ∉ s) :
    splitAt separator s = [s] := by
  refine splitWhere_eq_self ?_
  intro c hc
  refine beq_false_of_ne ?_
  intro heq
  exact hs (heq ▸ hc)

theorem splitAt_append_cons (separator : Char) (s t : List Char) :
    splitAt separator (s ++ separator :: t) = splitAt separator s ++ splitAt separator t :=
  splitWhere_append_cons (p := (· == separator)) (beq_self_eq_true separator) s t

theorem joinWith_cons {separator : List Char} {pieces : List (List Char)} (piece : List Char)
    (hne : pieces ≠ []) :
    joinWith separator (piece :: pieces) = piece ++ separator ++ joinWith separator pieces := by
  obtain ⟨next, pieces, rfl⟩ := List.exists_cons_of_ne_nil hne
  rfl

theorem joinWith_eq_intercalate (separator : List Char) (pieces : List (List Char)) :
    joinWith separator pieces = separator.intercalate pieces := by
  induction pieces with
  | nil => rfl
  | cons piece pieces ih =>
    by_cases hne : pieces = []
    · subst hne
      exact List.intercalate_singleton.symm
    · rw [joinWith_cons piece hne, ih, List.intercalate_cons_of_ne_nil hne]

theorem joinWith_append {separator : List Char} {pieces later : List (List Char)}
    (hpieces : pieces ≠ []) (hlater : later ≠ []) :
    joinWith separator (pieces ++ later) =
      joinWith separator pieces ++ separator ++ joinWith separator later := by
  induction pieces with
  | nil => exact absurd rfl hpieces
  | cons piece pieces ih =>
    by_cases hne : pieces = []
    · subst hne
      exact joinWith_cons piece hlater
    · rw [List.cons_append, joinWith_cons piece (by simp [hne]), joinWith_cons piece hne, ih hne]
      simp

/-- Only the last of joined pieces can lose its end. -/
theorem trimEnd_joinWith {separator : Char} (hseparator : isBlank separator = false)
    (pieces : List (List Char)) (last : List Char) :
    trimEnd (joinWith [separator] (pieces ++ [last])) =
      joinWith [separator] (pieces ++ [trimEnd last]) := by
  by_cases hne : pieces = []
  · subst hne
    rfl
  · have hlast (piece : List Char) :
        joinWith [separator] (pieces ++ [piece]) =
          joinWith [separator] pieces ++ separator :: piece := by
      rw [joinWith_append hne (List.cons_ne_nil piece []), List.append_assoc]
      rfl
    rw [hlast, hlast, trimEnd_append_cons hseparator]

/-- Cutting joined pieces at the separator gives the pieces back. -/
theorem splitAt_joinWith {separator : Char} {pieces : List (List Char)} (hne : pieces ≠ [])
    (hpieces : ∀ piece ∈ pieces, separator ∉ piece) :
    splitAt separator (joinWith [separator] pieces) = pieces := by
  induction pieces with
  | nil => exact absurd rfl hne
  | cons piece pieces ih =>
    have hpiece := splitAt_eq_self (hpieces piece List.mem_cons_self)
    by_cases hlater : pieces = []
    · subst hlater
      exact hpiece
    · rw [joinWith_cons piece hlater, List.append_assoc, List.singleton_append,
        splitAt_append_cons, hpiece,
        ih hlater fun p hp => hpieces p (List.mem_cons_of_mem piece hp)]
      rfl

/-- The characters of joined texts are those of their joined characters. -/
theorem toList_intercalate (separator : String) (texts : List String) :
    (separator.intercalate texts).toList =
      joinWith separator.toList (texts.map String.toList) := by
  rw [String.toList_intercalate, joinWith_eq_intercalate]

/-- Every character of joined pieces is of the separator or of a piece. -/
theorem mem_joinWith {separator : List Char} {pieces : List (List Char)} {c : Char}
    (hc : c ∈ joinWith separator pieces) : c ∈ separator ∨ ∃ piece ∈ pieces, c ∈ piece := by
  induction pieces with
  | nil => cases hc
  | cons piece pieces ih =>
    cases pieces with
    | nil => exact .inr ⟨piece, List.mem_cons_self, hc⟩
    | cons next pieces =>
      rcases List.mem_append.1 hc with hc | hc
      · rcases List.mem_append.1 hc with hc | hc
        · exact .inr ⟨piece, List.mem_cons_self, hc⟩
        · exact .inl hc
      · exact (ih hc).imp_right
          fun ⟨other, hother, hmem⟩ => ⟨other, List.mem_cons_of_mem piece hother, hmem⟩

/-- A text that is not blank has words. -/
theorem joinWith_words_ne_nil {s : List Char} {c : Char} (hmem : c ∈ s) (hc : isBlank c = false) :
    joinWith [' '] (words s) ≠ [] := by
  have hpieces : ∀ piece ∈ words s, piece ≠ [] := by
    intro piece hpiece
    simpa using (List.mem_filter.1 hpiece).2
  have hword : words s ≠ [] := by
    rcases mem_splitWhere (p := isBlank) hmem with hblank | ⟨piece, hpiece, hin⟩
    · rw [hc] at hblank
      cases hblank
    · refine List.ne_nil_of_mem (a := piece) (List.mem_filter.2 ⟨hpiece, ?_⟩)
      simpa using List.ne_nil_of_mem hin
  cases hwords : words s with
  | nil => exact absurd hwords hword
  | cons piece pieces =>
    have hpiece := hpieces piece (by rw [hwords]; exact List.mem_cons_self)
    cases pieces with
    | nil => exact hpiece
    | cons next pieces => simp [joinWith, hpiece]

/-! ## Replacing -/

section Replacing

variable {c d : Char} {old new s : List Char}

/-- A character that does not begin what is replaced stays. -/
theorem replace_cons_of_ne (hc : c ≠ d) :
    replace (d :: old) new (c :: s) = c :: replace (d :: old) new s := by
  have hstart : startsWith (d :: old) (c :: s) = false := by
    simp [startsWith, stripStart, Ne.symm hc]
  rw [replace, replaceFrom, hstart]
  rfl

theorem replaceFrom_append (skipped s : List Char) :
    replaceFrom old new skipped.length (skipped ++ s) = replace old new s := by
  induction skipped with
  | nil => rfl
  | cons c skipped ih => exact ih

theorem stripStart_append (start s : List Char) : stripStart start (start ++ s) = some s := by
  induction start with
  | nil => rfl
  | cons c start ih => rw [List.cons_append, stripStart, beq_self_eq_true, if_pos rfl, ih]

/-- What is replaced gives way where it stands, and replacing goes on behind it. -/
theorem replace_append (hold : old ≠ []) :
    replace old new (old ++ s) = new ++ replace old new s := by
  obtain ⟨d, old, rfl⟩ := List.exists_cons_of_ne_nil hold
  have hstart : startsWith (d :: old) (d :: (old ++ s)) = true := by
    rw [startsWith, ← List.cons_append, stripStart_append]
    rfl
  rw [List.cons_append, replace, replaceFrom, hstart, if_pos rfl, List.length_cons,
    Nat.add_sub_cancel, replaceFrom_append]

end Replacing

end DesignCompiler.Text
