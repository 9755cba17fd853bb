import DesignCompiler.Markup.Declaration
import DesignCompiler.Proofs.Text.Class
import DesignCompiler.Proofs.Text.Words

/-!
# Lists of names

Names with commas between them, as they stand in the braces of an import, are read back as the
names (`commaPieces_names`). Nothing is asked of a name but that it consists of ASCII letters and
digits and is not empty.
-/

namespace DesignCompiler.Markup

open Text (isBlank)

/-! ## Pieces between commas -/

theorem commaPieces_append_cons (s t : List Char) :
    commaPieces (s ++ ',' :: t) = commaPieces s ++ commaPieces t := by
  unfold commaPieces Text.splitAt
  rw [Text.splitWhere_append_cons (by decide), List.map_append, List.filter_append]

/-- The pieces of texts with commas between them are those of each text. -/
theorem commaPieces_joinWith (texts : List (List Char)) :
    commaPieces (Text.joinWith [','] texts) = texts.flatMap commaPieces := by
  induction texts with
  | nil => rfl
  | cons text texts ih =>
    cases texts with
    | nil => simp [Text.joinWith]
    | cons next texts =>
      show commaPieces (text ++ [','] ++ Text.joinWith [','] (next :: texts)) = _
      rw [List.append_assoc, List.singleton_append, commaPieces_append_cons, ih]
      rfl

theorem ne_comma_of_isBlank {c : Char} (hc : isBlank c = true) : c ≠ ',' := by
  rintro rfl
  exact absurd hc (by decide)

theorem commaPieces_of_blank {s : List Char} (hs : ∀ c ∈ s, isBlank c = true) :
    commaPieces s = [] := by
  unfold commaPieces Text.splitAt
  rw [Text.splitWhere_eq_self fun c hc => beq_false_of_ne (ne_comma_of_isBlank (hs c hc))]
  simp [Text.trim, Text.trimStart, Text.trimEnd, List.dropWhile_eq_nil_iff.2 hs]

/-- A text without commas and with blanks around it is one piece. -/
theorem commaPieces_between (before after : List Char) {s : List Char}
    (hbefore : ∀ c ∈ before, isBlank c = true) (hafter : ∀ c ∈ after, isBlank c = true)
    (hs : ',' ∉ s) (hhead : ∃ c ∈ s.head?, isBlank c = false)
    (hlast : ∃ c ∈ s.getLast?, isBlank c = false) :
    commaPieces (before ++ (s ++ after)) = [s] := by
  have hcomma : ∀ c ∈ before ++ (s ++ after), (c == ',') = false := by
    intro c hc
    refine beq_false_of_ne ?_
    simp only [List.mem_append] at hc
    rcases hc with hc | hc | hc
    · exact ne_comma_of_isBlank (hbefore c hc)
    · exact fun h => hs (h ▸ hc)
    · exact ne_comma_of_isBlank (hafter c hc)
  have hne : s ≠ [] := by
    rintro rfl
    obtain ⟨c, hc, -⟩ := hhead
    cases hc
  unfold commaPieces Text.splitAt
  rw [Text.splitWhere_eq_self hcomma, List.map_singleton,
    Text.trim_between before after hbefore hafter hhead hlast]
  simp [hne]

/-! ## Names between commas -/

section Names

variable {names : List String}

/-- A name with blanks around it is one piece. -/
theorem commaPieces_name {name : String} (hne : name ≠ "")
    (hname : ∀ c ∈ name.toList, c.isAlphanum = true) {after : List Char}
    (hafter : ∀ c ∈ after, isBlank c = true) :
    commaPieces (' ' :: (name.toList ++ after)) = [name.toList] := by
  have hnonempty : name.toList ≠ [] := by simpa using hne
  have hblank : ∀ c ∈ name.toList, isBlank c = false := fun c hc =>
    Text.isBlank_eq_false_of_isNameChar (Text.isNameChar_of_isAlphanum (hname c hc))
  exact commaPieces_between [' '] after (by decide) hafter
    (fun h => absurd (hname ',' h) (by decide))
    ⟨_, List.head?_eq_some_head hnonempty, hblank _ (List.head_mem hnonempty)⟩
    ⟨_, List.getLast?_eq_some_getLast hnonempty, hblank _ (List.getLast_mem hnonempty)⟩

/-- Names between commas are the pieces of the text, a blank on either side allowed. -/
theorem commaPieces_names (names : List String)
    (hnames : ∀ name ∈ names, name ≠ "" ∧ ∀ c ∈ name.toList, c.isAlphanum = true) :
    commaPieces (' ' :: ((", ".intercalate names).toList ++ [' '])) =
      names.map String.toList := by
  rw [Text.toList_intercalate]
  induction names with
  | nil => decide
  | cons name names ih =>
    obtain ⟨hne, hname⟩ := hnames name List.mem_cons_self
    have hlater := ih fun other hother => hnames other (List.mem_cons_of_mem name hother)
    cases names with
    | nil => exact commaPieces_name hne hname (by decide)
    | cons next names =>
      have hjoin :
          ' ' :: (Text.joinWith ", ".toList ((name :: next :: names).map String.toList) ++
              [' ']) =
            ' ' :: (name.toList ++ []) ++ ',' ::
              (' ' :: (Text.joinWith ", ".toList ((next :: names).map String.toList) ++
                [' '])) := by
        simp [Text.joinWith]
      rw [hjoin, commaPieces_append_cons, commaPieces_name hne hname (by simp), hlater]
      rfl

end Names

end DesignCompiler.Markup
