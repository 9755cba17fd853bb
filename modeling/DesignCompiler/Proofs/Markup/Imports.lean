import DesignCompiler.Proofs.Markup.Statements

/-!
# Import lines read back

Import lines at the start of a source, each with a semicolon and a line feed behind it, are found
one after the other, each with its clause and its module, and nothing else is:
`importsOf_importLines`. They are statements in the sense of `Statements`, with the line feed
counted to the statement that follows.

`IsClause` is what is asked of a clause here: a blank in a clause stands alone, and what follows
it does not start like the word in front of the module.
-/

namespace DesignCompiler.Markup

open Text (Pattern isBlank newlines)

/-! ## Printed lines -/

/-- Each blank stands alone, and what follows it does not start like the word in front of a
module. -/
def Spaced (s : List Char) : Prop :=
  ∀ u b v, s = u ++ b :: v → isBlank b = true → ∃ c w, v = c :: w ∧ isBlank c = false ∧ c ≠ 'f'

theorem spaced_of_not_blank {s : List Char} (hs : ∀ c ∈ s, isBlank c = false) : Spaced s := by
  rintro u b v rfl hb
  rw [hs b (by simp)] at hb
  cases hb

theorem Spaced.append {s t : List Char} (hs : Spaced s) (ht : Spaced t) : Spaced (s ++ t) := by
  intro u b v hsplit hb
  rcases List.append_eq_append_iff.1 hsplit with ⟨w, rfl, hw⟩ | ⟨w, hw, hv⟩
  · exact ht w b v hw hb
  · cases w with
    | nil => exact ht [] b v hv.symm hb
    | cons d w =>
      cases hv
      obtain ⟨c, more, rfl, hc⟩ := hs u b w hw hb
      exact ⟨c, more ++ t, rfl, hc⟩

theorem Spaced.cons {c : Char} {s : List Char} (hc : isBlank c = false) (hf : c ≠ 'f')
    (hs : Spaced (c :: s)) (b : Char) : Spaced (b :: c :: s) := by
  intro u d v hsplit hd
  cases u with
  | nil =>
    cases hsplit
    exact ⟨c, s, rfl, hc, hf⟩
  | cons e u => exact hs u d v (List.cons.inj hsplit).2 hd

/-- The clause of an import as it is printed. -/
structure IsClause (clause : List Char) : Prop where
  ne_nil : clause ≠ []
  accepted : ∀ c ∈ clause, (c != ';' && !isPlainQuote c) = true
  head : ∀ c ∈ clause.head?, isBlank c = false ∧ c ≠ 't'
  spaced : Spaced clause
  oneLine : '\n' ∉ clause

/-- An import up to the quote behind its module. -/
def importStatement (clause module : List Char) : List Char :=
  "import".toList ++ ([' '] ++
    (clause ++ ([' '] ++ ("from".toList ++ ([' '] ++ ('\x27' :: (module ++ ['\x27'])))))))

theorem importStatement_eq (clause module : List Char) :
    importStatement clause module =
      "import".toList ++ ([' '] ++ (clause ++ ([' '] ++ ("from".toList ++
        ([' '] ++ ('\x27' :: (module ++ ['\x27']))))))) :=
  rfl

/-- An import line. -/
def importText (l : List Char × List Char) : List Char :=
  importStatement l.1 l.2 ++ [';', '\n']

theorem newline_not_mem_importStatement {clause module : List Char} (hclause : IsClause clause)
    (hmodule : IsModule module) : '\n' ∉ importStatement clause module := by
  rw [importStatement_eq]
  simp only [List.mem_append, List.mem_cons, List.not_mem_nil, or_false, hclause.oneLine,
    hmodule.oneLine, false_or]
  decide

/-! ## Lines as statements -/

theorem IsClause.isClauseText {clause : List Char} (h : IsClause clause) :
    IsClauseText clause where
  accepted := h.accepted
  head := by
    obtain ⟨c, rest, rfl⟩ := List.exists_cons_of_ne_nil h.ne_nil
    exact ⟨c, rfl, (h.head c rfl).1⟩
  last := by
    -- a blank at the end of a clause would have nothing behind it
    refine ⟨_, List.getLast?_eq_some_getLast h.ne_nil, Bool.eq_false_iff.2 fun hblank => ?_⟩
    obtain ⟨c, w, hnil, -⟩ :=
      h.spaced clause.dropLast _ [] (List.dropLast_concat_getLast h.ne_nil).symm hblank
    cases hnil
  untyped := by
    intro htype
    obtain ⟨c, rest, rfl⟩ := List.exists_cons_of_ne_nil h.ne_nil
    obtain ⟨hc, ht⟩ := h.head c rfl
    rw [List.takeWhile_cons_of_pos (by simp [hc])] at htype
    exact ht (List.cons.inj htype).1

/-- A line that is printed, as its clause and its module. -/
abbrev ImportLine := { l : List Char × List Char // IsClause l.1 ∧ IsModule l.2 }

/-- The statement on a line; the line feed in front of it is that of the line above, if there is
one. -/
def ImportLine.statement (isFirst : Bool) (l : ImportLine) :
    Statement { s : List Char // IsClause s } where
  lead := if isFirst then [] else ['\n']
  indent := []
  gap := space
  bindings := some ⟨⟨l.1.1, l.2.1⟩, space, space⟩
  quote := '\x27'
  module := l.1.2
  semicolon := true
  lead_blank := by cases isFirst <;> decide
  lead_ends := by cases isFirst <;> decide
  indent_pads := isPad_of_mem_nil
  quote_plain := isPlainQuote_single
  isModule := l.2.2

section Sources

variable {lines : List (List Char × List Char)} {tail : List Char}

theorem text_statement (isFirst : Bool) (l : ImportLine) :
    (l.statement isFirst).text Subtype.val =
      (l.statement isFirst).lead ++ (importStatement l.1.1 l.1.2 ++ [';']) := by
  simp [Statement.text, Statement.front, Statement.quoted, Statement.ending, Bindings.text,
    ImportLine.statement, space, importStatement_eq]

theorem newlines_statement (isFirst : Bool) (l : ImportLine) :
    newlines ((l.statement isFirst).text Subtype.val) = newlines (l.statement isFirst).lead := by
  have hnone : newlines (importStatement l.1.1 l.1.2) = 0 :=
    List.count_eq_zero.2 (newline_not_mem_importStatement l.2.1 l.2.2)
  rw [text_statement, newlines_append, newlines_append, hnone]
  rfl

/-- The line feed behind each line is the one in front of the next. -/
theorem text_statements (ls : List ImportLine) :
    (ls.map (ImportLine.statement false)).flatMap (Statement.text Subtype.val) ++ ['\n'] =
      '\n' :: ls.flatMap fun l => importText l.1 := by
  induction ls with
  | nil => rfl
  | cons l ls ih =>
    rw [List.map_cons, List.flatMap_cons, List.append_assoc, ih, text_statement]
    simp [ImportLine.statement, importText]

theorem placed_statements (n : Nat) (ls : List ImportLine) :
    ((placed Subtype.val n (ls.map (ImportLine.statement false))).map
      fun s => s.1.importAt Subtype.val s.2) =
      (ls.zipIdx (n + 1)).map fun s => Import.ofClause (String.ofList s.1.1.2) s.2 s.1.1.1 := by
  induction ls generalizing n with
  | nil => rfl
  | cons l ls ih =>
    have hline : newlines (l.statement false).lead = 1 := rfl
    rw [List.map_cons, placed, newlines_statement, hline, List.map_cons, ih, List.zipIdx_cons,
      List.map_cons]
    rfl

/-- **Import lines at the start of a source are its imports**, in order, when no later line starts
like one. -/
theorem importsOf_importLines (hlines : ∀ l ∈ lines, IsClause l.1 ∧ IsModule l.2)
    (htail : WithoutImports tail) :
    importsOf (lines.flatMap importText ++ tail) =
      (lines.zipIdx 1).map fun (l, n) => Import.ofClause (String.ofList l.2) n l.1 := by
  obtain ⟨ls, rfl⟩ : ∃ ls : List ImportLine, ls.map Subtype.val = lines :=
    ⟨lines.attachWith _ hlines, List.attachWith_map_subtype_val hlines⟩
  have hspell (c : { s : List Char // IsClause s }) := c.2.isClauseText
  cases ls with
  | nil => exact importsOf_statements [] hspell (by simp) htail
  | cons l ls =>
    have hlater : ∀ st ∈ (l.statement true :: ls.map (ImportLine.statement false)).tail,
        st.lead ≠ [] := by
      intro st hst
      obtain ⟨k, -, rfl⟩ := List.mem_map.1 hst
      exact List.cons_ne_nil _ _
    have hbehind : WithoutImports ('\n' :: tail) :=
      Pattern.atLines_line [] (by simp) (by simp [isPad]) htail
    have hfound := importsOf_statements _ hspell hlater hbehind
    have hlead : newlines (l.statement true).lead = 0 := rfl
    rw [placed, newlines_statement, hlead, List.map_cons, placed_statements] at hfound
    have htext : ((l :: ls).map Subtype.val).flatMap importText ++ tail =
        (l.statement true :: ls.map (ImportLine.statement false)).flatMap
          (Statement.text Subtype.val) ++
          '\n' :: tail := by
      have hlines := congrArg (· ++ tail) (text_statements ls)
      rw [List.append_assoc, List.singleton_append] at hlines
      rw [List.flatMap_cons, List.append_assoc, hlines, text_statement, List.flatMap_map]
      simp [ImportLine.statement, importText]
    rw [htext, hfound, List.zipIdx_map, List.map_map]
    rfl

end Sources

end DesignCompiler.Markup
