import DesignCompiler.Proofs.Markup.Clauses
import DesignCompiler.Proofs.Synthesis.Lines
import DesignCompiler.Validation.Quality

/-!
# Structures of component sources

All that the checks see of a source that was made here. Its import lines are found one by one,
each with the names between its braces (`importsOf_sourceText`), and what is declared in it starts
with a capital. `IsMade` collects this with the elements, for a source that shows a tree, one that
was given up, and one that returns null.
-/

namespace DesignCompiler.Synthesis

open Markup (Import IsClause IsModule IsRead NamedImport Spaced Structure importText)
open Text (isBlank)

/-! ## Clauses -/

section Clauses

variable {names : List String} {name : String}

/-- The clause of an import line: names between braces. -/
def clauseOf (names : List String) : List Char :=
  '\x7b' :: (' ' :: ((", ".intercalate names).toList ++ [' ', '\x7d']))

theorem isBlank_eq_false_of_mem_segment (hname : Catalog.isNameSegment name.toList = true)
    {c : Char} (hc : c ∈ name.toList) : isBlank c = false := by
  obtain ⟨_, _, _, _, halnum⟩ := Catalog.isNameSegment_eq_true hname
  exact Text.isBlank_eq_false_of_isNameChar (Text.isNameChar_of_isAlphanum (halnum c hc))

/-- Names with a comma and a blank between them, behind a blank. -/
theorem spaced_intercalate (hne : names ≠ [])
    (hnames : ∀ n ∈ names, Catalog.isNameSegment n.toList = true) :
    Spaced (' ' :: ((", ".intercalate names).toList ++ [' ', '\x7d'])) := by
  rw [Text.toList_intercalate]
  induction names with
  | nil => exact absurd rfl hne
  | cons n names ih =>
    have hname := hnames n List.mem_cons_self
    obtain ⟨c, more, hchars, hupper, -⟩ := Catalog.isNameSegment_eq_true hname
    have hblank : ∀ d ∈ c :: more, isBlank d = false := fun d hd =>
      isBlank_eq_false_of_mem_segment hname (hchars ▸ hd)
    have hf : c ≠ 'f' := by
      rintro rfl
      exact absurd hupper (by decide)
    cases names with
    | nil =>
      have hlast : Spaced [' ', '\x7d'] :=
        (Markup.spaced_of_not_blank (s := ['\x7d']) (by decide)).cons (by decide) (by decide) ' '
      have hall := ((Markup.spaced_of_not_blank hblank).append hlast).cons
        (hblank c List.mem_cons_self) hf ' '
      simpa [Text.joinWith, hchars] using hall
    | cons next names =>
      have hlater :=
        ih (List.cons_ne_nil next names) fun m hm => hnames m (List.mem_cons_of_mem n hm)
      have hcomma : Spaced [','] := Markup.spaced_of_not_blank (by decide)
      have hall := ((Markup.spaced_of_not_blank hblank).append (hcomma.append hlater)).cons
        (hblank c List.mem_cons_self) hf ' '
      simpa [Text.joinWith, hchars] using hall

theorem isClause_clauseOf (hne : names ≠ [])
    (hnames : ∀ n ∈ names, Catalog.isNameSegment n.toList = true) :
    IsClause (clauseOf names) := by
  have hmem {c : Char} (hc : c ∈ clauseOf names) :
      c ∈ ['\x7b', ' ', ',', '\x7d'] ∨ c.isAlphanum = true := by
    simp only [clauseOf, List.mem_cons, List.mem_append, List.not_mem_nil, or_false] at hc
    rcases hc with rfl | rfl | hc | rfl | rfl
    · exact .inl (by decide)
    · exact .inl (by decide)
    · rcases mem_toList_intercalate hc with rfl | rfl | ⟨n, hn, hmem⟩
      · exact .inl (by decide)
      · exact .inl (by decide)
      · obtain ⟨_, _, _, _, halnum⟩ := Catalog.isNameSegment_eq_true (hnames n hn)
        exact .inr (halnum c hmem)
    · exact .inl (by decide)
    · exact .inl (by decide)
  refine ⟨List.cons_ne_nil _ _, ?_, ?_, ?_, ?_⟩
  · intro c hc
    rcases hmem hc with hmark | halnum
    · have hmarks : ∀ c ∈ ['\x7b', ' ', ',', '\x7d'],
          (c != ';' && !Markup.isPlainQuote c) = true := by decide
      exact hmarks c hmark
    · have hne : c ≠ ';' ∧ c ≠ '\x27' ∧ c ≠ '"' := by
        refine ⟨?_, ?_, ?_⟩
        all_goals
          rintro rfl
          exact absurd halnum (by decide)
      simp [Markup.isPlainQuote, hne]
  · rintro c ⟨⟩
    decide
  · exact (Markup.spaced_of_not_blank (s := ['\x7b']) (by decide)).append
      (spaced_intercalate hne hnames)
  · intro hbreak
    rcases hmem hbreak with hmark | halnum
    · exact absurd hmark (by decide)
    · exact absurd halnum (by decide)

/-- A name without an alias is bound as it is called. -/
theorem namedImport_segment (hname : Catalog.isNameSegment name.toList = true) :
    Markup.namedImport name.toList = ⟨name, name⟩ := by
  obtain ⟨c, more, hchars, -, halnum⟩ := Catalog.isNameSegment_eq_true hname
  have hstrip : Text.stripStart "type ".toList name.toList = none := by
    cases hstart : Text.stripStart "type ".toList name.toList with
    | none => rfl
    | some rest =>
      have hspace : ' ' ∈ name.toList := by
        rw [Text.eq_append_of_stripStart hstart]
        simp
      exact absurd (halnum ' ' hspace) (by decide)
  have hwords : Text.words name.toList = [name.toList] :=
    Text.words_of_not_blank (by rw [hchars]; exact List.cons_ne_nil c more) fun d hd =>
      isBlank_eq_false_of_mem_segment hname hd
  unfold Markup.namedImport
  rw [hstrip]
  simp only [Option.map_none, Option.getD_none, hwords, String.ofList_toList]

/-- The names between the braces are what an import line binds. -/
theorem ofClause_clauseOf (hnames : ∀ n ∈ names, Catalog.isNameSegment n.toList = true)
    (module : String) (n : Nat) :
    Import.ofClause module n (clauseOf names) =
      ⟨module, none, none, names.map fun n => ⟨n, n⟩, n⟩ := by
  have hsplit : Markup.splitClause (clauseOf names) =
      ([], some (' ' :: ((", ".intercalate names).toList ++ [' ']))) := by
    have hfirst : Text.splitFirst '\x7b' (clauseOf names) =
        some ([], ' ' :: ((", ".intercalate names).toList ++ [' ', '\x7d'])) :=
      Text.splitFirst_append (s := []) (by simp) _
    have hlast :
        Text.splitLast '\x7d' (' ' :: ((", ".intercalate names).toList ++ [' ', '\x7d'])) =
          some (' ' :: ((", ".intercalate names).toList ++ [' ']), []) := by
      have hend := Text.splitLast_append (c := '\x7d') (t := []) (by simp)
        (' ' :: ((", ".intercalate names).toList ++ [' ']))
      simpa using hend
    unfold Markup.splitClause
    rw [hfirst]
    simp only [hlast]
  have hpieces := Markup.commaPieces_names names fun m hm => by
    obtain ⟨c, more, hchars, -, halnum⟩ := Catalog.isNameSegment_eq_true (hnames m hm)
    refine ⟨?_, halnum⟩
    rintro rfl
    cases hchars
  have hnamed : (names.map String.toList).map Markup.namedImport = names.map fun n => ⟨n, n⟩ := by
    rw [List.map_map]
    exact List.map_congr_left fun m hm => namedImport_segment (hnames m hm)
  unfold Import.ofClause
  rw [hsplit]
  simp only [Option.map_some, Option.getD_some, hpieces, hnamed]
  rfl

end Clauses

/-! ## Import lines -/

/-- A module and a binding that are read back from an import line. -/
structure IsReadable (i : String × String) : Prop extends IsImportable i where
  ne_nil : i.1.toList ≠ []
  unquoted : '"' ∉ i.1.toList
  segment : Catalog.isNameSegment i.2.toList = true

section Lines

variable {imports : List (String × String)} {options : Options} {name : String}
  {body : Option (List Char)}

theorem IsReadable.isModule {i : String × String} (h : IsReadable i) : IsModule i.1.toList where
  ne_nil := h.ne_nil
  accepted c hc := by
    have hquote : c ≠ '"' := fun heq => h.unquoted (heq ▸ hc)
    simp [Markup.isPlainQuote, (h.module c hc).1, hquote]
  oneLine hbreak := (h.module _ hbreak).2.2 rfl

/-- The clauses and modules of the import lines. -/
def statements (imports : List (String × String)) : List (List Char × List Char) :=
  ("React".toList, "react".toList) ::
    (KeyMap.distinct (imports.map (·.1))).map
      fun module => (clauseOf (bindingsOf imports module), module.toList)

theorem flatMap_importLines (imports : List (String × String)) :
    (importLines imports).flatMap (fun i => i.toList ++ ['\n']) =
      (statements imports).flatMap importText := by
  have hmodule (names : List String) (module : String) :
      (Catalog.importLine (", ".intercalate names) module).toList ++ ['\n'] =
        importText (clauseOf names, module.toList) := by
    rw [toList_importLine]
    simp [importText, Markup.importStatement_eq, clauseOf]
  have hreact : reactLine.toList ++ ['\n'] = importText ("React".toList, "react".toList) := rfl
  have hmodules :=
    List.flatMap_congr fun module (_ : module ∈ KeyMap.distinct (imports.map (·.1))) =>
      hmodule (bindingsOf imports module) module
  unfold importLines statements
  rw [List.flatMap_cons, List.flatMap_cons, List.flatMap_map, List.flatMap_map, hreact, hmodules]

theorem isClause_react : IsClause "React".toList where
  ne_nil := by decide
  accepted := by decide
  head := by decide
  spaced := Markup.spaced_of_not_blank (by decide)
  oneLine := by decide

/-- A module in use with the bindings that are imported from it. -/
theorem mem_bindingsOf_of_mem_modules {module : String}
    (h : module ∈ KeyMap.distinct (imports.map (·.1))) :
    (∃ i ∈ imports, i.1 = module) ∧ bindingsOf imports module ≠ [] := by
  rw [KeyMap.mem_distinct, List.mem_map] at h
  obtain ⟨i, hi, rfl⟩ := h
  have hbinding : i.2 ∈ bindingsOf imports i.1 := mem_bindingsOf.2 hi
  exact ⟨⟨i, hi, rfl⟩, List.ne_nil_of_mem hbinding⟩

theorem isStatement_of_mem (himports : ∀ i ∈ imports, IsReadable i) :
    ∀ l ∈ statements imports, IsClause l.1 ∧ IsModule l.2 := by
  intro l hl
  rcases List.mem_cons.1 hl with rfl | hl
  · exact ⟨isClause_react, ⟨by decide, by decide, by decide⟩⟩
  · obtain ⟨module, hmodule, rfl⟩ := List.mem_map.1 hl
    obtain ⟨⟨i, hi, rfl⟩, hne⟩ := mem_bindingsOf_of_mem_modules hmodule
    exact ⟨isClause_clauseOf hne fun n hn => (himports _ (mem_bindingsOf.1 hn)).segment,
      (himports i hi).isModule⟩

/-- The import lines of a source are its imports. -/
theorem importsOf_sourceText (options : Options) (himports : ∀ i ∈ imports, IsReadable i)
    (hname : Catalog.isNameSegment name.toList = true)
    (hbody : ∀ text, body = some text → QuietLines text) :
    Markup.importsOf (sourceText options name (importLines imports) body) =
      ((statements imports).zipIdx 1).map
        fun (l, n) => Import.ofClause (String.ofList l.2) n l.1 := by
  rw [sourceText_eq, flatMap_importLines]
  exact Markup.importsOf_importLines (isStatement_of_mem himports)
    (withoutImports_behindImports hname hbody)

/-- Imports that bind React and the given names, each as it is called in its module, and nothing
else by name. -/
structure Binds (found : List Import) (imports : List (String × String)) : Prop where
  react : ∃ i ∈ found, i.module = "react"
  bound : ∀ i ∈ imports, ∃ j ∈ found, i.2 ∈ j.locals
  named : ∀ j ∈ found, ∀ n ∈ j.named, n.imported = n.bound ∧ (j.module, n.bound) ∈ imports

theorem binds_importsOf (himports : ∀ i ∈ imports, IsReadable i)
    (hname : Catalog.isNameSegment name.toList = true)
    (hbody : ∀ text, body = some text → QuietLines text) :
    Binds (Markup.importsOf (sourceText options name (importLines imports) body)) imports := by
  have hfound := importsOf_sourceText options himports hname hbody
  have hmem {l : List Char × List Char} (hl : l ∈ statements imports) :
      ∃ n, Import.ofClause (String.ofList l.2) n l.1 ∈
        Markup.importsOf (sourceText options name (importLines imports) body) := by
    rw [← List.zipIdx_map_fst 1 (statements imports)] at hl
    obtain ⟨⟨l, n⟩, hnumbered, rfl⟩ := List.mem_map.1 hl
    rw [hfound]
    exact ⟨n, List.mem_map.2 ⟨(l, n), hnumbered, rfl⟩⟩
  have hlisted {i : String × String} (hi : i ∈ imports) (n : Nat) :
      Import.ofClause i.1 n (clauseOf (bindingsOf imports i.1)) =
        ⟨i.1, none, none, (bindingsOf imports i.1).map fun b => ⟨b, b⟩, n⟩ :=
    ofClause_clauseOf (fun b hb => (himports _ (mem_bindingsOf.1 hb)).segment) i.1 n
  refine ⟨?_, ?_, ?_⟩
  · obtain ⟨n, hreact⟩ := hmem List.mem_cons_self
    exact ⟨_, hreact, rfl⟩
  · intro i hi
    have hmodule : i.1 ∈ KeyMap.distinct (imports.map (·.1)) :=
      KeyMap.mem_distinct.2 (List.mem_map_of_mem hi)
    obtain ⟨n, hline⟩ := hmem (List.mem_cons_of_mem _ (List.mem_map_of_mem hmodule))
    rw [String.ofList_toList, hlisted hi] at hline
    have hbinding : i.2 ∈ bindingsOf imports i.1 := mem_bindingsOf.2 hi
    exact ⟨_, hline, by simpa [Import.locals] using hbinding⟩
  · intro j hj n hn
    rw [hfound] at hj
    obtain ⟨⟨l, k⟩, hl, rfl⟩ := List.mem_map.1 hj
    rcases List.mem_cons.1 (List.fst_mem_of_mem_zipIdx hl) with rfl | hl
    · cases hn
    · obtain ⟨module, hmodule, rfl⟩ := List.mem_map.1 hl
      obtain ⟨⟨i, hi, rfl⟩, -⟩ := mem_bindingsOf_of_mem_modules hmodule
      simp only [String.ofList_toList, hlisted hi] at hn ⊢
      obtain ⟨b, hb, rfl⟩ := List.mem_map.1 hn
      exact ⟨rfl, mem_bindingsOf.1 hb⟩

end Lines

/-! ## What the checks see -/

section Made

variable {imports : List (String × String)} {options : Options} {name : String}
  {body : Option (List Char)}

/-- The structure of a source that was made with these imports and shows these elements: its tags
pair, its imports bind what is used, and its declarations start with a capital. -/
structure IsMade (s : Structure) (imports : List (String × String))
    (shown : List Markup.Element) : Prop where
  unclosed : s.unclosed = []
  unexpectedClosings : s.unexpectedClosings = []
  elements : s.elements.map Markup.Element.unplaced = shown
  binds : Binds s.imports imports
  capital : ∀ d ∈ s.declarations, Validation.startsWithCapital d.name = true

theorem head?_importLine {i : String} (hi : i ∈ importLines imports) :
    i.toList.head? = some 'i' := by
  rcases List.mem_cons.1 hi with rfl | hi
  · rfl
  · obtain ⟨module, -, rfl⟩ := List.mem_map.1 hi
    rw [toList_importLine]
    rfl

/-- A source that is read back has such a structure when its imports can be read and its lines are
quiet. -/
theorem exists_isMade {shown : List Markup.Element} (himports : ∀ i ∈ imports, IsReadable i)
    (hname : Catalog.isNameSegment name.toList = true)
    (hbody : ∀ text, body = some text → QuietLines text)
    (hread : IsRead (sourceText options name (importLines imports) body) shown) :
    ∃ s, Structure.ofText (String.ofList (sourceText options name (importLines imports) body)) =
      .ok s ∧
      IsMade s imports shown := by
  obtain ⟨s, hs, hfound, hdeclared, hunclosed, hclosings, hshown⟩ := hread
  have hlines : ∀ i ∈ importLines imports, i.toList.head? = some 'i' ∧ '\n' ∉ i.toList := by
    intro i hi
    refine ⟨head?_importLine hi, ?_⟩
    rcases List.mem_cons.1 hi with rfl | hi
    · decide
    · obtain ⟨module, hmodule, rfl⟩ := List.mem_map.1 hi
      obtain ⟨⟨j, hj, rfl⟩, hne⟩ := mem_bindingsOf_of_mem_modules hmodule
      have hclause := isClause_clauseOf hne fun n hn => (himports _ (mem_bindingsOf.1 hn)).segment
      have hstatement := Markup.newline_not_mem_importStatement hclause (himports j hj).isModule
      rw [toList_importLine]
      rw [Markup.importStatement_eq] at hstatement
      simpa [clauseOf] using hstatement
  refine ⟨s, hs, hunclosed, hclosings, hshown, ?_, ?_⟩
  · rw [hfound]
    exact binds_importsOf himports hname hbody
  · intro d hd
    rw [hdeclared] at hd
    obtain ⟨c, hc, hupper⟩ :=
      Markup.isUpper_of_mem_declarationsOf (atLines_sourceText hname hbody hlines) hd
    unfold Validation.startsWithCapital
    rw [hc]
    exact hupper

end Made

end DesignCompiler.Synthesis
