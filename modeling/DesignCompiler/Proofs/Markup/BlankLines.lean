import DesignCompiler.Proofs.Markup.Comments
import DesignCompiler.Proofs.Markup.Declarations
import DesignCompiler.Proofs.Markup.Imports
import DesignCompiler.Proofs.Markup.Lines
import DesignCompiler.Proofs.Text.Behind

/-!
# Blank lines at the start of a source

Blank lines at the start of a source move the lines of all that is found in it and change nothing
else (`ofText_blankLines`). Lines are counted in two ways: those of imports and declarations are
read off the text in front of them, which `Text.Behind` extends; those of elements are counted
along the scan. The scan passes over the blank lines, and then it is further down, in front of the
same text and behind more blanks: `Lines` says that the first makes no difference but for the
lines, and `run_onto_blanks` that the second makes none.
-/

namespace DesignCompiler.Markup

open Text (Pattern isBlank newlines)

/-- The import, so many lines further down. -/
def Import.down (k : Nat) (i : Import) : Import :=
  { i with line := i.line + k }

/-- The declaration, so many lines further down. -/
def Declaration.down (k : Nat) (d : Declaration) : Declaration :=
  { d with line := d.line + k }

/-- The structure of a source, so many lines further down. -/
def Structure.down (k : Nat) (s : Structure) : Structure where
  imports := s.imports.map (Import.down k)
  declarations := s.declarations.map (Declaration.down k)
  elements := s.elements.map (Element.down k)
  unexpectedClosings := s.unexpectedClosings.map (tagDown k)
  unclosed := s.unclosed.map (tagDown k)
  lineCount := s.lineCount + k

theorem isBlank_of_mem_replicate {k : Nat} {ch : Char} (hch : ch ∈ List.replicate k '\n') :
    isBlank ch = true := by
  rw [List.eq_of_mem_replicate hch]
  decide

/-! ## Imports and declarations -/

section Patterns

variable {κ : Type} (k : Nat)

theorem newlines_replicate : newlines (List.replicate k '\n') = k :=
  List.count_replicate_self

theorem lineOfCapture_onto (p : Text.Capture κ) :
    lineOfCapture (p.onto (List.replicate k '\n')) = lineOfCapture p + k := by
  have hlines : newlines (p.before ++ List.replicate k '\n') = newlines p.before + k := by
    rw [newlines_append, newlines_replicate]
  show newlines (p.before ++ List.replicate k '\n') + 1 = newlines p.before + 1 + k
  omega

theorem part?_onto [BEq κ] (earlier : List Char) (m : Text.Match κ) (key : κ) :
    (m.onto earlier).part? key = (m.part? key).map (Text.Capture.onto earlier) :=
  List.find?_map

theorem addHead_down (i : Import) (piece : List Char) :
    (i.down k).addHead piece = (i.addHead piece).down k := by
  unfold Import.addHead
  split <;> rfl

theorem ofClause_down (module : String) (line : Nat) (clause : List Char) :
    Import.ofClause module (line + k) clause = (Import.ofClause module line clause).down k := by
  have hfold (pieces : List (List Char)) (i : Import) :
      pieces.foldl Import.addHead (i.down k) = (pieces.foldl Import.addHead i).down k := by
    induction pieces generalizing i with
    | nil => rfl
    | cons piece pieces ih => rw [List.foldl_cons, List.foldl_cons, addHead_down, ih]
  exact hfold (commaPieces (splitClause clause).1)
    ⟨module, none, none,
      ((splitClause clause).2.map fun text => (commaPieces text).map namedImport).getD [], line⟩

theorem ofMatch?_onto (m : Text.Match ImportPart) :
    Import.ofMatch? (m.onto (List.replicate k '\n')) =
      (Import.ofMatch? m).map (Import.down k) := by
  unfold Import.ofMatch?
  rw [part?_onto, part?_onto, part?_onto]
  cases m.part? .keyword with
  | none => rfl
  | some keyword =>
    cases m.part? .module with
    | none => rfl
    | some module =>
      simp only [Option.map_some, lineOfCapture_onto, ofClause_down, Option.map_map]
      rfl

theorem shortens_declaration : Pattern.Shortens declaration := by
  have harrow : Pattern.Shortens arrowDeclaration :=
    ((Pattern.shortens_one _).seq_left.either (Pattern.shortens_one _).seq_left).seq_left
  have hfunction : Pattern.Shortens functionDeclaration :=
    (Pattern.shortens_one _).seq_left.seq_left
  exact .seq_right (.seq_right (.seq_right (harrow.either hfunction)))

theorem ways_import_newline {q : Pattern ImportPart} (before rest : List Char) :
    (importThen q).ways ⟨before, '\n' :: rest⟩ = [] :=
  ways_import_eq_nil (by simp [isPad])

/-- The imports behind blank lines. -/
theorem importsOf_blankLines (text : List Char) :
    importsOf (List.replicate k '\n' ++ text) = (importsOf text).map (Import.down k) := by
  have hfrom := Pattern.allMatches_blankLines (p := importFrom) rfl shortens_import
    ways_import_newline k text
  have hbare := Pattern.allMatches_blankLines (p := importBare) rfl shortens_import
    ways_import_newline k text
  have hmatches (ms : List (Text.Match ImportPart)) :
      (ms.map (Text.Match.onto (List.replicate k '\n'))).filterMap Import.ofMatch? =
        (ms.filterMap Import.ofMatch?).map (Import.down k) := by
    rw [List.filterMap_map, List.map_filterMap]
    exact List.filterMap_congr fun m _ => ofMatch?_onto k m
  unfold importsOf
  rw [hfrom, hbare, ← List.map_append, hmatches, List.map_mergeSort]
  intro a _ b _
  simp [Import.down]

/-- The declarations behind blank lines. -/
theorem declarationsOf_blankLines (text : List Char) :
    declarationsOf (List.replicate k '\n' ++ text) =
      (declarationsOf text).map (Declaration.down k) := by
  have hmatches := Pattern.allMatches_blankLines (p := declaration) rfl shortens_declaration
    (fun before rest => ways_declaration_eq_nil (by rintro c ⟨⟩; decide)) k text
  unfold declarationsOf
  rw [hmatches, List.filterMap_map, List.map_filterMap]
  refine List.filterMap_congr fun m _ => ?_
  rw [Function.comp_apply, part?_onto]
  cases m.part? () with
  | none => rfl
  | some name =>
    exact congrArg (fun line => some (Declaration.mk _ line)) (lineOfCapture_onto k name)

end Patterns

/-! ## Elements -/

section Scan

variable {before earlier : List Char}

/-- Blanks in front of a text do not change whether an operand may follow it. -/
theorem operandMayFollow_onto_blanks (hearlier : ∀ ch ∈ earlier, isBlank ch = true) :
    operandMayFollow (before ++ earlier) = operandMayFollow before := by
  by_cases hseen : ∃ ch ∈ before, isBlank ch = false
  · refine operandMayFollow_append (fun ch hch => ?_) hseen
    have hblank := hearlier ch (List.mem_of_mem_head? hch)
    exact ⟨fun heq => absurd (heq ▸ hblank) (by decide),
      Text.isNameChar_eq_false_of_isBlank hblank⟩
  · have hbefore : ∀ ch ∈ before, isBlank ch = true := fun ch hch =>
      (Bool.not_eq_false _).mp fun hfalse => hseen ⟨ch, hch, hfalse⟩
    rw [operandMayFollow_blanks hbefore, operandMayFollow_of_blanks hearlier,
      operandMayFollow_of_blanks hbefore]

/-- A scan goes on in the same way with blanks in front of the text. -/
theorem run_onto_blanks (limit : Nat) (hearlier : ∀ ch ∈ earlier, isBlank ch = true)
    (s : Reading) :
    (s.shift (Cursor.onto earlier)).run limit = s.run limit := by
  have hturn (s : Reading) := turn_onto limit s fun _ => operandMayFollow_onto_blanks hearlier
  fun_induction Reading.run limit s with
  | case1 s result hended =>
    rw [Reading.run_eq, hturn, hended]
    rfl
  | case2 s next hgoes _ ih =>
    rw [Reading.run_eq, hturn, hgoes]
    exact ih

/-- What a scan finds behind blank lines. -/
theorem scanSource_blankLines (k : Nat) (text : List Char) :
    scanSource (List.replicate k '\n' ++ text) =
      downResult Findings.down k (scanSource text) := by
  have hinert : ∀ ch ∈ List.replicate k '\n', isInert ch = true := fun ch hch =>
    isInert_of_isBlank (isBlank_of_mem_replicate hch)
  have hpassed := passable_of_inert hinert [] text 1 0
  rw [newlines_replicate, List.reverse_replicate, List.append_nil] at hpassed
  calc scanSource (List.replicate k '\n' ++ text)
      = (Reading.start (List.replicate k '\n' ++ text)).run maxNesting :=
    (run_start maxNesting _).symm
    _ = Reading.run maxNesting ⟨⟨List.replicate k '\n', text, 1 + k⟩, .script none 0 .none, []⟩ :=
        run_of_passes maxNesting .none hpassed
    _ = ((Reading.start text).down k).run maxNesting :=
        run_onto_blanks maxNesting (fun _ => isBlank_of_mem_replicate)
          ((Reading.start text).down k)
    _ = downResult Findings.down k ((Reading.start text).run maxNesting) :=
      run_down k maxNesting _
    _ = downResult Findings.down k (scanSource text) := congrArg _ (run_start maxNesting text)

end Scan

/-! ## Structures -/

theorem trim_blankLines (k : Nat) (text : List Char) :
    Text.trim (List.replicate k '\n' ++ text) = Text.trim text := by
  unfold Text.trim Text.trimStart
  rw [List.dropWhile_append_of_pos fun _ => isBlank_of_mem_replicate]

theorem lineCount_blankLines (k : Nat) {text : List Char} (hne : text ≠ []) :
    Text.lineCount (List.replicate k '\n' ++ text) = Text.lineCount text + k := by
  obtain ⟨ch, hlast⟩ : ∃ ch, text.getLast? = some ch := ⟨_, List.getLast?_eq_some_getLast hne⟩
  unfold Text.lineCount
  rw [List.getLast?_append, hlast, Option.some_or]
  simp only [newlines_append, newlines_replicate]
  split <;> omega

/-- **Blank lines at the start of a source only move lines.** -/
theorem ofText_blankLines (k : Nat) (text : String) :
    Structure.ofText (String.ofList (List.replicate k '\n') ++ text) =
      downResult Structure.down k (Structure.ofText text) := by
  unfold Structure.ofText
  simp only [String.toList_append, String.toList_ofList, trim_blankLines]
  split
  · rfl
  · rename_i hblank
    have hne : text.toList ≠ [] := by
      intro hnil
      rw [hnil] at hblank
      exact hblank rfl
    rw [scanSource_blankLines, importsOf_blankLines, declarationsOf_blankLines,
      lineCount_blankLines k hne]
    cases scanSource text.toList <;> rfl

/-- Two blank lines in front of a line with a declaration and an open tag. -/
example : Structure.ofText "\n\nconst A = () => (<b>);" =
    .ok { imports := [], declarations := [⟨"A", 3⟩],
          elements := [⟨"b", [], 3, [], ");", false, false, false⟩]
          unexpectedClosings := [], unclosed := [("b", 3)], lineCount := 3 } := by
  decide +kernel

end DesignCompiler.Markup
