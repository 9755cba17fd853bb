import DesignCompiler.Proofs.Markup.Sources
import DesignCompiler.Proofs.Synthesis.Imports

/-!
# Component sources read back

The source around the elements of a tree: its parts are passed over, so the structure of the whole
source has exactly the elements that the tree shows. `ofText_sourceText` says so for whatever
stands in the place of the tree.
-/

namespace DesignCompiler.Synthesis

open Markup (Passable Cursor Reads IsRead Element maxNesting scanElement isInert
  isRead_of_scanSource scanSource_element scanSource_of_passable)
open Mapping (MappedNode MappedTree)
open Text (isBlank isNameChar isAlphabetic)

/-! ## The name of the component -/

theorem isAlphanum_of_mem_capitalize {s : List Char} (hs : ∀ c ∈ s, c.isAlphanum = true)
    {c : Char} (hc : c ∈ capitalize s) : c.isAlphanum = true := by
  cases s with
  | nil => cases hc
  | cons d s =>
    rcases List.mem_cons.1 hc with rfl | hc
    · exact (Text.toUpper_of_isAlphanum (hs d List.mem_cons_self)).1
    · exact hs c (List.mem_cons_of_mem d hc)

/-- The name of a component is an ASCII identifier that starts with a capital. -/
theorem isNameSegment_componentIdentifier (name : String) :
    Catalog.isNameSegment (componentIdentifier name).toList = true := by
  have hpieces :
      ∀ piece ∈ (Text.splitWhere (fun c => !c.isAlphanum) name.toList).filter (!·.isEmpty),
        piece ≠ [] ∧ ∀ c ∈ piece, c.isAlphanum = true := by
    intro piece hpiece
    obtain ⟨hmem, hne⟩ := List.mem_filter.1 hpiece
    refine ⟨by simpa using hne, fun c hc => ?_⟩
    simpa using Text.not_of_mem_splitWhere hmem hc
  unfold componentIdentifier
  generalize (Text.splitWhere (fun c => !c.isAlphanum) name.toList).filter (!·.isEmpty) =
    pieces at hpieces
  have hall : ∀ c ∈ pieces.flatMap capitalize, c.isAlphanum = true := by
    intro c hc
    obtain ⟨piece, hpiece, hmem⟩ := List.mem_flatMap.1 hc
    exact isAlphanum_of_mem_capitalize (hpieces piece hpiece).2 hmem
  have hhead : ∀ c ∈ (pieces.flatMap capitalize).head?, c.isDigit = false → c.isUpper = true := by
    cases pieces with
    | nil => rintro c ⟨⟩
    | cons piece pieces =>
      obtain ⟨hne, halnum⟩ := hpieces piece List.mem_cons_self
      obtain ⟨d, more, rfl⟩ := List.exists_cons_of_ne_nil hne
      rintro c ⟨⟩ hdigit
      exact (Text.toUpper_of_isAlphanum (halnum d List.mem_cons_self)).2 hdigit
  simp only
  split
  · decide
  · rename_i c rest hwords
    rw [hwords] at hall hhead
    split
    · have hgenerated : ("Generated".toList ++ c :: rest) =
          'G' :: ("enerated".toList ++ c :: rest) := rfl
      rw [String.toList_ofList, hgenerated, Catalog.isNameSegment, List.all_append,
        List.all_eq_true.2 hall]
      decide
    · rename_i hdigit
      rw [String.toList_ofList, Catalog.isNameSegment, hhead c rfl (by simpa using hdigit),
        Bool.true_and, List.all_eq_true]
      exact fun d hd => hall d (List.mem_cons_of_mem c hd)

/-! ## The parts of a source -/

/-- A source up to the brace of its component. -/
def moduleHead (options : Options) (name : String) (imports : List String) : List Char :=
  imports.flatMap (fun i => i.toList ++ ['\n']) ++
    ('\n' :: ("export const ".toList ++ (name.toList ++
      (if options.typed then ": React.FC = () => " else " = () => ").toList)))

/-- A source behind the brace of its component. -/
def moduleTail (options : Options) (name : String) : List Char :=
  ';' :: '\n' :: (if options.defaultExport then
    "\nexport default ".toList ++ (name.toList ++ [';', '\n']) else [])

/-- What stands between the brace of the component and its element. -/
def returnHead (options : Options) : List Char :=
  '\n' :: (line options 1 "return (".toList ++ indentation options 2)

/-- What stands between the element of the component and its closing brace. -/
def returnTail (options : Options) : List Char :=
  '\n' :: line options 1 ");".toList

section Parts

variable (options : Options) (name : String) (imports : List String)

theorem sourceText_some (element : List Char) :
    sourceText options name imports (some (line options 2 element)) =
      moduleHead options name imports ++ ('\x7b' :: (returnHead options ++
        (element ++ (returnTail options ++ '\x7d' :: moduleTail options name)))) := by
  unfold sourceText declarationLine returnText moduleHead moduleTail returnHead returnTail line
  cases options.typed <;> cases options.defaultExport <;> simp

theorem sourceText_none :
    sourceText options name imports none =
      moduleHead options name imports ++
        (('\x7b' :: ('\n' :: line options 1 "return null;".toList ++ ['\x7d'])) ++
          moduleTail options name) := by
  unfold sourceText declarationLine returnText moduleHead moduleTail line
  cases options.typed <;> cases options.defaultExport <;> simp

end Parts

section Passable

variable {options : Options} {name : String} {imports : List String}

theorem isInert_of_mem_name (hname : Catalog.isNameSegment name.toList = true) {c : Char}
    (hc : c ∈ name.toList) :
    isInert c = true := by
  obtain ⟨_, _, _, _, halnum⟩ := Catalog.isNameSegment_eq_true hname
  exact Markup.isInert_of_isAlphanum (halnum c hc)

theorem passable_line {level : Nat} {s : List Char} (hs : Passable s) :
    Passable (line options level s) := by
  have hblank : ∀ c ∈ indentation options level, isInert c = true := by
    intro c hc
    rw [List.eq_of_mem_replicate hc]
    decide
  exact (Markup.passable_of_inert hblank).append
    (hs.append (Markup.passable_of_inert (by decide)))

theorem passable_moduleHead (options : Options) (hname : Catalog.isNameSegment name.toList = true)
    (himports : ∀ i ∈ imports, Passable i.toList) :
    Passable (moduleHead options name imports) := by
  have hlines : Passable (imports.flatMap fun i => i.toList ++ ['\n']) :=
    Markup.passable_flatMap
      fun i hi => (himports i hi).append (Markup.passable_of_inert (by decide))
  have htype :
      Passable (if options.typed then ": React.FC = () => " else " = () => ").toList := by
    split <;> exact Markup.passable_of_inert (by decide)
  exact hlines.append (Markup.passable_cons (by decide)
    ((Markup.passable_of_inert (by decide)).append
      ((Markup.passable_of_inert fun _ => isInert_of_mem_name hname).append htype)))

theorem passable_moduleTail (options : Options)
    (hname : Catalog.isNameSegment name.toList = true) :
    Passable (moduleTail options name) := by
  unfold moduleTail
  refine Markup.passable_cons (by decide) (Markup.passable_cons (by decide) ?_)
  split
  · exact (Markup.passable_of_inert (by decide)).append
      ((Markup.passable_of_inert fun _ => isInert_of_mem_name hname).append
        (Markup.passable_of_inert (by decide)))
  · exact Markup.passable_nil

theorem passable_returnHead (options : Options) : Passable (returnHead options) :=
  Markup.passable_cons (by decide) ((passable_line (Markup.passable_of_inert (by decide))).append
    (Markup.passable_of_inert (by
      intro c hc
      rw [List.eq_of_mem_replicate hc]
      decide)))

theorem passable_returnTail (options : Options) : Passable (returnTail options) :=
  Markup.passable_cons (by decide) (passable_line (Markup.passable_of_inert (by decide)))

/-- An operand may stand behind the parenthesis of the component. -/
theorem operandMayFollow_returnHead (before : List Char) :
    Markup.operandMayFollow ((returnHead options).reverse ++ before) = true := by
  have hblank : ∀ c ∈ (indentation options 2).reverse ++ ['\n'], isBlank c = true := by
    intro c hc
    rcases List.mem_append.1 hc with hc | hc
    · rw [List.eq_of_mem_replicate (List.mem_reverse.1 hc)]
      decide
    · rw [List.mem_singleton.1 hc]
      decide
  have hreverse : (returnHead options).reverse ++ before =
      ((indentation options 2).reverse ++ ['\n']) ++
        ('(' :: (" nruter".toList ++ ((indentation options 1).reverse ++ ('\n' :: before)))) := by
    simp [returnHead, line]
  unfold Markup.operandMayFollow
  rw [hreverse, List.dropWhile_append_of_pos hblank]
  rfl

end Passable

/-! ## The structure of a source -/

section Structures

variable {options : Options} {name : String} {imports : List String}

/-- The name of a component and a capital in it are no white space, so a source is never empty. -/
theorem exists_mem_sourceText (options : Options) (name : String) (imports : List String)
    (body : Option (List Char)) :
    ∃ ch ∈ sourceText options name imports body, isBlank ch = false := by
  refine ⟨'e', ?_, by decide⟩
  have hdeclared : 'e' ∈ declarationLine options name := List.mem_append_left _ (by decide)
  unfold sourceText
  exact List.mem_append_right _ (List.mem_cons_of_mem _ (List.mem_append_left _ hdeclared))

/-- The structure of a source that returns one element: there is nothing to report about its tags,
and its elements are those that are read from the element. -/
theorem isRead_sourceText (element : List Char) {shown : List Element}
    (hname : Catalog.isNameSegment name.toList = true)
    (himports : ∀ i ∈ imports, Passable i.toList)
    (hstep : ∀ before rest line, Markup.operandMayFollow before = true →
      (Cursor.mk before (element ++ rest) line).step = .element)
    (hreads : ∀ (c : Cursor) rest, c.rest = element ++ rest →
      Reads (scanElement maxNesting [] c) shown rest) :
    IsRead (sourceText options name imports (some (line options 2 element))) shown := by
  obtain ⟨ch, hmem, hch⟩ :=
    exists_mem_sourceText options name imports (some (line options 2 element))
  refine isRead_of_scanSource hmem hch ?_
  rw [sourceText_some]
  generalize hbody : returnHead options ++
    (element ++ (returnTail options ++ '\x7d' :: moduleTail options name)) = body
  have hhead := passable_moduleHead options hname himports [] ('\x7b' :: body) 1 0
  generalize hbefore : (moduleHead options name imports).reverse ++ [] = before at hhead
  generalize 1 + Text.newlines (moduleHead options name imports) = n at hhead
  obtain ⟨_, hopen⟩ := Markup.step_openBrace before body n
  have hreturn := passable_returnHead options ('\x7b' :: before)
    (element ++ (returnTail options ++ '\x7d' :: moduleTail options name)) n 1
  rw [hbody] at hreturn
  have hrun := hhead.trans (.openBrace hopen hreturn)
  obtain ⟨found, ⟨behind, _, m⟩, hyields, rfl, hclean, hshown⟩ := hreads
    ⟨(returnHead options).reverse ++ '\x7b' :: before, _, n + Text.newlines (returnHead options)⟩
    (returnTail options ++ '\x7d' :: moduleTail options name) rfl
  have htail := passable_returnTail options behind ('\x7d' :: moduleTail options name) m 1
  obtain ⟨_, hclose⟩ :=
    Markup.step_closeBrace ((returnTail options).reverse ++ behind) (moduleTail options name)
      (m + Text.newlines (returnTail options))
  have hend := passable_moduleTail options hname
    ('\x7d' :: ((returnTail options).reverse ++ behind)) []
    (m + Text.newlines (returnTail options)) 0
  rw [List.append_nil] at hend
  refine ⟨found, ?_, hclean, hshown⟩
  exact scanSource_element hrun (hstep _ _ _ (operandMayFollow_returnHead _))
    (by simp [returnTail]) hyields (htail.trans (.closeBrace hclose hend)) rfl

/-- A source that returns null has no elements. -/
theorem isRead_sourceText_none (options : Options)
    (hname : Catalog.isNameSegment name.toList = true)
    (himports : ∀ i ∈ imports, Passable i.toList) :
    IsRead (sourceText options name imports none) [] := by
  obtain ⟨ch, hmem, hch⟩ := exists_mem_sourceText options name imports none
  refine isRead_of_scanSource hmem hch ⟨.none, ?_, Markup.Findings.clean_none, rfl⟩
  rw [sourceText_none]
  have hbody : Passable ('\n' :: line options 1 "return null;".toList) :=
    Markup.passable_cons (by decide) (passable_line (Markup.passable_of_inert (by decide)))
  have hsource := (passable_moduleHead options hname himports).append
    (hbody.braces.append (passable_moduleTail options hname))
  exact scanSource_of_passable hsource

end Structures

end DesignCompiler.Synthesis
