import DesignCompiler.Proofs.Markup.Declarations
import DesignCompiler.Proofs.Markup.Imports
import DesignCompiler.Proofs.Synthesis.Imports
import DesignCompiler.Proofs.Synthesis.Sources

/-!
# Lines of written trees

A written tree is a sequence of lines, and none of them starts like an import or a declaration:
all start with a tag. This holds of trees whose texts stand alone between two tags, which is
`IsTidy`; a text in front of children stands on a line of its own and may start with any word.

* `quietLines_write`: the lines of a tidy tree.
* `quietLines_fallbackText`: the line in place of a tree that was given up.
-/

namespace DesignCompiler.Synthesis

open Mapping (MappedNode)
open Markup (isPad DeclaresCapital)
open Text.Pattern (AtLines)

/-! ## Quiet lines -/

/-- A line that starts neither like an import nor like a declaration, blanks aside. -/
structure IsQuiet (line : List Char) : Prop where
  oneLine : '\n' ∉ line
  head : ∀ c ∈ (line.dropWhile isPad).head?, c ∉ ['i', 'e', 'd', 'c', 'l', 'f']

/-- A text of whole lines that are all quiet. -/
def QuietLines (text : List Char) : Prop :=
  ∃ lines : List (List Char), text = lines.flatMap (· ++ ['\n']) ∧ ∀ line ∈ lines, IsQuiet line

section Quiet

variable {line rest s t : List Char}

theorem quietLines_nil : QuietLines [] :=
  ⟨[], rfl, by simp⟩

theorem IsQuiet.lines (h : IsQuiet line) : QuietLines (line ++ ['\n']) :=
  ⟨[line], by simp, by simpa using h⟩

theorem QuietLines.append (hs : QuietLines s) (ht : QuietLines t) : QuietLines (s ++ t) := by
  obtain ⟨lines, rfl, hlines⟩ := hs
  obtain ⟨more, rfl, hmore⟩ := ht
  refine ⟨lines ++ more, by rw [List.flatMap_append], fun line hline => ?_⟩
  rcases List.mem_append.1 hline with hline | hline
  · exact hlines line hline
  · exact hmore line hline

/-- What holds of quiet lines and of every line start behind them holds of every line start. -/
theorem QuietLines.atLines {P : List Char → Prop} (hs : QuietLines s)
    (hP : ∀ line rest, IsQuiet line → P (line ++ '\n' :: rest)) (hrest : AtLines P rest) :
    AtLines P (s ++ rest) := by
  obtain ⟨lines, rfl, hlines⟩ := hs
  induction lines with
  | nil => exact hrest
  | cons line lines ih =>
    have hline := hlines line List.mem_cons_self
    have hlater := ih fun l hl => hlines l (List.mem_cons_of_mem line hl)
    have htext : (line :: lines).flatMap (· ++ ['\n']) ++ rest =
        line ++ '\n' :: (lines.flatMap (· ++ ['\n']) ++ rest) := by
      simp
    rw [htext]
    exact Text.Pattern.atLines_line _ hline.oneLine (hP line _ hline) hlater

/-- Behind its blanks a quiet line ends or starts with a letter that is not among these. -/
theorem IsQuiet.head_append (h : IsQuiet line) (rest : List Char) :
    ∀ c ∈ ((line ++ '\n' :: rest).dropWhile isPad).head?, c ∉ ['i', 'e', 'd', 'c', 'l', 'f'] := by
  intro c hc
  rw [List.dropWhile_append] at hc
  split at hc
  · rw [List.dropWhile_cons_of_neg (by decide)] at hc
    cases hc
    decide
  · rename_i hne
    obtain ⟨d, more, hmore⟩ :=
      List.exists_cons_of_ne_nil fun hnil => hne (List.isEmpty_iff.2 hnil)
    rw [hmore] at hc
    cases hc
    exact h.head c (by rw [hmore]; rfl)

theorem IsQuiet.ne_import (h : IsQuiet line) :
    ((line ++ '\n' :: rest).dropWhile isPad).head? ≠ some 'i' :=
  fun hhead => h.head_append rest 'i' hhead List.mem_cons_self

theorem IsQuiet.declaresCapital (h : IsQuiet line) : DeclaresCapital (line ++ '\n' :: rest) := by
  refine .other fun d hd hmem => ?_
  by_cases hpad : isPad d = true
  · have hnone : ∀ e ∈ ['e', 'd', 'c', 'l', 'f'], isPad e = false := by decide
    rw [hnone d hmem] at hpad
    cases hpad
  · obtain ⟨more, hmore⟩ := List.head?_eq_some_iff.1 hd
    refine h.head_append rest d ?_ (List.mem_cons_of_mem _ hmem)
    rw [hmore, List.dropWhile_cons_of_neg hpad]
    rfl

/-- A line on a level is quiet if its text is one line and starts with a quiet character. -/
theorem isQuiet_line {options : Options} {level : Nat} {c : Char} {text : List Char}
    (hc : isPad c = false) (hletter : c ∉ ['i', 'e', 'd', 'c', 'l', 'f'])
    (htext : '\n' ∉ c :: text) :
    IsQuiet (indentation options level ++ c :: text) := by
  refine ⟨?_, ?_⟩
  · rw [List.mem_append]
    rintro (hmem | hmem)
    · exact absurd (List.eq_of_mem_replicate hmem) (by decide)
    · exact htext hmem
  · have hblanks : ∀ d ∈ indentation options level, isPad d = true := by
      intro d hd
      rw [List.eq_of_mem_replicate hd]
      decide
    rw [List.dropWhile_append_of_pos hblanks,
      List.dropWhile_cons_of_neg (by rw [hc]; exact Bool.false_ne_true)]
    rintro d ⟨⟩
    exact hletter

end Quiet

/-! ## Texts on one line -/

section OneLine

variable {entry : Catalog.Entry} {node : MappedNode}

theorem newline_not_mem_inBraces {s : List Char} (hs : '\n' ∉ s) : '\n' ∉ inBraces s := by
  unfold inBraces
  simpa using hs

theorem newline_not_mem_attributeText {name : String} {v : Json} {text : List Char}
    (hname : '\n' ∉ name.toList) (h : attributeText name v = some text) : '\n' ∉ text := by
  have hbraces {s : List Char} (hs : '\n' ∉ s) : '\n' ∉ name.toList ++ '=' :: inBraces s := by
    simp [hname, newline_not_mem_inBraces hs]
  unfold attributeText at h
  split at h
  · cases h
  · cases h
    exact hname
  · rename_i s
    split at h
    · rename_i hplain
      cases h
      have hs : '\n' ∉ s.toList :=
        fun hmem => absurd (List.all_eq_true.1 hplain _ hmem) (by decide)
      simp [hname, hs]
    · cases h
      exact hbraces (Json.newline_not_mem_quote s)
  · cases h
    exact hbraces (Json.newline_not_mem_compact _)

theorem newline_not_mem_quoteStyle (s : String) : '\n' ∉ quoteStyle s := by
  have hchar : ∀ c, '\n' ∉ quoteStyleChar c := by
    intro c
    unfold quoteStyleChar
    split
    · decide
    · decide
    · decide
    · rename_i hbreak
      simpa using Ne.symm hbreak
  unfold quoteStyle
  simp [hchar]

theorem newline_not_mem_styleField (field : String × Json) : '\n' ∉ styleField field := by
  have hname : '\n' ∉ if isFieldName field.1 then field.1.toList else quoteStyle field.1 := by
    split
    · rename_i h
      unfold isFieldName at h
      split at h
      · rename_i c rest hchars
        rw [hchars]
        intro hmem
        rcases List.mem_cons.1 hmem with rfl | hmem
        · exact absurd (Bool.and_eq_true_iff.1 h).1 (by decide)
        · exact absurd (List.all_eq_true.1 (Bool.and_eq_true_iff.1 h).2 _ hmem) (by decide)
      · cases h
    · exact newline_not_mem_quoteStyle field.1
  have hvalue : '\n' ∉ styleValue field.2 := by
    unfold styleValue
    split
    · exact newline_not_mem_quoteStyle _
    · exact Json.newline_not_mem_compact _
  unfold styleField
  simp [hname, hvalue]

theorem newline_not_mem_joinWith {separator : List Char} (hseparator : '\n' ∉ separator)
    {pieces : List (List Char)} (hpieces : ∀ piece ∈ pieces, '\n' ∉ piece) :
    '\n' ∉ Text.joinWith separator pieces := by
  intro hmem
  rcases Text.mem_joinWith hmem with h | ⟨piece, hpiece, h⟩
  · exact hseparator h
  · exact hpieces piece hpiece h

theorem newline_not_mem_styleText (style : KeyMap Json) : '\n' ∉ styleText style := by
  have hfields : '\n' ∉ Text.joinWith [',', ' '] (style.entries.map styleField) := by
    refine newline_not_mem_joinWith (by decide) fun piece hpiece => ?_
    obtain ⟨field, -, rfl⟩ := List.mem_map.1 hpiece
    exact newline_not_mem_styleField field
  refine newline_not_mem_inBraces (newline_not_mem_inBraces ?_)
  simp [hfields]

theorem newline_not_mem_childText (text : String) : '\n' ∉ childText text := by
  unfold childText
  split
  · exact newline_not_mem_inBraces (Json.newline_not_mem_quote text)
  · rename_i hneeds
    intro hmem
    refine hneeds ?_
    unfold needsExpression
    rw [List.any_eq_true.2 ⟨'\n', hmem, by decide⟩, Bool.or_true, Bool.true_or]

theorem newline_not_mem_componentName (hname : Catalog.isComponentName entry.name = true) :
    '\n' ∉ entry.name.toList := by
  intro hmem
  rcases Catalog.alphanum_or_dot_of_mem hname hmem with h | h
  · exact absurd h (by decide)
  · exact absurd h (by decide)

theorem newline_not_mem_openingText (hname : Catalog.isComponentName entry.name = true)
    (hkeys : ∀ name ∈ node.props.keys, isAttributeName name = true) :
    '\n' ∉ openingText entry node := by
  have hattributes : ∀ text ∈ attributesOf node, '\n' ∉ text := by
    intro text hmem
    rcases List.mem_append.1 hmem with hmem | hmem
    · obtain ⟨p, hp, htext⟩ := List.mem_filterMap.1 hmem
      refine newline_not_mem_attributeText (fun hbreak => ?_) htext
      have htag := (isTag_of_isAttributeName (hkeys p.1 (List.mem_map_of_mem hp))).1
      exact absurd (htag.2 _ hbreak) (by decide)
    · split at hmem
      · split at hmem
        · cases hmem
        · rw [List.mem_singleton.1 hmem]
          simp [newline_not_mem_styleText]
      · cases hmem
  have hspaced : '\n' ∉ (attributesOf node).flatMap (' ' :: ·) := by
    rw [List.mem_flatMap]
    rintro ⟨text, hmem, hbreak⟩
    exact hattributes text hmem (by simpa using hbreak)
  unfold openingText
  simp [newline_not_mem_componentName hname, hspaced]

theorem newline_not_mem_closingText (hname : Catalog.isComponentName entry.name = true) :
    '\n' ∉ closingText entry := by
  unfold closingText
  simp [newline_not_mem_componentName hname]

end OneLine

/-! ## Trees -/

/-- No text stands in front of children. -/
def IsTidy (node : MappedNode) : Prop :=
  node.text = none ∨ node.children = []

section Trees

variable {options : Options}

/-- The lines of a tidy node: one, or those of its children between its tags. -/
theorem quietLines_node {node : MappedNode} {entry : Catalog.Entry} {depth : Nat}
    (hopening : '\n' ∉ openingText entry node) (hclosing : '\n' ∉ closingText entry)
    (htidy : IsTidy node)
    (hchildren : QuietLines (writeAll options (depth + 1) node.children).text) :
    QuietLines (line options (depth + 2)
      (openingText entry node ++ insideText options depth entry node)) := by
  have hline {text : List Char} (htext : '\n' ∉ '<' :: text) :
      QuietLines (line options (depth + 2) ('<' :: text)) := by
    unfold line
    rw [← List.append_assoc]
    exact (isQuiet_line (by decide) (by decide) htext).lines
  have hempty (text : List Char) : line options (depth + 2) (openingText entry node ++ text) =
      line options (depth + 2) ('<' :: ((openingText entry node).tail ++ text)) := rfl
  unfold insideText
  split
  · rename_i hnil
    split
    · rename_i text htext
      rw [hempty]
      refine hline ?_
      show '\n' ∉ openingText entry node ++ '>' :: (childText text ++ closingText entry)
      simp [hopening, newline_not_mem_childText, hclosing]
    · rw [hempty]
      refine hline ?_
      show '\n' ∉ openingText entry node ++ " />".toList
      simp [hopening]
  · rename_i first rest hcons
    have htext : node.text = none := by
      rcases htidy with htext | hnil
      · exact htext
      · rw [hcons] at hnil
        cases hnil
    have hfirst : QuietLines (line options (depth + 2) (openingText entry node ++ ['>'])) := by
      rw [hempty]
      refine hline ?_
      show '\n' ∉ openingText entry node ++ ['>']
      simp [hopening]
    have hlast : QuietLines (line options (depth + 2) (closingText entry)) := hline hclosing
    rw [htext]
    have hsplit := (hfirst.append hchildren).append hlast
    simpa [line] using hsplit

mutual

/-- A tidy tree is written as quiet lines. -/
theorem quietLines_write : (node : MappedNode) → ∀ {depth}, (∀ m ∈ node.preorder, IsTidy m) →
    (write options depth node).fault = none → QuietLines (write options depth node).text
  | ⟨id, name, component, own, confidence, props, style, text, children⟩, depth, htidy, h => by
    obtain ⟨entry, hentry, hwritten, htext, -⟩ := write_of_fault_eq_none h
    obtain ⟨-, -, hname, hkeys⟩ := writableEntry_eq_ok hentry
    have hopening : '\n' ∉ openingText entry _ := newline_not_mem_openingText hname hkeys
    have hclosing := newline_not_mem_closingText hname
    have hnode := htidy _ (MappedNode.self_mem_preorder _)
    rw [MappedNode.preorder_eq] at htidy
    have hlater := quietLines_writeAll children
      (fun m hm => htidy m (List.mem_cons_of_mem _ hm)) hwritten
    rw [htext]
    exact quietLines_node hopening hclosing hnode hlater

theorem quietLines_writeAll :
    (nodes : List MappedNode) → ∀ {depth}, (∀ m ∈ MappedNode.preorderAll nodes, IsTidy m) →
    (writeAll options depth nodes).fault = none → QuietLines (writeAll options depth nodes).text
  | [], depth, _, _ => by
    rw [writeAll]
    exact quietLines_nil
  | node :: rest, depth, htidy, h => by
    rw [writeAll] at h ⊢
    rw [MappedNode.preorderAll] at htidy
    obtain ⟨hfirst, hrest⟩ := Draft.fault_append_eq_none.1 h
    rw [Draft.text_append hfirst]
    exact (quietLines_write node (fun m hm => htidy m (List.mem_append_left _ hm)) hfirst).append
      (quietLines_writeAll rest (fun m hm => htidy m (List.mem_append_right _ hm)) hrest)

end

end Trees

/-! ## Lines of a source -/

section Sources

variable {options : Options} {name : String} {body : Option (List Char)}

/-- The line in place of a tree that was given up. -/
theorem quietLines_fallbackText (message : String) :
    QuietLines (fallbackText options message) := by
  have htext : fallbackText options message =
      indentation options 2 ++ ('<' :: ("div style=\x7b\x7b color: 'red' \x7d\x7d>".toList ++
        (inBraces (Json.quote message) ++ "</div>".toList))) ++ ['\n'] := by
    unfold fallbackText line
    rw [← List.append_assoc]
    rfl
  rw [htext]
  refine (isQuiet_line (by decide) (by decide) ?_).lines
  simp [newline_not_mem_inBraces (Json.newline_not_mem_quote message)]

theorem quietLines_returnText (hbody : ∀ text, body = some text → QuietLines text) :
    QuietLines (returnText options body) := by
  have hline (c : Char) (text : List Char) (hc : isPad c = false)
      (hletter : c ∉ ['i', 'e', 'd', 'c', 'l', 'f']) (htext : '\n' ∉ c :: text) :
      QuietLines (line options 1 (c :: text)) := by
    unfold line
    rw [← List.append_assoc]
    exact (isQuiet_line hc hletter htext).lines
  have hopen : QuietLines (line options 1 "return (".toList) :=
    hline 'r' "eturn (".toList (by decide) (by decide) (by decide)
  have hclose : QuietLines (line options 1 ");".toList) :=
    hline ')' ";".toList (by decide) (by decide) (by decide)
  have hnull : QuietLines (line options 1 "return null;".toList) :=
    hline 'r' "eturn null;".toList (by decide) (by decide) (by decide)
  cases body with
  | none => exact hnull
  | some text => exact hopen.append ((hbody text rfl).append hclose)

/-- The source of a component behind its imports. -/
def behindImports (options : Options) (name : String) (body : Option (List Char)) : List Char :=
  '\n' :: (declarationLine options name ++ (returnText options body ++ ("\x7d;\n".toList ++
    if options.defaultExport then "\nexport default ".toList ++ (name.toList ++ [';', '\n'])
    else [])))

theorem sourceText_eq (imports : List String) :
    sourceText options name imports body =
      imports.flatMap (fun i => i.toList ++ ['\n']) ++ behindImports options name body :=
  rfl

/-- What holds of quiet lines and of the two lines with the name of the component holds of all
lines behind the imports. -/
theorem atLines_behindImports {P : List Char → Prop}
    (hname : Catalog.isNameSegment name.toList = true)
    (hbody : ∀ text, body = some text → QuietLines text) (hend : P [])
    (hquiet : ∀ line rest, IsQuiet line → P (line ++ '\n' :: rest))
    (hconst : ∀ c rest, c.isUpper = true → P ("export const ".toList ++ c :: rest))
    (hdefault : ∀ c rest, c.isUpper = true → P ("export default ".toList ++ c :: rest)) :
    AtLines P (behindImports options name body) := by
  obtain ⟨c, more, hchars, hupper, halnum⟩ := Catalog.isNameSegment_eq_true hname
  have hline {rest : List Char} (hrest : AtLines P rest) : AtLines P ('\n' :: rest) :=
    Text.Pattern.atLines_line [] (by simp) (hquiet [] rest ⟨by simp, by simp⟩) hrest
  have hbreak : '\n' ∉ c :: more := by
    rw [← hchars]
    exact fun hmem => absurd (halnum _ hmem) (by decide)
  have hexport : AtLines P
      (if options.defaultExport then "\nexport default ".toList ++ (name.toList ++ [';', '\n'])
        else []) := by
    split
    · have hlast := Text.Pattern.atLines_line ("export default ".toList ++ c :: (more ++ [';']))
        (by simpa using hbreak) (by simpa using hdefault c (more ++ [';', '\n']) hupper)
        (Text.Pattern.atLines_nil hend)
      have hsplit : "\nexport default ".toList ++ (name.toList ++ [';', '\n']) =
          '\n' :: (("export default ".toList ++ c :: (more ++ [';'])) ++ '\n' :: []) := by
        rw [hchars]
        simp
      rw [hsplit]
      exact hline hlast
    · exact Text.Pattern.atLines_nil hend
  have hbrace : IsQuiet "\x7d;".toList := ⟨by decide, by decide⟩
  have hclose : QuietLines "\x7d;\n".toList := hbrace.lines
  have hreturned : QuietLines (returnText options body) := quietLines_returnText hbody
  have hreturn := hreturned.atLines hquiet (hclose.atLines hquiet hexport)
  refine hline ?_
  have hdeclared : declarationLine options name = "export const ".toList ++ c :: (more ++
      (if options.typed then ": React.FC = () => \x7b" else " = () => \x7b").toList) ++
      ['\n'] := by
    unfold declarationLine
    rw [hchars]
    cases options.typed <;> simp
  have htype :
      '\n' ∉ (if options.typed then ": React.FC = () => \x7b" else " = () => \x7b").toList := by
    split <;> decide
  rw [hdeclared, List.append_assoc, List.singleton_append]
  refine Text.Pattern.atLines_line _ ?_ ?_ hreturn
  · simp only [List.mem_append, List.mem_cons, not_or] at hbreak ⊢
    exact ⟨by decide, hbreak.1, hbreak.2, htype⟩
  · rw [List.append_assoc, List.cons_append]
    exact hconst c _ hupper

/-- Behind its imports a source has no more of them. -/
theorem withoutImports_behindImports (hname : Catalog.isNameSegment name.toList = true)
    (hbody : ∀ text, body = some text → QuietLines text) :
    Markup.WithoutImports (behindImports options name body) :=
  atLines_behindImports hname hbody (by simp) (fun _ _ h => h.ne_import)
    (fun c rest _ => by simp [isPad]) fun c rest _ => by simp [isPad]

/-- A source declares its component and nothing else with a small letter. -/
theorem atLines_sourceText {imports : List String}
    (hname : Catalog.isNameSegment name.toList = true)
    (hbody : ∀ text, body = some text → QuietLines text)
    (himports : ∀ i ∈ imports, i.toList.head? = some 'i' ∧ '\n' ∉ i.toList) :
    AtLines DeclaresCapital (sourceText options name imports body) := by
  rw [sourceText_eq]
  have hbehind : AtLines DeclaresCapital (behindImports options name body) :=
    atLines_behindImports hname hbody (.other (by simp)) (fun _ _ h => h.declaresCapital)
      (fun c rest hc => .const hc rest) fun c rest hc => .default hc rest
  induction imports with
  | nil => exact hbehind
  | cons i imports ih =>
    obtain ⟨hhead, hline⟩ := himports i List.mem_cons_self
    have hlater := ih fun j hj => himports j (List.mem_cons_of_mem i hj)
    have htext : (i :: imports).flatMap (fun i => i.toList ++ ['\n']) ++
        behindImports options name body =
        i.toList ++
          '\n' :: (imports.flatMap (fun i => i.toList ++ ['\n']) ++
            behindImports options name body) := by
      simp
    rw [htext]
    refine Text.Pattern.atLines_line _ hline (.other ?_) hlater
    obtain ⟨more, hmore⟩ := List.head?_eq_some_iff.1 hhead
    rw [hmore]
    rintro d ⟨⟩
    decide

end Sources

end DesignCompiler.Synthesis
