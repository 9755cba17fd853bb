import DesignCompiler.Markup.Declaration
import DesignCompiler.Proofs.Text.Class
import DesignCompiler.Proofs.Text.Patterns

/-!
# Declarations found in a source

The search for declarations looks at line starts only. A line that starts with none of the words
in front of a declaration has none, nor has one that exports a name by default, and a line that
exports a constant declares that constant or nothing. When all lines of a source are of these
kinds and the names start with a capital, `isUpper_of_mem_declarationsOf` says so of everything
that is found. Lines without a declaration in front of one that has one are passed over
(`head?_declarationsOf`).
-/

namespace DesignCompiler.Markup

open Text (Pattern Match Site isBlank)
open Text.Pattern (AtLines AtLineStart)

/-! ## Words in front of a declaration -/

section Words

variable {before rest : List Char} {s : Site} {m : Match Unit} {c : Char}

/-- A word and the blanks behind it. -/
def spacedWord (word : List Char) : Pattern Unit :=
  .seq (.literalChars word) (.run isBlank 1)

/-- What stands behind the words `export` and `default`. -/
def declared : Pattern Unit :=
  .either arrowDeclaration functionDeclaration

/-- What stands behind the word `export`. -/
def defaulted : Pattern Unit :=
  .seq (.optional (spacedWord "default".toList)) declared

theorem declaration_eq :
    declaration = .seq .lineStart (.seq (.optional (spacedWord "export".toList)) defaulted) := rfl

/-- A spaced word in front of a text is read up to the text. -/
theorem mem_ways_spacedWord {word : List Char} (hrest : ∀ d ∈ rest.head?, isBlank d = false)
    (hm : m ∈ (spacedWord word).ways ⟨before, word ++ ' ' :: rest⟩) :
    m = ⟨⟨' ' :: (word.reverse ++ before), rest⟩, []⟩ := by
  obtain ⟨first, hfirst, second, hsecond, rfl⟩ := Pattern.mem_ways_seq hm
  rw [Pattern.mem_ways_literalChars hfirst] at hsecond ⊢
  rw [Pattern.mem_ways_run_singleton (by decide) hrest hsecond]
  rfl

theorem ways_spacedWord_eq_nil {word : List Char} (hword : word.head? = some c)
    (h : s.rest.head? ≠ some c) :
    (spacedWord word).ways s = [] := by
  obtain ⟨more, rfl⟩ := List.head?_eq_some_iff.1 hword
  exact Pattern.ways_seq_eq_nil_of_left (Pattern.ways_literalChars_eq_nil h)

theorem ways_literal_eq_nil {word : String} (hword : word.toList.head? = some c)
    (h : s.rest.head? ≠ some c) :
    (Pattern.literal word : Pattern Unit).ways s = [] := by
  obtain ⟨more, hmore⟩ := List.head?_eq_some_iff.1 hword
  rw [Pattern.literal, hmore]
  exact Pattern.ways_literalChars_eq_nil h

theorem ways_declared_eq_nil (h : ∀ d ∈ s.rest.head?, d ∉ ['c', 'l', 'f']) :
    declared.ways s = [] := by
  have hother (d : Char) (hd : d ∈ ['c', 'l', 'f']) : s.rest.head? ≠ some d :=
    fun hhead => h d hhead hd
  refine Pattern.ways_either_eq_nil ?_ ?_
  · refine Pattern.ways_seq_eq_nil_of_left (Pattern.ways_either_eq_nil ?_ ?_)
    · exact ways_literal_eq_nil rfl (hother 'c' (by decide))
    · exact ways_literal_eq_nil rfl (hother 'l' (by decide))
  · exact Pattern.ways_seq_eq_nil_of_left (ways_literal_eq_nil rfl (hother 'f' (by decide)))

theorem ways_defaulted_eq_nil (h : ∀ d ∈ s.rest.head?, d ∉ ['d', 'c', 'l', 'f']) :
    defaulted.ways s = [] := by
  refine Pattern.ways_seq_eq_nil fun m hm => ?_
  rw [Pattern.ways_optional_eq_singleton
    (ways_spacedWord_eq_nil rfl fun hhead => h 'd' hhead List.mem_cons_self)] at hm
  rw [List.mem_singleton.1 hm]
  exact ways_declared_eq_nil fun d hd hmem => h d hd (List.mem_cons_of_mem _ hmem)

theorem atLineStart_declaration : AtLineStart declaration :=
  Pattern.atLineStart_lineStart.seq

/-- A capital is no white space and starts none of the words. -/
theorem isBlank_eq_false_of_isUpper (hc : c.isUpper = true) : isBlank c = false :=
  Text.isBlank_eq_false_of_isNameChar
    (Text.isNameChar_of_isAlphanum (Text.isAlphanum_of_isUpper hc))

theorem not_mem_of_isUpper {letters : List Char} (hletters : ∀ d ∈ letters, d.isUpper = false)
    (hc : c.isUpper = true) : c ∉ letters := by
  intro hmem
  rw [hletters c hmem] at hc
  cases hc

end Words

/-! ## Lines -/

section Lines

variable {before rest : List Char} {m : Match Unit} {c : Char}

/-- A line that starts with no letter of the words has no declaration. -/
theorem ways_declaration_eq_nil (h : ∀ d ∈ rest.head?, d ∉ ['e', 'd', 'c', 'l', 'f']) :
    declaration.ways ⟨before, rest⟩ = [] := by
  rw [declaration_eq]
  refine Pattern.ways_seq_eq_nil fun m hm => ?_
  rw [Pattern.mem_ways_lineStart hm]
  refine Pattern.ways_seq_eq_nil fun m hm => ?_
  rw [Pattern.ways_optional_eq_singleton
    (ways_spacedWord_eq_nil rfl fun hhead => h 'e' hhead List.mem_cons_self)] at hm
  rw [List.mem_singleton.1 hm]
  exact ways_defaulted_eq_nil fun d hd hmem => h d hd (List.mem_cons_of_mem _ hmem)

/-- On a line that exports something the word is read. -/
theorem exists_mem_ways_defaulted (rest : List Char) (hrest : ∀ d ∈ rest.head?, isBlank d = false)
    (hm : m ∈ declaration.ways ⟨before, "export".toList ++ ' ' :: rest⟩) :
    ∃ behind, ∃ inner ∈ defaulted.ways ⟨behind, rest⟩, m.parts = inner.parts := by
  rw [declaration_eq] at hm
  obtain ⟨start, hstart, found, hfound, rfl⟩ := Pattern.mem_ways_seq hm
  rw [Pattern.mem_ways_lineStart hstart] at hfound ⊢
  obtain ⟨word, hword, inner, hinner, rfl⟩ := Pattern.mem_ways_seq hfound
  rcases Pattern.mem_ways_optional hword with hword | rfl
  · rw [mem_ways_spacedWord hrest hword] at hinner ⊢
    exact ⟨_, inner, hinner, rfl⟩
  · rw [ways_defaulted_eq_nil (by rintro d ⟨⟩; decide)] at hinner
    cases hinner

/-- A line that exports a name by default declares nothing. -/
theorem ways_declaration_default_eq_nil (hc : c.isUpper = true) :
    declaration.ways ⟨before, "export default ".toList ++ c :: rest⟩ = [] := by
  rw [List.eq_nil_iff_forall_not_mem]
  intro m hm
  obtain ⟨behind, inner, hinner, -⟩ :=
    exists_mem_ways_defaulted ("default".toList ++ ' ' :: c :: rest) (by rintro d ⟨⟩; decide) hm
  obtain ⟨word, hword, found, hfound, -⟩ := Pattern.mem_ways_seq hinner
  rcases Pattern.mem_ways_optional hword with hword | rfl
  · rw [mem_ways_spacedWord (by rintro d ⟨⟩; exact isBlank_eq_false_of_isUpper hc) hword,
      ways_declared_eq_nil (by rintro d ⟨⟩; exact not_mem_of_isUpper (by decide) hc)] at hfound
    cases hfound
  · rw [ways_declared_eq_nil (by rintro d ⟨⟩; decide)] at hfound
    cases hfound

/-- A name of a declaration is read from its first character on. -/
theorem exists_part_of_mem_ways_name
    (hm : m ∈ (Pattern.part () declarationName).ways ⟨before, c :: rest⟩) :
    ∃ name, m.parts.head? = some name ∧ name.text.head? = some c := by
  rw [Pattern.ways_part] at hm
  obtain ⟨text, htext, rfl⟩ := List.mem_map.1 hm
  refine ⟨_, rfl, ?_⟩
  obtain ⟨first, hfirst, others, hothers, rfl⟩ := Pattern.mem_ways_seq htext
  obtain ⟨d, -, hrest, -, -⟩ := Pattern.mem_ways_one hfirst
  obtain ⟨u, hu, -⟩ := Pattern.reads_of_mem_ways hothers
  simp only at hrest ⊢
  rw [hrest, hu, ← List.cons_append, List.length_append, Nat.add_sub_cancel, List.take_left']
  · cases hrest
    rfl
  · rfl

/-- A line that exports a constant declares it. -/
theorem exists_part_of_mem_ways_const (hc : c.isUpper = true)
    (hm : m ∈ declaration.ways ⟨before, "export const ".toList ++ c :: rest⟩) :
    ∃ name, m.parts.head? = some name ∧ name.text.head? = some c := by
  obtain ⟨behind, inner, hinner, hparts⟩ :=
    exists_mem_ways_defaulted ("const".toList ++ ' ' :: c :: rest) (by rintro d ⟨⟩; decide) hm
  rw [hparts]
  obtain ⟨word, hword, found, hfound, rfl⟩ := Pattern.mem_ways_seq hinner
  have hstays : word = ⟨⟨behind, "const".toList ++ ' ' :: c :: rest⟩, []⟩ := by
    rcases Pattern.mem_ways_optional hword with hword | rfl
    · rw [ways_spacedWord_eq_nil (c := 'd') rfl (by simp)] at hword
      cases hword
    · rfl
  subst hstays
  rcases List.mem_append.1 hfound with hfound | hfound
  · obtain ⟨keyword, hkeyword, named, hnamed, rfl⟩ := Pattern.mem_ways_seq hfound
    rcases List.mem_append.1 hkeyword with hkeyword | hkeyword
    · rw [Pattern.mem_ways_literalChars hkeyword] at hnamed ⊢
      obtain ⟨gap, hgap, value, hvalue, rfl⟩ := Pattern.mem_ways_seq hnamed
      rw [Pattern.mem_ways_run_singleton (by decide)
        (by rintro d ⟨⟩; exact isBlank_eq_false_of_isUpper hc) hgap] at hvalue ⊢
      obtain ⟨first, hfirst, later, -, rfl⟩ := Pattern.mem_ways_seq hvalue
      obtain ⟨name, hname, htext⟩ := exists_part_of_mem_ways_name hfirst
      exact ⟨name, by simpa using Or.inl hname, htext⟩
    · rw [ways_literal_eq_nil (c := 'l') rfl (by simp)] at hkeyword
      cases hkeyword
  · have hnone : functionDeclaration.ways ⟨behind, "const".toList ++ ' ' :: c :: rest⟩ = [] :=
      Pattern.ways_seq_eq_nil_of_left (ways_literal_eq_nil (c := 'f') rfl (by simp))
    rw [hnone] at hfound
    cases hfound

end Lines

/-! ## Sources -/

/-- A line of a source in which at most components are declared. -/
inductive DeclaresCapital : List Char → Prop where
  | other {rest : List Char} (h : ∀ d ∈ rest.head?, d ∉ ['e', 'd', 'c', 'l', 'f']) :
    DeclaresCapital rest
  | const {c : Char} (hc : c.isUpper = true) (rest : List Char) :
    DeclaresCapital ("export const ".toList ++ c :: rest)
  | default {c : Char} (hc : c.isUpper = true) (rest : List Char) :
    DeclaresCapital ("export default ".toList ++ c :: rest)

/-- **What is found starts with a capital** when every line declares a component or nothing. -/
theorem isUpper_of_mem_declarationsOf {text : List Char} (h : AtLines DeclaresCapital text)
    {d : Declaration} (hd : d ∈ declarationsOf text) :
    ∃ c, d.name.toList.head? = some c ∧ c.isUpper = true := by
  obtain ⟨m, hm, hpart⟩ := List.mem_filterMap.1 hd
  obtain ⟨name, hname, rfl⟩ := Option.map_eq_some_iff.1 hpart
  have hways : AtLines (fun v => ∀ b, ∀ m ∈ declaration.ways ⟨b, v⟩,
      ∃ name c, m.parts.head? = some name ∧ name.text.head? = some c ∧ c.isUpper = true)
      text := by
    refine h.mono ?_
    rintro v hv b m hm
    cases hv with
    | other hother =>
      rw [ways_declaration_eq_nil hother] at hm
      cases hm
    | const hc rest =>
      obtain ⟨name, hname, htext⟩ := exists_part_of_mem_ways_const hc hm
      exact ⟨name, _, hname, htext, hc⟩
    | default hc rest =>
      rw [ways_declaration_default_eq_nil hc] at hm
      cases hm
  obtain ⟨first, c, hfirst, htext, hc⟩ :=
    Pattern.of_mem_allMatches atLineStart_declaration hways m hm
  refine ⟨c, ?_, hc⟩
  have hfound : m.part? () = m.parts.head? := by
    unfold Match.part?
    cases m.parts <;> rfl
  rw [hfound, hfirst] at hname
  cases hname
  rw [String.toList_ofList, htext]

/-! ## The first declaration -/

section First

variable {before rest name : List Char} {c : Char}

/-- A name that starts with a letter is read as a whole when it ends there. -/
theorem prefers_declarationName {κ : Type} (hc : isDeclarationStart c = true)
    (hname : ∀ d ∈ name, isDeclarationChar d = true)
    (hrest : ∀ d ∈ rest.head?, isDeclarationChar d = false) :
    Pattern.Prefers (declarationName : Pattern κ) before (c :: name) rest [] :=
  Pattern.prefers_seq (Pattern.prefers_one hc) (Pattern.prefers_run hname (Nat.zero_le _) hrest)

/-- What stands in a declared arrow function from its equals sign on. -/
def arrowHead : Pattern Unit :=
  .sequence [.one (· == '='), .run isBlank 0, .either parameterList declarationName,
    .run isBlank 0, .literal "=>"]

theorem arrowDeclaration_eq :
    arrowDeclaration = .seq (.either (.literal "const") (.literal "let"))
      (.seq (.run isBlank 1) (.seq (.part () declarationName)
        (.seq (.run isBlank 0) (.seq (.optional typeAnnotation) arrowHead)))) := rfl

/-- A single blank is read by a run over blanks. -/
theorem prefers_blank {n : Nat} (hn : n ≤ 1) (hrest : ∀ d ∈ rest.head?, isBlank d = false) :
    Pattern.Prefers (.run isBlank n : Pattern Unit) before [' '] rest [] :=
  Pattern.prefers_run (by simp; decide) hn hrest

theorem prefers_arrowHead : Pattern.Prefers arrowHead before "= () =>".toList rest [] := by
  have hparameters {before rest : List Char} :
      Pattern.Prefers (.either parameterList declarationName : Pattern Unit) before "()".toList
        rest [] :=
    Pattern.prefers_left (Pattern.prefers_seq (u := ['(']) (Pattern.prefers_one rfl)
      (Pattern.prefers_seq (u := [])
        (Pattern.prefers_run (by simp) (Nat.le_refl 0) (by rintro d ⟨⟩; rfl))
        (Pattern.prefers_one rfl)))
  exact Pattern.prefers_seq (u := ['=']) (Pattern.prefers_one rfl) <|
    Pattern.prefers_seq (prefers_blank (by omega) (by rintro d ⟨⟩; decide)) <|
      Pattern.prefers_seq hparameters <|
        Pattern.prefers_seq (prefers_blank (by omega) (by rintro d ⟨⟩; decide))
          Pattern.prefers_literal

/-- What stands between the name of a component and its equals sign: a type, or nothing but a
blank. -/
def behindName : Bool → List Char
  | true => [':'] ++ ([' '] ++ ("React.FC".toList ++ [' ']))
  | false => [' ']

theorem prefers_reactType (hrest : ∀ d ∈ rest.head?, isBlank d = false) :
    Pattern.Prefers typeAnnotation before ([':'] ++ ([' '] ++ ("React.FC".toList ++ [' ']))) rest
      ([] : List (Text.Capture Unit)) :=
  Pattern.prefers_seq (Pattern.prefers_one rfl) <|
    Pattern.prefers_seq (prefers_blank (by omega) (by rintro d ⟨⟩; decide)) <|
      Pattern.prefers_seq (Pattern.prefers_run (by decide) (by decide)
        (by rintro d ⟨⟩; decide)) <|
        prefers_blank (by omega) hrest

theorem prefers_signature (typed : Bool) :
    Pattern.Prefers (.seq (.run isBlank 0) (.seq (.optional typeAnnotation) arrowHead)) before
      (behindName typed ++ "= () =>".toList) rest [] := by
  have hequals : ∀ d ∈ ("= () =>".toList ++ rest).head?, isBlank d = false := by
    rintro d ⟨⟩
    decide
  cases typed with
  | false =>
    have hnone {before : List Char} :
        Pattern.Prefers (.seq (.optional typeAnnotation) arrowHead) before
          ([] ++ "= () =>".toList) rest ([] ++ []) :=
      Pattern.prefers_seq (Pattern.prefers_right rfl Pattern.prefers_nothing) prefers_arrowHead
    exact Pattern.prefers_seq (prefers_blank (Nat.zero_le 1) hequals) hnone
  | true =>
    have hcolon : ∀ d ∈ (behindName true ++ "= () =>".toList ++ rest).head?,
        isBlank d = false := by
      rintro d ⟨⟩
      decide
    have htyped {before : List Char} :
        Pattern.Prefers (.seq (.optional typeAnnotation) arrowHead) before
          (behindName true ++ "= () =>".toList) rest ([] ++ []) :=
      Pattern.prefers_seq (Pattern.prefers_left (prefers_reactType hequals)) prefers_arrowHead
    have hall : Pattern.Prefers
        (.seq (.run isBlank 0) (.seq (.optional typeAnnotation) arrowHead)) before
        ([] ++ (behindName true ++ "= () =>".toList)) rest ([] ++ ([] ++ [])) :=
      Pattern.prefers_seq (Pattern.prefers_run (by simp) (Nat.le_refl 0) hcolon) htyped
    rwa [List.nil_append] at hall

theorem prefers_spacedWord {word : List Char} (hrest : ∀ d ∈ rest.head?, isBlank d = false) :
    Pattern.Prefers (spacedWord word) before (word ++ [' ']) rest [] :=
  Pattern.prefers_seq Pattern.prefers_literal (prefers_blank (Nat.le_refl 1) hrest)

/-- A pattern that reads the empty text in front of another one. -/
theorem prefers_seq_nil {p q : Pattern Unit} {parts : List (Text.Capture Unit)}
    (hp : Pattern.Prefers p before [] (name ++ rest) [])
    (hq : Pattern.Prefers q before name rest parts) :
    Pattern.Prefers (.seq p q) before name rest parts :=
  Pattern.prefers_seq (u := []) hp hq

/-- The text of a declaration behind its line start. -/
def exportedConst (typed : Bool) (name : List Char) : List Char :=
  ("export".toList ++ [' ']) ++
    ("const".toList ++ ([' '] ++ (name ++ (behindName typed ++ "= () =>".toList))))

theorem isDeclarationChar_of_isAlphanum (hc : c.isAlphanum = true) :
    isDeclarationChar c = true := by
  have hascii := Text.toNat_lt_of_isAlphanum hc
  simp [isDeclarationChar, Text.isWordChar, hascii, hc]

/-- An exported constant that holds a component is read with its name. -/
theorem prefers_declaration (hbefore : before.head? = none ∨ before.head? = some '\n')
    (hc : c.isUpper = true) (hname : ∀ d ∈ name, d.isAlphanum = true) (typed : Bool) :
    Pattern.Prefers declaration before (exportedConst typed (c :: name)) rest
      [⟨(), ' ' :: ("const".toList.reverse ++ ' ' :: ("export".toList.reverse ++ before)),
        c :: name⟩] := by
  have hstart : isDeclarationStart c = true := by
    simp [isDeclarationStart, Text.isAlpha_of_isUpper hc]
  have hend : ∀ d ∈ (behindName typed ++ "= () =>".toList ++ rest).head?,
      isDeclarationChar d = false := by
    cases typed <;> (rintro d ⟨⟩; decide)
  have hnamed {before : List Char} :
      Pattern.Prefers (.part () declarationName) before (c :: name)
        (behindName typed ++ "= () =>".toList ++ rest) [⟨(), before, c :: name⟩] :=
    Pattern.prefers_part (prefers_declarationName hstart
      (fun d hd => isDeclarationChar_of_isAlphanum (hname d hd)) hend)
  have hblank : ∀ d ∈ (c :: name ++ (behindName typed ++ "= () =>".toList) ++ rest).head?,
      isBlank d = false := by
    rintro d ⟨⟩
    exact isBlank_eq_false_of_isUpper hc
  have harrow {before : List Char} :
      Pattern.Prefers arrowDeclaration before
        ("const".toList ++ ([' '] ++ (c :: name ++ (behindName typed ++ "= () =>".toList)))) rest
        ([] ++ ([] ++ ([⟨(), [' '].reverse ++ ("const".toList.reverse ++ before), c :: name⟩] ++
          []))) := by
    rw [arrowDeclaration_eq]
    exact Pattern.prefers_seq (Pattern.prefers_left Pattern.prefers_literal) <|
      Pattern.prefers_seq (prefers_blank (Nat.le_refl 1) hblank) <|
        Pattern.prefers_seq hnamed (prefers_signature typed)
  have hdefaulted {before : List Char} : Pattern.Prefers defaulted before
      ("const".toList ++ ([' '] ++ (c :: name ++ (behindName typed ++ "= () =>".toList)))) rest
      ([] ++ [⟨(), ' ' :: ("const".toList.reverse ++ before), c :: name⟩]) :=
    prefers_seq_nil (Pattern.prefers_right (ways_spacedWord_eq_nil (c := 'd') rfl (by simp))
      Pattern.prefers_nothing)
      (Pattern.prefers_left harrow)
  have hword :
      ∀ d ∈ ("const".toList ++ ([' '] ++ (c :: name ++ (behindName typed ++ "= () =>".toList))) ++
        rest).head?, isBlank d = false := by
    rintro d ⟨⟩
    decide
  rw [declaration_eq]
  refine prefers_seq_nil (Pattern.prefers_lineStart hbefore) ?_
  have hall : Pattern.Prefers (.seq (.optional (spacedWord "export".toList)) defaulted) before
      (exportedConst typed (c :: name)) rest ([] ++ ([] ++ [_])) :=
    Pattern.prefers_seq (Pattern.prefers_left (prefers_spacedWord hword)) hdefaulted
  simpa using hall

/-- Lines without a declaration are passed over. -/
theorem firstMatchFrom_declaration_lines {lines : List (List Char)}
    (hlines : ∀ l ∈ lines, '\n' ∉ l ∧ ∀ d ∈ l.head?, d ∉ ['e', 'd', 'c', 'l', 'f']) :
    declaration.firstMatchFrom before (lines.flatMap (· ++ ['\n']) ++ rest) =
      declaration.firstMatchFrom ((lines.flatMap (· ++ ['\n'])).reverse ++ before) rest := by
  induction lines generalizing before with
  | nil => rfl
  | cons l lines ih =>
    obtain ⟨hbreak, hhead⟩ := hlines l List.mem_cons_self
    have hline : declaration.ways ⟨before, l ++ ['\n'] ++ (lines.flatMap (· ++ ['\n']) ++ rest)⟩ =
        [] := by
      refine ways_declaration_eq_nil fun d hd => ?_
      cases l with
      | nil =>
        obtain rfl := Option.some.inj hd
        decide
      | cons e l => exact hhead d hd
    rw [List.flatMap_cons, List.append_assoc,
      Pattern.firstMatchFrom_within atLineStart_declaration _ (by simpa using hbreak) hline,
      ih fun l hl => hlines l (List.mem_cons_of_mem _ hl)]
    simp

theorem count_lines {lines : List (List Char)} (hlines : ∀ l ∈ lines, '\n' ∉ l) :
    (lines.flatMap (· ++ ['\n'])).count '\n' = lines.length := by
  induction lines with
  | nil => rfl
  | cons l lines ih =>
    rw [List.flatMap_cons, List.count_append, List.count_append,
      List.count_eq_zero.2 (hlines l List.mem_cons_self),
      ih fun l hl => hlines l (List.mem_cons_of_mem _ hl), List.length_cons,
      List.count_singleton_self]
    omega

/-- **The first declaration of a source** behind lines without one is the component that is
exported there. -/
theorem head?_declarationsOf {lines : List (List Char)}
    (hlines : ∀ l ∈ lines, '\n' ∉ l ∧ ∀ d ∈ l.head?, d ∉ ['e', 'd', 'c', 'l', 'f'])
    (hc : c.isUpper = true) (hname : ∀ d ∈ name, d.isAlphanum = true) (typed : Bool)
    (rest : List Char) :
    (declarationsOf (lines.flatMap (· ++ ['\n']) ++
      (exportedConst typed (c :: name) ++ rest))).head? =
      some ⟨String.ofList (c :: name), lines.length + 1⟩ := by
  have hbefore : (lines.flatMap (· ++ ['\n'])).reverse.head? = none ∨
      (lines.flatMap (· ++ ['\n'])).reverse.head? = some '\n' := by
    rcases List.eq_nil_or_concat lines with rfl | ⟨lines, last, rfl⟩
    · exact .inl rfl
    · exact .inr (by simp)
  have hcount := count_lines fun l hl => (hlines l hl).1
  have hdeclared : Pattern.Prefers declaration _ (exportedConst typed (c :: name)) rest _ :=
    prefers_declaration hbefore hc hname typed
  have hfirst := Pattern.firstMatchFrom_of_prefers hdeclared
  rw [← List.append_nil (lines.flatMap _).reverse,
    ← firstMatchFrom_declaration_lines hlines] at hfirst
  have hhead : (declaration.allMatches _).head? = _ := (Pattern.head?_matchesFrom _).trans hfirst
  obtain ⟨more, hmore⟩ := List.head?_eq_some_iff.1 hhead
  unfold declarationsOf
  rw [hmore]
  have hline : Text.newlines (' ' :: ("const".toList.reverse ++ ' ' :: ("export".toList.reverse ++
      ((lines.flatMap (· ++ ['\n'])).reverse ++ [])))) = lines.length := by
    simp [Text.newlines, hcount]
  exact congrArg (fun n => some (Declaration.mk (String.ofList (c :: name)) (n + 1))) hline

end First

end DesignCompiler.Markup
