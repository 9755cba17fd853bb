import DesignCompiler.Markup.Declaration
import DesignCompiler.Proofs.Markup.Passing
import DesignCompiler.Proofs.Text.Patterns
import DesignCompiler.Proofs.Text.Words
import Mathlib.Data.List.Pairwise

/-!
# Import statements read back

Import statements that start on a line of their own are found one after the other, each with its
clause, its module and the line of its keyword, and nothing else is: `importsOf_statements`.

Two patterns share this work. Each of them reads a statement as far as its first quote in one way
only, because the text in front of that quote ends with `from` for an import of bindings and with
the keyword for an import for effects (`lastInk?_front`). So neither pattern has a way within a
statement of the other kind, not even at a line of it that starts with the keyword
(`ways_importFrom_eq_nil`, `ways_importBare_eq_nil`), and the reluctant search for a clause does
not stop before the clause ends (`ways_fromModule_eq_nil`). The rest is the run over the
statements, `matchesFrom_statements`: a search takes those of its own kind and passes over the
others.
-/

namespace DesignCompiler.Markup

open Text (Pattern Capture isBlank newlines)
open Text.Pattern (Prefers AtLines AtLineStart Shortens)

/-! ## Places without imports -/

section Absent

variable {q : Pattern ImportPart} {before rest : List Char}

/-- The blanks in front of a keyword. -/
def isPad (c : Char) : Bool :=
  c == ' ' || c == '\t'

/-- A line that does not start with the first letter of the keyword, blanks aside, has no
keyword. -/
theorem ways_importKeyword_eq_nil (h : (rest.dropWhile isPad).head? ≠ some 'i') :
    importKeyword.ways ⟨before, rest⟩ = [] := by
  refine Pattern.ways_seq_eq_nil fun m hm => ?_
  rw [Pattern.mem_ways_lineStart hm]
  refine Pattern.ways_seq_run_eq_nil (· = 'i') ?_ ?_ ?_
  · intro t ht
    exact Pattern.ways_part_eq_nil
      (Pattern.ways_literalChars_eq_nil fun hhead => ht 'i' hhead rfl)
  · rintro c hc rfl
    exact absurd hc (by decide)
  · rintro c hc rfl
    exact h hc

/-- Both patterns for imports: the keyword, and what follows it. -/
abbrev importThen (behind : Pattern ImportPart) : Pattern ImportPart :=
  .seq importKeyword behind

theorem ways_import_eq_nil (h : (rest.dropWhile isPad).head? ≠ some 'i') :
    (importThen q).ways ⟨before, rest⟩ = [] :=
  Pattern.ways_seq_eq_nil_of_left (ways_importKeyword_eq_nil h)

theorem atLineStart_import : AtLineStart (importThen q) :=
  Pattern.atLineStart_lineStart.seq.seq

theorem shortens_import : Shortens (importThen q) :=
  (Shortens.seq_right (Shortens.seq_right ((Pattern.shortens_one _).seq_left.part _))).seq_left

/-- No line starts with the first letter of the keyword, blanks aside. -/
def WithoutImports (text : List Char) : Prop :=
  AtLines (fun rest => (rest.dropWhile isPad).head? ≠ some 'i') text

theorem firstMatchFrom_import_eq_none {text : List Char} (h : WithoutImports text) :
    (importThen q).firstMatchFrom before text = none :=
  Pattern.firstMatchFrom_eq_none_of_atLines atLineStart_import
    (h.mono fun _ hrest _ => ways_import_eq_nil hrest)

end Absent

/-! ## Statements -/

/-- The module of an import as it is printed. -/
structure IsModule (module : List Char) : Prop where
  ne_nil : module ≠ []
  accepted : ∀ c ∈ module, isPlainQuote c = false
  oneLine : '\n' ∉ module

/-- The clause of an import: it starts and ends with characters that are no blanks, and its first
word is not the one that marks an import of types. -/
structure IsClauseText (clause : List Char) : Prop where
  accepted : ∀ c ∈ clause, (c != ';' && !isPlainQuote c) = true
  head : ∃ c ∈ clause.head?, isBlank c = false
  last : ∃ c ∈ clause.getLast?, isBlank c = false
  untyped : clause.takeWhile (!isBlank ·) ≠ "type".toList

theorem IsClauseText.head?_append {clause : List Char} (h : IsClauseText clause)
    (rest : List Char) :
    ∀ c ∈ (clause ++ rest).head?, isBlank c = false := by
  obtain ⟨c, hc, hblank⟩ := h.head
  rw [List.head?_append, Option.mem_def.1 hc]
  rintro d ⟨⟩
  exact hblank

/-- Blanks, at least one. -/
abbrev Gap := { s : List Char // s ≠ [] ∧ ∀ c ∈ s, isBlank c = true }

def space : Gap :=
  ⟨[' '], by decide⟩

/-- What an import of bindings has in front of its module: a clause, and blanks around the word
that follows it. -/
structure Bindings (C : Type) where
  clause : C
  before : Gap
  behind : Gap

/-- An import as it is written: blank lines above it, its line up to the quote behind the module,
and a semicolon or none. An import without bindings is one for effects. -/
structure Statement (C : Type) where
  lead : List Char
  indent : List Char
  gap : Gap
  bindings : Option (Bindings C)
  quote : Char
  module : List Char
  semicolon : Bool
  lead_blank : ∀ c ∈ lead, isBlank c = true
  lead_ends : ∀ c ∈ lead.getLast?, c = '\n'
  indent_pads : ∀ c ∈ indent, isPad c = true
  quote_plain : isPlainQuote quote = true
  isModule : IsModule module

theorem isPad_of_mem_nil : ∀ c ∈ ([] : List Char), isPad c = true :=
  fun _ hc => absurd hc List.not_mem_nil

theorem isPlainQuote_single : isPlainQuote '\x27' = true :=
  rfl

variable {C : Type} (spell : C → List Char)

def Bindings.text (b : Bindings C) : List Char :=
  spell b.clause ++ (b.before.1 ++ ("from".toList ++ b.behind.1))

namespace Statement

variable (st : Statement C)

/-- The statement up to its first quote. -/
def front : List Char :=
  st.indent ++ ("import".toList ++ (st.gap.1 ++ (st.bindings.map (Bindings.text spell)).getD []))

/-- The module in its quotes. -/
def quoted : List Char :=
  st.quote :: (st.module ++ [st.quote])

def ending : List Char :=
  if st.semicolon then [';'] else []

def text : List Char :=
  st.lead ++ (st.front spell ++ (st.quoted ++ st.ending))

/-- The clause, which is empty for an import for effects. -/
def clause : List Char :=
  (st.bindings.map fun b => spell b.clause).getD []

/-- The import that the statement stands for when its keyword is on the given line. -/
def importAt (line : Nat) : Import :=
  .ofClause (String.ofList st.module) line (st.clause spell)

end Statement

/-! ## The text in front of the first quote -/

section Fronts

variable {u v s blanks : List Char} {c : Char}

theorem isPlainQuote_eq_false_of_isBlank (hc : isBlank c = true) : isPlainQuote c = false := by
  refine Bool.eq_false_iff.2 fun hquote => ?_
  rcases Bool.or_eq_true_iff.1 hquote with h | h <;>
  · rw [beq_iff_eq.1 h] at hc
    exact absurd hc (by decide)

theorem isBlank_of_isPad (hc : isPad c = true) : isBlank c = true := by
  rcases Bool.or_eq_true_iff.1 hc with h | h <;>
  · rw [beq_iff_eq.1 h]
    decide

abbrev Unquoted (s : List Char) : Prop :=
  ∀ c ∈ s, isPlainQuote c = false

theorem Unquoted.append (hu : Unquoted u) (hv : Unquoted v) : Unquoted (u ++ v) :=
  List.forall_mem_append.2 ⟨hu, hv⟩

theorem unquoted_of_blank (hs : ∀ c ∈ s, isBlank c = true) : Unquoted s :=
  fun c hc => isPlainQuote_eq_false_of_isBlank (hs c hc)

/-- There is one way to cut a text at its first quote. -/
theorem front_unique {x y : List Char} {q r : Char} (hu : Unquoted u) (hv : Unquoted v)
    (hq : isPlainQuote q = true) (hr : isPlainQuote r = true) (h : u ++ q :: x = v ++ r :: y) :
    u = v := by
  have hfront {u x : List Char} {q : Char} (hu : Unquoted u) (hq : isPlainQuote q = true) :
      (u ++ q :: x).takeWhile (!isPlainQuote ·) = u := by
    rw [List.takeWhile_append_of_pos (by simpa using hu),
      List.takeWhile_cons_of_neg (by simp [hq]), List.append_nil]
  rw [← hfront hu hq, h, hfront hv hr]

/-- The last character that is no blank. -/
def lastInk? (s : List Char) : Option Char :=
  s.reverse.find? (!isBlank ·)

theorem lastInk?_append (u v : List Char) : lastInk? (u ++ v) = (lastInk? v).or (lastInk? u) := by
  unfold lastInk?
  rw [List.reverse_append, List.find?_append]

theorem lastInk?_blanks (hblanks : ∀ c ∈ blanks, isBlank c = true) : lastInk? blanks = none := by
  refine List.find?_eq_none.2 fun c hc => ?_
  rw [hblanks c (List.mem_reverse.1 hc)]
  exact Bool.false_ne_true

/-- The last character of a word with blanks behind it. -/
theorem lastInk?_word (u word : List Char) (hblanks : ∀ c ∈ blanks, isBlank c = true)
    (hword : lastInk? word = some c) : lastInk? (u ++ (word ++ blanks)) = some c := by
  rw [lastInk?_append, lastInk?_append, lastInk?_blanks hblanks, hword]
  rfl

theorem lastInk?_from (u : List Char) (hblanks : ∀ c ∈ blanks, isBlank c = true) :
    lastInk? (u ++ ("from".toList ++ blanks)) = some 'm' :=
  lastInk?_word u _ hblanks (by decide)

theorem lastInk?_import (u : List Char) (hblanks : ∀ c ∈ blanks, isBlank c = true) :
    lastInk? (u ++ ("import".toList ++ blanks)) = some 't' :=
  lastInk?_word u _ hblanks (by decide)

variable {spell} (hspell : ∀ c, IsClauseText (spell c)) (st : Statement C)

theorem lastInk?_front :
    lastInk? (st.front spell) = if st.bindings.isSome then some 'm' else some 't' := by
  cases h : st.bindings with
  | none =>
    unfold Statement.front
    rw [h, Option.map_none, Option.getD_none, List.append_nil]
    exact lastInk?_import _ st.gap.2.2
  | some b =>
    have hfront : st.front spell =
        (st.indent ++ ("import".toList ++ (st.gap.1 ++ (spell b.clause ++ b.before.1)))) ++
          ("from".toList ++ b.behind.1) := by
      unfold Statement.front Bindings.text
      rw [h]
      simp
    rw [hfront]
    exact lastInk?_from _ b.behind.2.2

include hspell

theorem unquoted_clause (c : C) : Unquoted (spell c) := by
  intro d hd
  have haccepted := (hspell c).accepted d hd
  simpa using (Bool.and_eq_true_iff.1 haccepted).2

theorem unquoted_bindings (b : Bindings C) : Unquoted (b.text spell) :=
  (unquoted_clause hspell b.clause).append <| (unquoted_of_blank b.before.2.2).append <|
    Unquoted.append (by decide) (unquoted_of_blank b.behind.2.2)

theorem unquoted_front : Unquoted (st.front spell) := by
  have hindent : Unquoted st.indent :=
    unquoted_of_blank fun c hc => isBlank_of_isPad (st.indent_pads c hc)
  have hbindings : Unquoted ((st.bindings.map (Bindings.text spell)).getD []) := by
    cases st.bindings with
    | none => simp [Unquoted]
    | some b => exact unquoted_bindings hspell b
  exact hindent.append (Unquoted.append (by decide)
    ((unquoted_of_blank st.gap.2.2).append hbindings))

end Fronts

/-! ## Ways up to the first quote -/

section Ways

variable {u before front rest : List Char} {q : Char}

/-- A text that goes up to its first quote without another one in front of it, and has the word in
front of that quote, blanks aside. -/
def LeadsTo (word u : List Char) : Prop :=
  ∃ v blanks q w, u = v ++ (word ++ blanks) ++ q :: w ∧ Unquoted (v ++ (word ++ blanks)) ∧
    (∀ c ∈ blanks, isBlank c = true) ∧ isPlainQuote q = true

theorem LeadsTo.front_eq {word more : List Char} (h : LeadsTo word u) (hfront : Unquoted front)
    (hq : isPlainQuote q = true) (hsplit : front ++ q :: rest = u ++ more) :
    ∃ v blanks, front = v ++ (word ++ blanks) ∧ ∀ c ∈ blanks, isBlank c = true := by
  obtain ⟨v, blanks, r, w, rfl, hv, hblanks, hr⟩ := h
  refine ⟨v, blanks, ?_, hblanks⟩
  rw [List.append_assoc _ _ more] at hsplit
  exact front_unique hfront hv hq hr hsplit

theorem admits_importKeyword (h : importKeyword.Admits u) :
    ∃ pads, u = pads ++ "import".toList ∧ Unquoted pads := by
  obtain ⟨_, _, rfl, rfl, pads, keyword, rfl, ⟨-, hpads⟩, hkeyword⟩ := h
  rw [Pattern.eq_of_admits_literalChars hkeyword]
  exact ⟨pads, rfl, unquoted_of_blank fun c hc => isBlank_of_isPad (hpads c hc)⟩

theorem admits_importModule (h : importModule.Admits u) :
    ∃ q v, isPlainQuote q = true ∧ u = q :: v := by
  obtain ⟨_, v, rfl, ⟨q, hq, rfl⟩, -⟩ := h
  exact ⟨q, v, hq, rfl⟩

/-- What follows the clause in an import of bindings. -/
def fromModule : Pattern ImportPart :=
  .sequence [.run isBlank 1, .literal "from", .run isBlank 1, importModule]

theorem admits_fromModule (h : fromModule.Admits u) :
    ∃ gap gap' q v, u = gap ++ ("from".toList ++ gap') ++ q :: v ∧ (∀ c ∈ gap, isBlank c = true) ∧
      (∀ c ∈ gap', isBlank c = true) ∧ isPlainQuote q = true := by
  obtain ⟨gap, _, rfl, ⟨-, hgap⟩, word, _, rfl, hword, gap', module, rfl, ⟨-, hgap'⟩, hmodule⟩ :=
    h
  obtain ⟨q, v, hq, rfl⟩ := admits_importModule hmodule
  rw [Pattern.eq_of_admits_literalChars hword]
  exact ⟨gap, gap', q, v, by simp, hgap, hgap', hq⟩

theorem leadsTo_of_admits_importBare (h : importBare.Admits u) : LeadsTo "import".toList u := by
  obtain ⟨_, _, rfl, hkeyword, gap, module, rfl, ⟨-, hgap⟩, hmodule⟩ := h
  obtain ⟨pads, rfl, hpads⟩ := admits_importKeyword hkeyword
  obtain ⟨q, v, hq, rfl⟩ := admits_importModule hmodule
  exact ⟨pads, gap, q, v, by simp,
    hpads.append (Unquoted.append (by decide) (unquoted_of_blank hgap)), hgap, hq⟩

theorem leadsTo_of_admits_importFrom (h : importFrom.Admits u) : LeadsTo "from".toList u := by
  obtain ⟨_, _, rfl, hkeyword, gap, _, rfl, ⟨-, hgap⟩, type, _, rfl, htype, clause, _, rfl,
    ⟨-, hclause⟩, hbehind⟩ := h
  obtain ⟨pads, rfl, hpads⟩ := admits_importKeyword hkeyword
  obtain ⟨gap', gap'', q, v, rfl, hgap', hgap'', hq⟩ := admits_fromModule hbehind
  have htype : Unquoted type := by
    rcases htype with ⟨word, blanks, rfl, hword, -, hblanks⟩ | rfl
    · rw [Pattern.eq_of_admits_literalChars hword]
      exact Unquoted.append (by decide) (unquoted_of_blank hblanks)
    · simp [Unquoted]
  have hclause : Unquoted clause :=
    fun c hc => by simpa using (Bool.and_eq_true_iff.1 (hclause c hc)).2
  refine ⟨pads ++ ("import".toList ++ (gap ++ (type ++ (clause ++ gap')))), gap'', q, v, by simp,
    ?_, hgap'', hq⟩
  refine Unquoted.append ?_ (Unquoted.append (by decide) (unquoted_of_blank hgap''))
  exact hpads.append <| Unquoted.append (by decide) <| (unquoted_of_blank hgap).append <|
    htype.append <| hclause.append (unquoted_of_blank hgap')

variable (hfront : Unquoted front) (hq : isPlainQuote q = true)

include hfront hq

/-- There is no import of bindings when the first quote has no `from` in front of it. -/
theorem ways_importFrom_eq_nil (hlast : lastInk? front ≠ some 'm') :
    importFrom.ways ⟨before, front ++ q :: rest⟩ = [] := by
  refine Pattern.ways_eq_nil_of_not_admits fun u more hsplit hu => ?_
  obtain ⟨v, blanks, rfl, hblanks⟩ := (leadsTo_of_admits_importFrom hu).front_eq hfront hq hsplit
  exact hlast (lastInk?_from v hblanks)

/-- There is no import for effects when the first quote has no keyword in front of it. -/
theorem ways_importBare_eq_nil (hlast : lastInk? front ≠ some 't') :
    importBare.ways ⟨before, front ++ q :: rest⟩ = [] := by
  refine Pattern.ways_eq_nil_of_not_admits fun u more hsplit hu => ?_
  obtain ⟨v, blanks, rfl, hblanks⟩ := (leadsTo_of_admits_importBare hu).front_eq hfront hq hsplit
  exact hlast (lastInk?_import v hblanks)

/-- What follows a clause does not stand where there is more than `from` up to the first quote. -/
theorem ways_fromModule_eq_nil (hmore : front.filter (!isBlank ·) ≠ "from".toList) :
    fromModule.ways ⟨before, front ++ q :: rest⟩ = [] := by
  refine Pattern.ways_eq_nil_of_not_admits fun u more hsplit hu => hmore ?_
  obtain ⟨gap, gap', r, v, rfl, hgap, hgap', hr⟩ := admits_fromModule hu
  have hunquoted : Unquoted (gap ++ ("from".toList ++ gap')) :=
    (unquoted_of_blank hgap).append (Unquoted.append (by decide) (unquoted_of_blank hgap'))
  rw [List.append_assoc _ _ more] at hsplit
  have hnone {blanks : List Char} (hblanks : ∀ c ∈ blanks, isBlank c = true) :
      blanks.filter (!isBlank ·) = [] :=
    List.filter_eq_nil_iff.2 fun c hc => by simp [hblanks c hc]
  rw [front_unique hfront hunquoted hq hr hsplit, List.filter_append, List.filter_append,
    hnone hgap, hnone hgap']
  decide

end Ways

/-! ## Preferred ways -/

section Takes

variable {before module : List Char} {q : Char}

theorem prefers_importModule (before rest : List Char) (hmodule : IsModule module)
    (hq : isPlainQuote q = true) :
    Prefers importModule before (q :: (module ++ [q])) rest [⟨.module, q :: before, module⟩] := by
  have hrun : Prefers (Pattern.part ImportPart.module (.run (!isPlainQuote ·) 1)) (q :: before)
      module (q :: rest) [⟨.module, q :: before, module⟩] := by
    refine Pattern.prefers_part
      (Pattern.prefers_run (fun c hc => ?_) ?_ (by rintro c ⟨⟩; simp [hq]))
    · rw [hmodule.accepted c hc]
      rfl
    · exact List.length_pos_iff.2 hmodule.ne_nil
  have hclose : Prefers (Pattern.one isPlainQuote : Pattern ImportPart)
      (module.reverse ++ q :: before) [q] rest [] :=
    Pattern.prefers_one hq
  have hbehind := Pattern.prefers_seq hrun hclose
  have hopen : Prefers (Pattern.one isPlainQuote : Pattern ImportPart) before [q]
      (module ++ [q] ++ rest) [] :=
    Pattern.prefers_one hq
  exact Pattern.prefers_seq hopen hbehind

theorem prefers_gap (before : List Char) (gap : Gap) {tail : List Char}
    (htail : ∀ c ∈ tail.head?, isBlank c = false) :
    Prefers (Pattern.run isBlank 1 : Pattern ImportPart) before gap.1 tail [] :=
  Pattern.prefers_run gap.2.2 (List.length_pos_iff.2 gap.2.1) htail

variable {spell} (hspell : ∀ c, IsClauseText (spell c)) (st : Statement C)

theorem prefers_importKeyword (tail : List Char)
    (hbefore : before.head? = none ∨ before.head? = some '\n') :
    Prefers importKeyword before (st.indent ++ "import".toList) tail
      [⟨.keyword, st.indent.reverse ++ before, "import".toList⟩] :=
  Pattern.prefers_seq (u := []) (Pattern.prefers_lineStart hbefore)
    (Pattern.prefers_seq (Pattern.prefers_run st.indent_pads (Nat.zero_le _)
      (by rintro c ⟨⟩; decide))
      (Pattern.prefers_part Pattern.prefers_literal))

theorem quote_ne {c : Char} (hc : isPlainQuote c = false) : st.quote ≠ c := by
  rintro rfl
  rw [st.quote_plain] at hc
  cases hc

theorem head?_quoted_append (rest : List Char) :
    ∀ c ∈ (st.quoted ++ rest).head?, isBlank c = false := by
  rintro c ⟨⟩
  exact Bool.eq_false_iff.2
    fun hblank => quote_ne st (isPlainQuote_eq_false_of_isBlank hblank) rfl

variable (spell) in
theorem prefers_importBare (hbare : st.bindings = none) (rest : List Char)
    (hbefore : before.head? = none ∨ before.head? = some '\n') :
    ∃ late, Prefers importBare before (st.front spell ++ st.quoted) rest
      [⟨.keyword, st.indent.reverse ++ before, "import".toList⟩, ⟨.module, late, st.module⟩] := by
  have hmodule (b : List Char) := prefers_importModule b rest st.isModule st.quote_plain
  have hgap (b : List Char) :=
    Pattern.prefers_seq (prefers_gap b st.gap (head?_quoted_append st rest)) (hmodule _)
  have htext : st.front spell ++ st.quoted =
      st.indent ++ "import".toList ++ (st.gap.1 ++ st.quoted) := by
    simp [Statement.front, hbare]
  rw [htext]
  exact ⟨_, Pattern.prefers_seq (prefers_importKeyword st _ hbefore) (hgap _)⟩

include hspell

/-- Where a clause is not read to its end, what follows it has no way. -/
theorem ways_fromModule_within (b : Bindings C) (rest : List Char) {u v : List Char}
    (hsplit : spell b.clause = u ++ v) (hv : v ≠ []) :
    fromModule.ways ⟨before,
      v ++ (b.before.1 ++ ("from".toList ++ (b.behind.1 ++ (st.quoted ++ rest))))⟩ = [] := by
  have htext : v ++ (b.before.1 ++ ("from".toList ++ (b.behind.1 ++ (st.quoted ++ rest)))) =
      (v ++ (b.before.1 ++ ("from".toList ++ b.behind.1))) ++
        st.quote :: (st.module ++ [st.quote] ++ rest) := by
    simp [Statement.quoted]
  have hunquoted := unquoted_bindings hspell b
  unfold Bindings.text at hunquoted
  rw [hsplit, List.append_assoc] at hunquoted
  rw [htext]
  refine ways_fromModule_eq_nil (fun c hc => hunquoted c (List.mem_append_right u hc))
    st.quote_plain fun honly => ?_
  -- the clause does not end with a blank, so something of it is left besides the word
  obtain ⟨c, hlast, hc⟩ := (hspell b.clause).last
  have hmem : c ∈ v := by
    rw [hsplit, List.getLast?_append, List.getLast?_eq_some_getLast hv, Option.some_or] at hlast
    cases hlast
    exact List.getLast_mem hv
  have hpos :=
    List.length_pos_of_mem (List.mem_filter.2 ⟨hmem, by simp [hc]⟩ : c ∈ v.filter (!isBlank ·))
  have hlength := congrArg List.length honly
  rw [List.filter_append, List.filter_append, List.filter_append, List.length_append,
    List.length_append, List.length_append] at hlength
  have hword : ("from".toList.filter (!isBlank ·)).length = "from".toList.length := by decide
  omega

theorem ways_type_eq_nil (b : Bindings C) (rest : List Char) :
    (.sequence [.literal "type", .run isBlank 1] : Pattern ImportPart).ways
      ⟨before, b.text spell ++ rest⟩ = [] := by
  refine Pattern.ways_eq_nil_of_not_admits fun u more hread hu => (hspell b.clause).untyped ?_
  obtain ⟨word, blanks, rfl, hword, hlength, hblanks⟩ := hu
  obtain ⟨d, blanks, rfl⟩ := List.exists_cons_of_length_pos hlength
  have hclause : (b.text spell ++ rest).takeWhile (!isBlank ·) =
      (spell b.clause).takeWhile (!isBlank ·) := by
    obtain ⟨c, gap, hgap⟩ := List.exists_cons_of_ne_nil b.before.2.1
    have hc := b.before.2.2 c (hgap ▸ List.mem_cons_self)
    unfold Bindings.text
    rw [hgap, List.append_assoc]
    exact Text.takeWhile_append_of_head? _ (by rintro e ⟨⟩; simp [hc])
  have hd := hblanks d List.mem_cons_self
  rw [← hclause, hread, Pattern.eq_of_admits_literalChars hword, List.append_assoc]
  exact Text.takeWhile_append_head (by decide) (by rintro e ⟨⟩; simp [hd])

theorem prefers_importFrom {b : Bindings C} (hb : st.bindings = some b) (rest : List Char)
    (hbefore : before.head? = none ∨ before.head? = some '\n') :
    ∃ early late, Prefers importFrom before (st.front spell ++ st.quoted) rest
      [⟨.keyword, st.indent.reverse ++ before, "import".toList⟩, ⟨.clause, early, spell b.clause⟩,
        ⟨.module, late, st.module⟩] := by
  have hmodule (a : List Char) := prefers_importModule a rest st.isModule st.quote_plain
  have hfrom (a : List Char) :
      Prefers fromModule a (b.before.1 ++ ("from".toList ++ (b.behind.1 ++ st.quoted))) rest _ :=
    Pattern.prefers_seq (prefers_gap a b.before (by rintro c ⟨⟩; decide))
      (Pattern.prefers_seq Pattern.prefers_literal
        (Pattern.prefers_seq (prefers_gap _ b.behind (head?_quoted_append st rest)) (hmodule _)))
  have hclause (a : List Char) :=
    Pattern.prefers_fewest ImportPart.clause a (hspell b.clause).accepted
      (fun u v hsplit hv => by simpa using ways_fromModule_within hspell st b rest hsplit hv)
      (hfrom _)
  have huntyped (a : List Char) :
      Prefers (.optional (.sequence [.literal "type", .run isBlank 1]) : Pattern ImportPart)
        a [] ((spell b.clause ++ (b.before.1 ++ ("from".toList ++ (b.behind.1 ++ st.quoted)))) ++
          rest) [] :=
    Pattern.prefers_right (by
      simpa [Bindings.text] using ways_type_eq_nil hspell b (st.quoted ++ rest))
      Pattern.prefers_nothing
  have htype (a : List Char) := Pattern.prefers_seq (huntyped a) (hclause _)
  have hgap (a : List Char) := Pattern.prefers_seq (prefers_gap a st.gap
    (by rw [List.nil_append, List.append_assoc]; exact (hspell b.clause).head?_append _))
    (htype _)
  have htext : st.front spell ++ st.quoted =
      st.indent ++ "import".toList ++ (st.gap.1 ++ ([] ++ (spell b.clause ++
        (b.before.1 ++ ("from".toList ++ (b.behind.1 ++ st.quoted)))))) := by
    simp [Statement.front, Bindings.text, hb]
  rw [htext]
  exact ⟨_, _, Pattern.prefers_seq (prefers_importKeyword st _ hbefore) (hgap _)⟩

end Takes

/-! ## Statements that are taken or passed over -/

section Search

variable {spell}

/-- The search finds the statement at its line and reads its import. -/
def Statement.IsTaken (spell : C → List Char) (p : Pattern ImportPart) (st : Statement C) :
    Prop :=
  ∀ before rest, (before.head? = none ∨ before.head? = some '\n') → ∃ parts,
    Prefers p before (st.front spell ++ st.quoted) rest parts ∧
      ∀ stop, Import.ofMatch? ⟨stop, parts⟩ = some (st.importAt spell (newlines before + 1))

/-- The search finds nothing within the statement. -/
def Statement.IsPassed (spell : C → List Char) (p : Pattern ImportPart) (st : Statement C) :
    Prop :=
  ∀ before rest u v, st.front spell = u ++ v → p.ways ⟨before, v ++ (st.quoted ++ rest)⟩ = []

theorem newlines_reverse_append (s before : List Char) :
    newlines (s.reverse ++ before) = newlines before + newlines s := by
  have hreverse : newlines s.reverse = newlines s := List.count_reverse
  rw [newlines_append, hreverse, Nat.add_comm]

theorem newlines_indent (st : Statement C) (before : List Char) :
    newlines (st.indent.reverse ++ before) = newlines before := by
  have hnone : newlines st.indent = 0 :=
    List.count_eq_zero.2 fun h => absurd (st.indent_pads _ h) (by decide)
  rw [newlines_reverse_append, hnone, Nat.add_zero]

section Kinds

variable (hspell : ∀ c, IsClauseText (spell c)) {st : Statement C}

include hspell

theorem isTaken_importFrom (hst : st.bindings.isSome = true) : st.IsTaken spell importFrom := by
  intro before rest hbefore
  obtain ⟨b, hb⟩ := Option.isSome_iff_exists.1 hst
  obtain ⟨early, late, hfound⟩ := prefers_importFrom hspell st hb rest hbefore
  refine ⟨_, hfound, fun stop => ?_⟩
  have hline : newlines (st.indent.reverse ++ before) + 1 = newlines before + 1 := by
    rw [newlines_indent]
  unfold Statement.importAt Statement.clause
  rw [hb, ← hline]
  rfl

omit hspell in
theorem isTaken_importBare (hst : st.bindings.isSome = false) : st.IsTaken spell importBare := by
  intro before rest hbefore
  have hnone : st.bindings = none := by simpa using hst
  obtain ⟨late, hfound⟩ := prefers_importBare spell st hnone rest hbefore
  refine ⟨_, hfound, fun stop => ?_⟩
  have hline : newlines (st.indent.reverse ++ before) + 1 = newlines before + 1 := by
    rw [newlines_indent]
  unfold Statement.importAt Statement.clause
  rw [hnone, ← hline]
  rfl

/-- A pattern whose ways all end with the same character in front of the first quote passes over a
statement that has another one there: what is left of the statement ends like all of it. -/
theorem isPassed_of_lastInk {p : Pattern ImportPart} {c : Char}
    (hlast : lastInk? (st.front spell) ≠ some c)
    (hways : ∀ before front q rest, Unquoted front → isPlainQuote q = true →
      lastInk? front ≠ some c →
      p.ways ⟨before, front ++ q :: rest⟩ = []) : st.IsPassed spell p := by
  intro before rest u v hsplit
  have hunquoted := unquoted_front hspell st
  rw [hsplit] at hunquoted hlast
  refine hways before v st.quote _ (fun d hd => hunquoted d (List.mem_append_right u hd))
    st.quote_plain fun hv => ?_
  rw [lastInk?_append, hv] at hlast
  exact hlast rfl

theorem isPassed_importFrom (hst : st.bindings.isSome = false) :
    st.IsPassed spell importFrom := by
  refine isPassed_of_lastInk hspell (c := 'm') ?_
    fun before front q rest => ways_importFrom_eq_nil
  rw [lastInk?_front, hst]
  decide

theorem isPassed_importBare (hst : st.bindings.isSome = true) : st.IsPassed spell importBare := by
  refine isPassed_of_lastInk hspell (c := 't') ?_
    fun before front q rest => ways_importBare_eq_nil
  rw [lastInk?_front, hst]
  decide

end Kinds

variable {q : Pattern ImportPart} (st : Statement C) (before rest : List Char)

theorem matchesFrom_import_congr {u : List Char}
    (h : (importThen q).firstMatchFrom before (u ++ rest) =
      (importThen q).firstMatchFrom (u.reverse ++ before) rest) :
    (importThen q).matchesFrom ⟨before, u ++ rest⟩ =
      (importThen q).matchesFrom ⟨u.reverse ++ before, rest⟩ :=
  Pattern.matchesFrom_congr shortens_import h (by simp)

theorem matchesFrom_lead :
    (importThen q).matchesFrom ⟨before, st.lead ++ rest⟩ =
      (importThen q).matchesFrom ⟨st.lead.reverse ++ before, rest⟩ := by
  refine matchesFrom_import_congr before rest
    (Pattern.firstMatchFrom_skip fun u v hsplit hv => ?_)
  -- a part of the blank lines that is left ends with a line feed, which is no pad
  have hlast : '\n' ∈ v := by
    have hend := st.lead_ends (v.getLast hv)
      (by rw [hsplit, List.getLast?_append, List.getLast?_eq_some_getLast hv]; rfl)
    exact hend ▸ List.getLast_mem hv
  obtain ⟨c, later, hpads⟩ := List.exists_cons_of_ne_nil
    (List.ne_nil_of_mem (Text.mem_dropWhile (p := isPad) hlast (by decide)))
  have hc : isBlank c = true := by
    refine st.lead_blank c ?_
    rw [hsplit]
    exact List.mem_append_right u
      ((List.dropWhile_suffix isPad).subset (hpads ▸ List.mem_cons_self))
  refine ways_import_eq_nil ?_
  rw [Text.dropWhile_append_of_end
    (fun hnil => absurd hnil (by rw [hpads]; exact List.cons_ne_nil c later)), hpads]
  intro hhead
  cases hhead
  exact absurd hc (by decide)

theorem matchesFrom_quoted :
    (importThen q).matchesFrom ⟨before, st.quoted ++ rest⟩ =
      (importThen q).matchesFrom ⟨st.quoted.reverse ++ before, rest⟩ := by
  have hpad : isPad st.quote = false := Bool.eq_false_iff.2 fun hpad =>
    quote_ne st (isPlainQuote_eq_false_of_isBlank (isBlank_of_isPad hpad)) rfl
  refine matchesFrom_import_congr before rest
    (Pattern.firstMatchFrom_within atLineStart_import _ ?_ ?_)
  · intro hmem
    have hnewline : st.quote ≠ '\n' := quote_ne st (by decide)
    rcases List.mem_cons.1 ((List.dropLast_sublist _).subset hmem) with h | h
    · exact hnewline h.symm
    · rcases List.mem_append.1 h with h | h
      · exact st.isModule.oneLine h
      · exact hnewline (List.mem_singleton.1 h).symm
  · refine ways_import_eq_nil ?_
    rw [Statement.quoted, List.cons_append, List.dropWhile_cons_of_neg (by simp [hpad])]
    intro hhead
    exact quote_ne st (by decide) (Option.some.inj hhead)

theorem matchesFrom_front (hst : st.IsPassed spell (importThen q)) :
    (importThen q).matchesFrom ⟨before, st.front spell ++ (st.quoted ++ rest)⟩ =
      (importThen q).matchesFrom ⟨(st.front spell).reverse ++ before, st.quoted ++ rest⟩ :=
  matchesFrom_import_congr before _
    (Pattern.firstMatchFrom_skip fun u v hsplit _ => hst _ rest u v hsplit)

/-- Behind a quote the rest of the line holds no import. -/
theorem matchesFrom_ending {c : Char} (hc : c ≠ '\n') :
    (importThen q).matchesFrom ⟨c :: before, st.ending ++ rest⟩ =
      (importThen q).matchesFrom ⟨st.ending.reverse ++ c :: before, rest⟩ := by
  refine matchesFrom_import_congr (c :: before) rest
    (Pattern.firstMatchFrom_within atLineStart_import _ ?_ ?_)
  · unfold Statement.ending
    split <;> simp
  · exact atLineStart_import _ c before rfl hc

theorem matchesFrom_behind :
    (importThen q).matchesFrom ⟨st.quoted.reverse ++ before, st.ending ++ rest⟩ =
      (importThen q).matchesFrom ⟨(st.quoted ++ st.ending).reverse ++ before, rest⟩ := by
  have hreverse : st.quoted.reverse ++ before =
      st.quote :: (st.module.reverse ++ st.quote :: before) := by
    simp [Statement.quoted]
  rw [hreverse, matchesFrom_ending st _ rest (quote_ne st (by decide)), ← hreverse,
    List.reverse_append, List.append_assoc]

variable {st}

theorem matchesFrom_passed (hst : st.IsPassed spell (importThen q)) :
    (importThen q).matchesFrom ⟨before, st.text spell ++ rest⟩ =
      (importThen q).matchesFrom ⟨(st.text spell).reverse ++ before, rest⟩ := by
  have hfront := matchesFrom_front st (st.lead.reverse ++ before) (st.ending ++ rest) hst
  unfold Statement.text
  rw [List.append_assoc, matchesFrom_lead, List.append_assoc, List.append_assoc, hfront,
    matchesFrom_quoted, matchesFrom_behind]
  simp

theorem matchesFrom_taken (hst : st.IsTaken spell (importThen q))
    (hline : st.lead = [] → before.head? = none ∨ before.head? = some '\n') :
    ((importThen q).matchesFrom ⟨before, st.text spell ++ rest⟩).filterMap Import.ofMatch? =
      st.importAt spell (newlines before + 1 + newlines st.lead) ::
        ((importThen q).matchesFrom ⟨(st.text spell).reverse ++ before, rest⟩).filterMap
          Import.ofMatch? := by
  have hstart : (st.lead.reverse ++ before).head? = none ∨
      (st.lead.reverse ++ before).head? = some '\n' := by
    cases hlead : st.lead.getLast? with
    | none =>
      have hnil := List.getLast?_eq_none_iff.1 hlead
      rw [hnil]
      exact hline hnil
    | some c =>
      rw [List.head?_append, List.head?_reverse, hlead, st.lead_ends c hlead]
      exact .inr rfl
  obtain ⟨parts, hfound, hread⟩ := hst (st.lead.reverse ++ before) (st.ending ++ rest) hstart
  have hlines : newlines (st.lead.reverse ++ before) + 1 =
      newlines before + 1 + newlines st.lead := by
    rw [newlines_reverse_append]
    omega
  have htext : st.text spell ++ rest =
      st.lead ++ ((st.front spell ++ st.quoted) ++ (st.ending ++ rest)) := by
    simp [Statement.text]
  have hne : st.front spell ++ st.quoted ≠ [] := by simp [Statement.quoted]
  rw [htext, matchesFrom_lead, Pattern.matchesFrom_of_prefers hfound hne, List.filterMap_cons,
    hread, hlines, List.reverse_append, List.append_assoc, matchesFrom_behind]
  simp [Statement.text]

end Search

/-! ## The imports of a source -/

section Sources

/-- The statements with the lines of their keywords; the first of them starts in the given
line. -/
def placed : Nat → List (Statement C) → List (Statement C × Nat)
  | _, [] => []
  | n, st :: more => (st, n + newlines st.lead) :: placed (n + newlines (st.text spell)) more

variable {spell} {stmts : List (Statement C)} {before tail : List Char} {q : Pattern ImportPart}

variable (spell before) in
/-- A search takes the statements of one kind, each with its line, and passes over the others. -/
theorem matchesFrom_statements (kind : Statement C → Bool)
    (htaken : ∀ st ∈ stmts, kind st = true → st.IsTaken spell (importThen q))
    (hpassed : ∀ st ∈ stmts, kind st = false → st.IsPassed spell (importThen q))
    (hfirst : ∀ st ∈ stmts.head?, st.lead = [] → before.head? = none ∨ before.head? = some '\n')
    (hown : ∀ st ∈ stmts.tail, st.lead ≠ []) (htail : WithoutImports tail) :
    ((importThen q).matchesFrom ⟨before, stmts.flatMap (Statement.text spell) ++ tail⟩).filterMap
      Import.ofMatch? =
      ((placed spell (newlines before + 1) stmts).filter fun s => kind s.1).map
        fun s => s.1.importAt spell s.2 := by
  induction stmts generalizing before with
  | nil =>
    rw [List.flatMap_nil, List.nil_append,
      Pattern.matchesFrom_eq_nil (firstMatchFrom_import_eq_none htail)]
    rfl
  | cons st stmts ih =>
    have hlater :=
      ih ((st.text spell).reverse ++ before) (fun s hs => htaken s (List.mem_cons_of_mem st hs))
        (fun s hs => hpassed s (List.mem_cons_of_mem st hs))
        (fun s hs hlead => absurd hlead (hown s (List.mem_of_mem_head? hs)))
        (fun s hs => hown s (List.mem_of_mem_tail hs))
    have hlines : newlines ((st.text spell).reverse ++ before) + 1 =
        newlines before + 1 + newlines (st.text spell) := by
      rw [newlines_reverse_append]
      omega
    rw [hlines] at hlater
    rw [List.flatMap_cons, List.append_assoc, placed]
    cases hkind : kind st with
    | true =>
      rw [matchesFrom_taken before _ (htaken st List.mem_cons_self hkind) (hfirst st rfl), hlater,
        List.filter_cons_of_pos (p := fun s : Statement C × Nat => kind s.1) hkind]
      rfl
    | false =>
      rw [matchesFrom_passed before _ (hpassed st List.mem_cons_self hkind), hlater,
        List.filter_cons_of_neg (p := fun s : Statement C × Nat => kind s.1) (by simp [hkind])]

/-- Statements on lines of their own have lines behind the one in which the text starts. -/
theorem lt_of_mem_placed {n : Nat} (hown : ∀ st ∈ stmts, st.lead ≠ []) :
    ∀ s ∈ placed spell n stmts, n < s.2 := by
  induction stmts generalizing n with
  | nil => simp [placed]
  | cons st stmts ih =>
    have hlead : 0 < newlines st.lead := by
      have hne := hown st List.mem_cons_self
      have hend := st.lead_ends _ (List.getLast?_eq_some_getLast hne)
      exact List.count_pos_iff.2 (hend ▸ List.getLast_mem hne)
    intro s hs
    rcases List.mem_cons.1 hs with rfl | hs
    · show n < n + newlines st.lead
      omega
    · have hlt := ih (fun other hother => hown other (List.mem_cons_of_mem st hother)) s hs
      omega

theorem pairwise_placed {n : Nat} (hown : ∀ st ∈ stmts.tail, st.lead ≠ []) :
    (placed spell n stmts).Pairwise fun a b => a.2 < b.2 := by
  induction stmts generalizing n with
  | nil => exact .nil
  | cons st stmts ih =>
    refine List.pairwise_cons.2
      ⟨fun s hs => ?_, ih fun other hother => hown other (List.mem_of_mem_tail hother)⟩
    have hlt := lt_of_mem_placed hown s hs
    have hle : newlines st.lead ≤ newlines (st.text spell) := by
      unfold Statement.text
      rw [newlines_append]
      omega
    show n + newlines st.lead < s.2
    omega

theorem line_ofClause (module : String) (n : Nat) (clause : List Char) :
    (Import.ofClause module n clause).line = n := by
  have hfold : ∀ (pieces : List (List Char)) (i : Import),
      (pieces.foldl Import.addHead i).line = i.line := by
    intro pieces
    induction pieces with
    | nil => exact fun _ => rfl
    | cons piece pieces ih =>
      intro i
      rw [List.foldl_cons, ih]
      unfold Import.addHead
      split <;> rfl
  exact hfold _ _

/-- Imports on different lines are sorted into one order only. -/
theorem mergeSort_of_perm {found imports : List Import} (hperm : found.Perm imports)
    (hlines : imports.Pairwise fun a b => a.line < b.line) :
    (found.mergeSort fun a b => decide (a.line ≤ b.line)) = imports := by
  have hsorted : (found.mergeSort fun a b => decide (a.line ≤ b.line)).Pairwise fun a b =>
      decide (a.line ≤ b.line) = true :=
    List.pairwise_mergeSort (fun a b c => by simp only [decide_eq_true_eq]; omega)
      (fun a b => by simp only [Bool.or_eq_true, decide_eq_true_eq]; omega) found
  have hsorted' : imports.Pairwise fun a b => decide (a.line ≤ b.line) = true :=
    hlines.imp fun h => decide_eq_true (Nat.le_of_lt h)
  refine ((List.mergeSort_perm found _).trans hperm).eq_of_pairwise (fun a b ha hb hab hba => ?_)
    hsorted hsorted'
  have hmem : a ∈ imports := hperm.mem_iff.1 (List.mem_mergeSort.1 ha)
  have hdistinct : imports.Pairwise fun a b => a.line ≠ b.line := hlines.imp Nat.ne_of_lt
  have hsymm : Std.Symm fun a b : Import => a.line ≠ b.line := ⟨fun _ _ h => h.symm⟩
  refine Decidable.by_contra fun hne => hdistinct.forall hmem hb hne ?_
  exact Nat.le_antisymm (of_decide_eq_true hab) (of_decide_eq_true hba)

/-- **Import statements at the start of a source are its imports**, in order and with the lines of
their keywords, when each starts on a line of its own and no later line starts like one. -/
theorem importsOf_statements (stmts : List (Statement C)) (hspell : ∀ c, IsClauseText (spell c))
    (hown : ∀ st ∈ stmts.tail, st.lead ≠ []) (htail : WithoutImports tail) :
    importsOf (stmts.flatMap (Statement.text spell) ++ tail) =
      (placed spell 1 stmts).map fun s => s.1.importAt spell s.2 := by
  have hfrom := matchesFrom_statements spell [] (fun st => st.bindings.isSome)
    (fun st _ => isTaken_importFrom hspell) (fun st _ => isPassed_importFrom hspell)
    (fun _ _ _ => .inl rfl) hown htail
  have hbare := matchesFrom_statements spell [] (fun st => !st.bindings.isSome)
    (fun st _ h => isTaken_importBare (by simpa using h))
    (fun st _ h => isPassed_importBare hspell (by simpa using h))
    (fun _ _ _ => .inl rfl) hown htail
  have hall :=
    (List.filter_append_perm (fun s : Statement C × Nat => s.1.bindings.isSome)
      (placed spell 1 stmts)).map
      fun s => s.1.importAt spell s.2
  have hlines : ((placed spell 1 stmts).map fun s => s.1.importAt spell s.2).Pairwise
      fun a b => a.line < b.line := by
    refine List.pairwise_map.2 ((pairwise_placed hown).imp fun {a b} hab => ?_)
    unfold Statement.importAt
    rw [line_ofClause, line_ofClause]
    exact hab
  refine mergeSort_of_perm ?_ hlines
  unfold Pattern.allMatches
  rw [List.map_append] at hall
  rw [List.filterMap_append]
  exact (List.Perm.of_eq (congrArg₂ _ hfrom hbare)).trans hall

end Sources

end DesignCompiler.Markup
