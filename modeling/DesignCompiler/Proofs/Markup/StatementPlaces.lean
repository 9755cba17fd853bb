import DesignCompiler.Proofs.Markup.Sites
import DesignCompiler.Proofs.Markup.Statements
import Mathlib.Data.List.Basic
import Mathlib.Data.List.Forall2

/-!
# Where imports and declarations stand

Imports and declarations are found by patterns, and each is reported on the line of one part of
its match: the keyword of an import, the name of a declaration. `Import.StartsAt` and
`Declaration.IsNamedAt` tie what is reported to a match of the text and to the place of that part.

The matches of one search come one behind the other, so the places do as well
(`standsInRow_matchesFrom`). Imports are found in two searches and sorted by their lines. Their
keywords are the first words of their lines, and no keyword is found in both searches, so this is
the order of their places as well (`standsInRow_importsOf`).
-/

namespace DesignCompiler.Text

/-- The place of a site, on the line that the line feeds in front of it tell. -/
def Site.cursor (s : Site) : Markup.Cursor :=
  ⟨s.before, s.rest, newlines s.before + 1⟩

/-- The site behind everything that is left to read. -/
def Site.last (s : Site) : Site :=
  ⟨s.rest.reverse ++ s.before, []⟩

end DesignCompiler.Text

namespace DesignCompiler.Markup

open Text (Pattern Capture Match Site newlines isBlank)

/-! ## Sites as places -/

section Sites

variable {κ : Type} {p : Pattern κ} {m : Match κ} {s t : Site} {u : List Char}

theorem newlines_reverse (u : List Char) : newlines u.reverse = newlines u :=
  List.count_reverse

theorem spans_cursor (hrest : s.rest = u ++ t.rest) (hbefore : t.before = u.reverse ++ s.before) :
    s.cursor.Spans u t.cursor := by
  refine ⟨hbefore, hrest, ?_⟩
  show newlines t.before + 1 = newlines s.before + 1 + newlines u
  rw [hbefore, newlines_append, newlines_reverse]
  omega

/-- A match leads from where it starts to where it ends. -/
theorem leads_of_mem_ways (hm : m ∈ p.ways s) : s.cursor.Leads m.stop.cursor := by
  obtain ⟨u, hrest, hbefore⟩ := Pattern.reads_of_mem_ways hm
  exact ⟨u, spans_cursor hrest hbefore⟩

/-- Whatever a site leads to is on the line that the line feeds in front of it tell. -/
theorem line_of_leads {q : Cursor} (h : s.cursor.Leads q) : q.line = newlines q.before + 1 := by
  obtain ⟨u, hu⟩ := h
  have hline : q.line = newlines s.before + 1 + newlines u := hu.line
  have hbefore : q.before = u.reverse ++ s.before := hu.before
  rw [hline, hbefore, newlines_append, newlines_reverse]
  omega

/-- A part of a match stands between the start of the match and its end. -/
theorem exists_place_of_part (hm : m ∈ p.ways s) {part : Capture κ} (hpart : part ∈ m.parts)
    (hne : part.text ≠ []) :
    ∃ q : Cursor, s.cursor.Leads q ∧ q.Ahead m.stop.cursor ∧ q.before = part.before ∧
      part.text <+: q.rest := by
  obtain ⟨-, u, v, hrest, hbefore⟩ := Pattern.part_of_mem_ways hm hpart
  have hwhole : s.cursor.Spans (u ++ (part.text ++ v)) m.stop.cursor := by
    refine (leads_of_mem_ways hm).spans ?_
    rw [List.append_assoc, List.append_assoc]
    exact hrest
  obtain ⟨q, hq, hstop⟩ := hwhole.split
  refine ⟨q, ⟨u, hq⟩, ⟨_, List.append_ne_nil_of_left_ne_nil hne v, hstop⟩,
    hq.before.trans hbefore.symm, ?_⟩
  rw [hstop.rest, List.append_assoc]
  exact List.prefix_append _ _

theorem leads_last (s : Site) : s.cursor.Leads s.last.cursor :=
  ⟨s.rest, spans_cursor (List.append_nil _).symm rfl⟩

theorem last_eq (hrest : s.rest = u ++ t.rest) (hbefore : t.before = u.reverse ++ s.before) :
    t.last = s.last := by
  unfold Site.last
  rw [hrest, hbefore, List.reverse_append, List.append_assoc]

end Sites

/-! ## Matches in a row -/

section Matches

variable {κ α : Type} {p : Pattern κ} {f : Match κ → Option α} {StartsAt : Cursor → α → Prop}

/-- What the first match of a search says stands in a row by itself, if it starts in the match. -/
theorem standsInRow_firstMatch {s : Site} {m : Match κ}
    (hfirst : p.firstMatchFrom s.before s.rest = some m)
    (h : ∀ t, m ∈ p.ways t → ∀ a, f m = some a →
      ∃ q : Cursor, t.cursor.Leads q ∧ q.Ahead m.stop.cursor ∧ StartsAt q a) :
    StandsInRow StartsAt s.cursor (f m).toList m.stop.cursor ∧ m.stop.last = s.last := by
  obtain ⟨u, v, hsplit, hway⟩ := Pattern.mem_firstMatchFrom hfirst
  obtain ⟨w, hrest, hbefore⟩ := Pattern.reads_of_mem_ways hway
  have hstart : s.cursor.Leads (Site.cursor ⟨u.reverse ++ s.before, v⟩) :=
    ⟨u, spans_cursor hsplit rfl⟩
  refine ⟨?_, (last_eq hrest hbefore).trans (last_eq hsplit rfl)⟩
  cases ha : f m with
  | none => exact .nil (hstart.trans (leads_of_mem_ways hway))
  | some a =>
    obtain ⟨q, hleads, hahead, hat⟩ := h _ hway a ha
    exact .leads (hstart.trans hleads) (.singleton hat hahead)

/-- What the matches of a search say stands in a row, if what each of them says starts in it. -/
theorem standsInRow_matchesFrom (s : Site)
    (h : ∀ t, ∀ m ∈ p.ways t, m ∈ p.matchesFrom s → ∀ a, f m = some a →
      ∃ q : Cursor, t.cursor.Leads q ∧ q.Ahead m.stop.cursor ∧ StartsAt q a) :
    StandsInRow StartsAt s.cursor ((p.matchesFrom s).filterMap f) s.last.cursor := by
  rw [List.filterMap_eq_flatMap_toList]
  fun_induction Pattern.matchesFrom p s with
  | case1 s hnone => exact .nil (leads_last s)
  | case2 s m hfirst hshorter ih =>
    obtain ⟨hrow, hlast⟩ := standsInRow_firstMatch hfirst fun t hm => h t m hm List.mem_cons_self
    have hlater := ih fun t m' hm' hmem => h t m' hm' (List.mem_cons_of_mem m hmem)
    rw [List.flatMap_cons]
    exact hrow.append (hlast ▸ hlater)
  | case3 s m hfirst hshorter =>
    obtain ⟨hrow, hlast⟩ := standsInRow_firstMatch hfirst fun t hm => h t m hm List.mem_cons_self
    rw [List.flatMap_singleton]
    exact hrow.trans_leads (hlast ▸ leads_last m.stop)

end Matches

/-! ## Declarations -/

/-- The declaration is that of a match of the text, and the name in this match stands at the
place, on the line of the declaration. -/
structure Declaration.IsNamedAt (text : List Char) (p : Cursor) (d : Declaration) : Prop where
  ne_nil : d.name.toList ≠ []
  name : d.name.toList <+: p.rest
  line : d.line = p.line
  found : ∃ m ∈ declaration.allMatches text, ∃ part, m.part? () = some part ∧
    part.before = p.before ∧ part.text = d.name.toList

theorem not_reports_literal {κ : Type} (key : κ) (word : String) (u : List Char) :
    ¬ (Pattern.literal word).Reports key u :=
  Pattern.not_reports_literalChars key word.toList

/-- The part of a declaration is a name. -/
theorem admits_of_reports_declaration {u : List Char} (h : declaration.Reports () u) :
    (declarationName : Pattern Unit).Admits u := by
  simpa [declaration, arrowDeclaration, functionDeclaration, parameterList, typeAnnotation,
    declarationName, Pattern.sequence, Pattern.optional, Pattern.Reports,
    not_reports_literal] using h

theorem declarationName_ne_nil {κ : Type} {u : List Char}
    (h : (declarationName : Pattern κ).Admits u) : u ≠ [] := by
  obtain ⟨first, more, rfl, ⟨c, -, rfl⟩, -⟩ := h
  exact List.cons_ne_nil c more

/-- The names of the declarations stand in the text one behind the other. -/
theorem standsInRow_declarationsOf (text : List Char) :
    StandsInRow (Declaration.IsNamedAt text) (.start text) (declarationsOf text)
      (Site.last ⟨[], text⟩).cursor := by
  refine standsInRow_matchesFrom ⟨[], text⟩ fun t m hm hmem d hd => ?_
  obtain ⟨part, hpart, rfl⟩ := Option.map_eq_some_iff.1 hd
  have hin : part ∈ m.parts := List.mem_of_find?_eq_some hpart
  have hname : (String.ofList part.text).toList = part.text := String.toList_ofList
  have hne : part.text ≠ [] :=
    declarationName_ne_nil (admits_of_reports_declaration (Pattern.part_of_mem_ways hm hin).1)
  obtain ⟨q, hleads, hahead, hbefore, hprefix⟩ := exists_place_of_part hm hin hne
  have hline : lineOfCapture part = q.line := by
    rw [line_of_leads hleads, hbefore, lineOfCapture]
  refine ⟨q, hleads, hahead, ?_, ?_, hline, m, hmem, part, hpart, hbefore.symm, hname.symm⟩
  · show (String.ofList part.text).toList ≠ []
    rwa [hname]
  · show (String.ofList part.text).toList <+: q.rest
    rwa [hname]

/-! ## Imports -/

/-- Nothing but blanks stands in front of the place on its line. -/
def Cursor.OpensLine (c : Cursor) : Prop :=
  ∃ blanks earlier, c.before = blanks ++ earlier ∧ (∀ ch ∈ blanks, ch = ' ' ∨ ch = '\t') ∧
    ∀ ch ∈ earlier.head?, ch = '\n'

/-- The import is what a match of the text describes, and the keyword in this match stands at the
place, as the first word on the line of the import. -/
structure Import.StartsAt (text : List Char) (p : Cursor) (i : Import) : Prop where
  opensLine : p.OpensLine
  keyword : "import".toList <+: p.rest
  line : i.line = p.line
  found : ∃ m ∈ importFrom.allMatches text ++ importBare.allMatches text, ∃ part,
    m.part? .keyword = some part ∧ part.before = p.before ∧ Import.ofMatch? m = some i

/-- The first character behind a keyword that is not blank. -/
def Cursor.behindKeyword? (p : Cursor) : Option Char :=
  ((p.rest.drop "import".toList.length).dropWhile isBlank).head?

section Imports

variable {m : Match ImportPart} {s : Site} {i : Import} {text : List Char} {p q : Cursor}

/-- The keyword stands behind the blanks at the start of its line, and nothing else is
reported. -/
theorem mem_ways_importKeyword (hm : m ∈ importKeyword.ways s) :
    ∃ blanks, s.rest = blanks ++ ("import".toList ++ m.stop.rest) ∧
      (∀ ch ∈ blanks, ch = ' ' ∨ ch = '\t') ∧ (∀ ch ∈ s.before.head?, ch = '\n') ∧
      m.parts = [⟨.keyword, blanks.reverse ++ s.before, "import".toList⟩] := by
  obtain ⟨start, hstart, later, hlater, rfl⟩ := Pattern.mem_ways_seq hm
  have hbreak := Pattern.head?_before_of_lineStart hstart
  obtain rfl := Pattern.mem_ways_lineStart hstart
  obtain ⟨run, hrun, word, hword, rfl⟩ := Pattern.mem_ways_seq hlater
  obtain ⟨blanks, hrest, hbefore, hnone, hblanks⟩ := Pattern.mem_ways_run hrun
  obtain ⟨hkeyword, hparts⟩ := Pattern.mem_ways_part_literalChars hword
  refine ⟨blanks, by rw [← hkeyword]; exact hrest, ?_, hbreak, ?_⟩
  · intro ch hch
    simpa using hblanks ch hch
  · simp only [hnone, hparts, hbefore, List.nil_append]

/-- A statement starts with its keyword, behind which the rest of its pattern matches. -/
theorem exists_startsAt {tail : Pattern ImportPart}
    (hm : m ∈ (Pattern.seq importKeyword tail).ways s) (h : Import.ofMatch? m = some i)
    (hmem : m ∈ importFrom.allMatches text ++ importBare.allMatches text) :
    ∃ q : Cursor, s.cursor.Leads q ∧ q.Ahead m.stop.cursor ∧ Import.StartsAt text q i ∧
      ∃ u v, q.rest = "import".toList ++ (u ++ v) ∧ tail.Admits u := by
  obtain ⟨first, hfirst, later, hlater, rfl⟩ := Pattern.mem_ways_seq hm
  obtain ⟨blanks, hblanks, hclass, hbreak, hparts⟩ := mem_ways_importKeyword hfirst
  obtain ⟨u, hrest, -, hu⟩ := Pattern.admits_of_mem_ways hlater
  have hspans : s.cursor.Spans (blanks ++ "import".toList) first.stop.cursor := by
    refine (leads_of_mem_ways hfirst).spans ?_
    rw [List.append_assoc]
    exact hblanks
  obtain ⟨q, hq, hword⟩ := hspans.split
  have hleads : s.cursor.Leads q := ⟨blanks, hq⟩
  have hbefore : q.before = blanks.reverse ++ s.before := hq.before
  have hahead : q.Ahead first.stop.cursor := ⟨_, by decide, hword⟩
  have hkeyword : q.rest = "import".toList ++ first.stop.rest := hword.rest
  have hpart : Match.part? ⟨later.stop, first.parts ++ later.parts⟩ .keyword =
      some ⟨.keyword, blanks.reverse ++ s.before, "import".toList⟩ := by
    rw [Match.part?, hparts]
    rfl
  have hstop : first.stop.cursor.Leads later.stop.cursor := leads_of_mem_ways hlater
  refine ⟨q, hleads, hahead.trans_leads hstop,
    ⟨⟨blanks.reverse, s.before, hbefore, ?_, hbreak⟩, ?_, ?_, _, hmem, _, hpart, hbefore.symm, h⟩,
    u, later.stop.rest, hrest ▸ hkeyword, hu⟩
  · exact fun ch hch => hclass ch (List.mem_reverse.1 hch)
  · rw [hkeyword]
    exact List.prefix_append _ _
  · unfold Import.ofMatch? at h
    rw [hpart] at h
    split at h
    · rename_i keyword module hfound hmodule
      obtain rfl := Option.some.inj hfound
      cases h
      rw [line_ofClause, line_of_leads hleads, hbefore]
      rfl
    · cases h

theorem isBlank_of_isPlainQuote {ch : Char} (h : isPlainQuote ch = true) :
    isBlank ch = false := by
  simp only [isPlainQuote, Bool.or_eq_true, beq_iff_eq] at h
  rcases h with rfl | rfl <;> decide

/-- The module of a bare import stands right behind its keyword. -/
theorem behindKeyword?_of_importBare (hm : m ∈ importBare.ways s)
    (h : Import.ofMatch? m = some i) (hmem : m ∈ importBare.allMatches text) :
    ∃ q : Cursor, s.cursor.Leads q ∧ q.Ahead m.stop.cursor ∧ Import.StartsAt text q i ∧
      ∃ ch ∈ q.behindKeyword?, isPlainQuote ch = true := by
  obtain ⟨q, hleads, hahead, hat, u, v, hrest, blanks, module, rfl, ⟨-, hblanks⟩,
    quote, later, rfl, ⟨ch, hch, rfl⟩, -⟩ := exists_startsAt hm h (List.mem_append_right _ hmem)
  refine ⟨q, hleads, hahead, hat, ch, ?_, hch⟩
  unfold Cursor.behindKeyword?
  rw [hrest, List.drop_left, List.append_assoc, List.dropWhile_append_of_pos hblanks]
  simp [isBlank_of_isPlainQuote hch]

/-- Where a text without quotes stands in front of a character, the first that is not blank is no
quote. -/
theorem not_quote_of_append {s rest : List Char} (hs : ∀ ch ∈ s, isPlainQuote ch = false)
    {d : Char} (hd : isPlainQuote d = false) (hblank : isBlank d = false) :
    ∀ ch ∈ ((s ++ d :: rest).dropWhile isBlank).head?, isPlainQuote ch = false := by
  induction s with
  | nil => simp [hblank, hd]
  | cons a s ih =>
    obtain ⟨ha, hs⟩ := List.forall_mem_cons.1 hs
    rw [List.cons_append, List.dropWhile_cons]
    split
    · exact ih hs
    · simpa using ha

/-- Behind the keyword of an import of bindings no quote comes first. -/
theorem behindKeyword?_of_importFrom (hm : m ∈ importFrom.ways s)
    (h : Import.ofMatch? m = some i) (hmem : m ∈ importFrom.allMatches text) :
    ∃ q : Cursor, s.cursor.Leads q ∧ q.Ahead m.stop.cursor ∧ Import.StartsAt text q i ∧
      ∀ ch ∈ q.behindKeyword?, isPlainQuote ch = false := by
  obtain ⟨q, hleads, hahead, hat, u, v, hrest, blanks, _, rfl, ⟨-, hblanks⟩, kind, _, rfl, hkind,
    clause, _, rfl, ⟨-, hclause⟩, gap, _, rfl, ⟨-, hgap⟩, word, later, rfl, hword, -⟩ :=
    exists_startsAt hm h (List.mem_append_left _ hmem)
  obtain rfl : word = "from".toList := Pattern.eq_of_admits_literalChars hword
  have hquote {ch : Char} (hch : isBlank ch = true) : isPlainQuote ch = false := by
    by_contra hquote
    rw [isBlank_of_isPlainQuote (Bool.not_eq_false _ ▸ hquote)] at hch
    cases hch
  have hkind' : ∀ ch ∈ kind, isPlainQuote ch = false := by
    rcases hkind with ⟨type, gap, rfl, htype, -, hgap⟩ | rfl
    · obtain rfl : type = "type".toList := Pattern.eq_of_admits_literalChars htype
      exact List.forall_mem_append.2 ⟨by decide, fun ch hch => hquote (hgap ch hch)⟩
    · exact List.forall_mem_nil _
  refine ⟨q, hleads, hahead, hat, ?_⟩
  unfold Cursor.behindKeyword?
  rw [hrest, List.drop_left]
  have hbefore : ∀ ch ∈ blanks ++ (kind ++ (clause ++ gap)), isPlainQuote ch = false := by
    simp only [List.forall_mem_append]
    refine ⟨fun ch hch => hquote (hblanks ch hch), hkind', fun ch hch => ?_,
      fun ch hch => hquote (hgap ch hch)⟩
    have hclass := hclause ch hch
    simp only [Bool.and_eq_true, Bool.not_eq_true'] at hclass
    exact hclass.2
  have hsplit : blanks ++ (kind ++ (clause ++ (gap ++ ("from".toList ++ later)))) ++ v =
      blanks ++ (kind ++ (clause ++ gap)) ++ 'f' :: ("rom".toList ++ later ++ v) := by
    simp
  rw [hsplit]
  exact not_quote_of_append hbefore (by decide) (by decide)

/-! ## The order of imports -/

/-- The first words of two lines stand in the order of the lines. -/
theorem ahead_of_line_le (hp : p.IsIn text) (hq : q.IsIn text) (hne : p ≠ q)
    (hopens : p.OpensLine) (hword : "import".toList <+: q.rest) (hline : p.line ≤ q.line) :
    p.Ahead q := by
  rcases (Cursor.isIn_iff_leads.1 hp).leads_or (Cursor.isIn_iff_leads.1 hq) with
    ⟨s, hs⟩ | ⟨s, hs⟩
  · refine ⟨s, ?_, hs⟩
    rintro rfl
    exact hne ((Cursor.Spans.refl p).unique hs)
  · -- The word at `q` would stand in front of `p` on the line that `p` opens.
    exfalso
    have hsame : newlines s = 0 := by
      have := hs.line
      omega
    have hbreak : '\n' ∉ s := List.count_eq_zero.1 hsame
    cases s with
    | nil => exact hne (hs.unique (.refl q))
    | cons ch s =>
      obtain ⟨later, hlater⟩ := hword
      have hi : ch = 'i' := by
        have hrest := hs.rest.symm.trans hlater.symm
        exact (List.cons.inj hrest).1
      obtain ⟨blanks, earlier, hbefore, hblanks, hearlier⟩ := hopens
      have hblank : ch ∈ blanks := by
        have hmem : ch ∈ (ch :: s).reverse := List.mem_reverse.2 List.mem_cons_self
        rcases List.append_eq_append_iff.1 (hs.before.symm.trans hbefore) with
          ⟨u, rfl, -⟩ | ⟨u, hu, rfl⟩
        · exact List.mem_append_left u hmem
        · cases u with
          | nil =>
            rw [List.append_nil] at hu
            exact hu ▸ hmem
          | cons first u =>
            have hfirst : first = '\n' := hearlier first rfl
            refine absurd (List.mem_reverse.1 ?_) hbreak
            rw [hu, hfirst]
            exact List.mem_append_right blanks List.mem_cons_self
      rw [hi] at hblank
      exact absurd (hblanks 'i' hblank) (by decide)

/-- The order by lines, in which imports are reported. -/
def importLineLe (x y : Cursor × Import) : Bool :=
  decide (x.2.line ≤ y.2.line)

/-- The imports, paired with the places of their keywords, as they are found. No keyword is found
in both searches: what stands behind it tells them apart. -/
theorem exists_pairs_importsOf (text : List Char) :
    ∃ pairs : List (Cursor × Import),
      (pairs.mergeSort importLineLe).map Prod.snd = importsOf text ∧
      (∀ x ∈ pairs, Import.StartsAt text x.1 x.2 ∧ (Cursor.start text).Leads x.1 ∧
        x.1.Ahead (Site.last ⟨[], text⟩).cursor) ∧
      pairs.Pairwise fun x y => x.1 ≠ y.1 := by
  obtain ⟨-, froms, hfroms, hfrom, hfromOrder⟩ := standsInRow_iff.1 <|
    standsInRow_matchesFrom ⟨[], text⟩ fun t m hm hmem i hi =>
      behindKeyword?_of_importFrom hm hi hmem
  obtain ⟨-, bares, hbares, hbare, hbareOrder⟩ := standsInRow_iff.1 <|
    standsInRow_matchesFrom ⟨[], text⟩ fun t m hm hmem i hi =>
      behindKeyword?_of_importBare hm hi hmem
  have hne {x y : Cursor × Import} (h : x.1.Ahead y.1) : x.1 ≠ y.1 := by
    intro heq
    have hlt := h.lt
    rw [heq] at hlt
    exact Nat.lt_irrefl _ hlt
  refine ⟨froms ++ bares, ?_, ?_, ?_⟩
  · have hsort : ((froms ++ bares).mergeSort importLineLe).map Prod.snd =
        ((froms ++ bares).map Prod.snd).mergeSort fun a b => decide (a.line ≤ b.line) :=
      List.map_mergeSort fun x _ y _ => rfl
    rw [hsort, List.map_append, hfroms, hbares, ← List.filterMap_append]
    rfl
  · refine List.forall_mem_append.2 ⟨fun x hx => ?_, fun x hx => ?_⟩
    · exact ⟨(hfrom x hx).1.1, (hfrom x hx).2⟩
    · exact ⟨(hbare x hx).1.1, (hbare x hx).2⟩
  · refine List.pairwise_append.2 ⟨hfromOrder.imp hne, hbareOrder.imp hne, ?_⟩
    intro x hx y hy heq
    obtain ⟨ch, hch, hquote⟩ := (hbare y hy).1.2
    rw [(hfrom x hx).1.2 ch (heq ▸ hch)] at hquote
    cases hquote

/-- The keywords of the imports stand in the text one behind the other. -/
theorem standsInRow_importsOf (text : List Char) :
    StandsInRow (Import.StartsAt text) (.start text) (importsOf text)
      (Site.last ⟨[], text⟩).cursor := by
  obtain ⟨pairs, himports, hat, hdistinct⟩ := exists_pairs_importsOf text
  have hsorted : (pairs.mergeSort importLineLe).Pairwise fun x y => importLineLe x y = true := by
    refine List.pairwise_mergeSort ?_ ?_ _
    · intro x y z
      simp only [importLineLe, decide_eq_true_eq]
      omega
    · intro x y
      simp only [importLineLe, Bool.or_eq_true, decide_eq_true_eq]
      omega
  have hapart := hdistinct.perm (List.mergeSort_perm pairs importLineLe).symm Ne.symm
  refine standsInRow_iff.2 ⟨leads_last ⟨[], text⟩, _, himports,
    fun x hx => hat x (List.mem_mergeSort.1 hx), ?_⟩
  refine (hsorted.and hapart).imp_of_mem fun {x y} hx hy h => ?_
  obtain ⟨hx, hstart, -⟩ := hat x (List.mem_mergeSort.1 hx)
  obtain ⟨hy, hstart', -⟩ := hat y (List.mem_mergeSort.1 hy)
  refine ahead_of_line_le (Cursor.isIn_iff_leads.2 hstart) (Cursor.isIn_iff_leads.2 hstart') h.2
    hx.opensLine hy.keyword ?_
  rw [← hx.line, ← hy.line]
  exact of_decide_eq_true h.1

end Imports

end DesignCompiler.Markup
