import DesignCompiler.Proofs.Markup.Ancestors
import DesignCompiler.Proofs.Markup.Recorded
import DesignCompiler.Proofs.Markup.Sites
import DesignCompiler.Proofs.Markup.StatementPlaces

/-!
# The state of a scan and the lines that it reports

`scan_state` puts together what holds at every turn of a scan, whatever the text is: where its
place is, which indices are in use, and what an expression is a slice of. It says as well that the
lines that are reported of a source are those on which its parts start (`Structure.StandsIn`).

An import starts with its keyword, behind the blanks in front of it. A declaration is found by its
name, and the line that is reported is that of the name; `declaration_starts_above` is a
declaration that starts on another one.
-/

namespace DesignCompiler.Markup

open Text (newlines)

/-! ## Lines -/

/-- The lines that a structure reports. -/
def Structure.lines (s : Structure) : List Nat :=
  s.imports.map (·.line) ++ s.declarations.map (·.line) ++
    s.elements.flatMap (fun e => e.line :: e.attributes.map (·.line)) ++
    s.unexpectedClosings.map (·.2) ++ s.unclosed.map (·.2)

section Lines

variable {text : List Char} {p : Cursor}

/-- A character is on a line of its text. -/
theorem Cursor.IsIn.line_le (h : p.IsIn text) (hne : p.rest ≠ []) :
    1 ≤ p.line ∧ p.line ≤ Text.lineCount text := by
  obtain ⟨s, hs⟩ := isIn_iff_leads.1 h
  obtain ⟨ch, later, hrest⟩ := List.exists_cons_of_ne_nil hne
  have htext : text = s ++ ch :: later := hrest ▸ hs.rest
  have hline : p.line = 1 + newlines s := hs.line
  have hlast : text.getLast? = (ch :: later).getLast? := by
    rw [htext, List.getLast?_append_of_ne_nil _ (List.cons_ne_nil ch later)]
  have hcount : newlines text = newlines s + newlines (ch :: later) := by
    rw [htext, newlines_append]
  refine ⟨by omega, ?_⟩
  unfold Text.lineCount
  rw [hlast]
  cases hend : (ch :: later).getLast? with
  | none => simp at hend
  | some last =>
    simp only
    split
    · -- the line feed at the end is not in front of the character
      rename_i hbreak
      have hmem : '\n' ∈ ch :: later := beq_iff_eq.1 hbreak ▸ List.mem_of_getLast? hend
      have hpos : 0 < newlines (ch :: later) := List.count_pos_iff.2 hmem
      omega
    · omega

end Lines

/-! ## Structures -/

/-- Everything that a structure reports stands in the text on the line that is reported for it:
imports by the keywords of their matches, declarations by the names in theirs, elements by their
opening tags with the attributes in them, closing tags of no open one by their starts, and
unclosed tags by the elements that they belong to. The imports, the declarations, the elements and
the closing tags each come in the order of their places. -/
structure Structure.StandsIn (s : Structure) (text : List Char) : Prop where
  imports : ∃ stop, StandsInRow (Import.StartsAt text) (.start text) s.imports stop
  declarations : ∃ stop,
    StandsInRow (Declaration.IsNamedAt text) (.start text) s.declarations stop
  elements : ∃ (places : List Placed) (stop : Cursor), s.elements = places.map (·.element) ∧
    InOrder (.start text) places stop ∧ ∀ p ∈ places, p.HasAttributes
  closings : ∃ stop, StandsInRow StartsClosing (.start text) s.unexpectedClosings stop
  unclosed : ∃ owners : List Element,
    owners.Subperm s.elements ∧ (∀ e ∈ owners, e.selfClosing = false) ∧
    owners.map Element.mark = s.unclosed

section Structures

variable {source : String} {s : Structure} {text : List Char}

theorem standsIn_of_ofText (h : Structure.ofText source = .ok s) : s.StandsIn source.toList := by
  obtain ⟨found, stop, ⟨⟨places, hplaces, hinOrder, hattributes⟩, hclosings⟩, helements,
    hunexpected⟩ :=
    sited_of_ofText h
  obtain ⟨assembled, hassembled, helements', hunclosed⟩ := exists_assembled h
  obtain ⟨owners, hsub, hopens, hmarks⟩ := hassembled.exists_owners
  obtain ⟨_, -, hs⟩ := exists_scan_eq h
  have himports := standsInRow_importsOf source.toList
  have hdeclarations := standsInRow_declarationsOf source.toList
  refine ⟨⟨(Text.Site.last ⟨[], source.toList⟩).cursor, ?_⟩,
    ⟨(Text.Site.last ⟨[], source.toList⟩).cursor, ?_⟩,
    ⟨places, stop, helements.trans hplaces, hinOrder, hattributes⟩,
    ⟨stop, hunexpected ▸ hclosings⟩,
    ⟨owners, helements' ▸ hsub, hopens, hmarks.trans hunclosed.symm⟩⟩
  · rwa [hs]
  · rwa [hs]

/-- What a structure reports is on the lines of the text. -/
theorem Structure.StandsIn.line_le (h : s.StandsIn text) {line : Nat} (hline : line ∈ s.lines) :
    1 ≤ line ∧ line ≤ Text.lineCount text := by
  have hplace {p d : Cursor} (hp : (Cursor.start text).Leads p) (hahead : p.Ahead d) :
      1 ≤ p.line ∧ p.line ≤ Text.lineCount text :=
    (Cursor.isIn_iff_leads.2 hp).line_le hahead.rest_ne_nil
  obtain ⟨places, stop, helements, hinOrder, hattributes⟩ := h.elements
  have helement {e : Element} (he : e ∈ s.elements) :
      1 ≤ e.line ∧ e.line ≤ Text.lineCount text := by
    rw [helements] at he
    obtain ⟨p, hp, rfl⟩ := List.mem_map.1 he
    rw [(hinOrder.tags p hp).line]
    exact hplace (hinOrder.between p hp).1 (hinOrder.tags p hp).ahead
  unfold Structure.lines at hline
  simp only [List.mem_append, List.mem_map, List.mem_flatMap, List.mem_cons] at hline
  rcases hline with (((⟨i, hi, rfl⟩ | ⟨d, hd, rfl⟩) | ⟨e, he, rfl | ⟨a, ha, rfl⟩⟩) |
    ⟨closing, hclosing, rfl⟩) | ⟨tag, htag, rfl⟩
  · obtain ⟨last, hrow⟩ := h.imports
    obtain ⟨q, hq, hleads, hahead⟩ := hrow.exists_place hi
    rw [hq.line]
    exact hplace hleads hahead
  · obtain ⟨last, hrow⟩ := h.declarations
    obtain ⟨q, hq, hleads, hahead⟩ := hrow.exists_place hd
    rw [hq.line]
    exact hplace hleads hahead
  · exact helement he
  · rw [helements] at he
    obtain ⟨p, hp, rfl⟩ := List.mem_map.1 he
    obtain ⟨q, hq, hleads, hahead⟩ := (hattributes p hp).exists_place ha
    rw [hq.1]
    exact hplace ((hinOrder.between p hp).1.trans hleads) hahead
  · obtain ⟨last, hrow⟩ := h.closings
    obtain ⟨q, hq, hleads, hahead⟩ := hrow.exists_place hclosing
    rw [hq.1]
    exact hplace hleads hahead
  · obtain ⟨owners, hsub, -, hmarks⟩ := h.unclosed
    rw [← hmarks] at htag
    obtain ⟨e, he, rfl⟩ := List.mem_map.1 htag
    exact helement (hsub.subset he)

end Structures

/-! ## The state of a scan -/

/-- An expression is a slice of the text, which ends in front of the last character that the scan
has passed. -/
theorem scanExpression_eq_slice {text : List Char} {nesting line : Nat} {stack : List String}
    {tag name : String} {c : Cursor} {found : Scanned (List Char) c.rest.length}
    (hc : c.IsIn text)
    (h : scanExpression (scanElement nesting) stack tag name line c = .ok found) :
    0 < found.stop.position ∧ c.position ≤ found.stop.position - 1 ∧
      found.stop.position ≤ text.length ∧
      found.value = (text.drop c.position).take (found.stop.position - 1 - c.position) := by
  have hspans := spans_scanExpression h
  have hposition : found.stop.position = c.position + (found.value.length + 1) := by
    rw [hspans.position, List.length_append, List.length_singleton]
  obtain ⟨d, htext, hbrace⟩ := hspans.split
  have hslice := hc.eq_slice htext
  rw [htext.position, Nat.add_sub_cancel_left] at hslice
  have hlength : found.stop.position - 1 - c.position = found.value.length := by omega
  rw [hlength]
  exact ⟨by omega, by omega, (hc.leads ⟨_, hspans⟩).position_le, hslice⟩

/-- **The state of a scan**, for every text and every limit on nesting.

Whatever turns a scan has taken, its place is in the text, on the line that the line feeds in
front of it tell, and so is every place that it goes over or looks at from there; a turn goes on
by single characters, or stays where it is. The index of each element whose children are read is
that of the element itself among those recorded by then. A turn adds at most one of these, behind
the others, and an element whose children it comes to gets the index behind the last one; when the
scan ends, the elements that it has found start with those recorded.

An expression that is scanned ends behind a closing brace, so its text is the slice of the source
up to the character before the place. And all that is reported of a source stands in it on the
line that is reported, between the first line and the last. -/
theorem scan_state (limit : Nat) (text : List Char) :
    (∀ s : Reading, (Turn.goesOn (.start text)).Becomes limit (.goesOn s) →
      (∀ k, (Cursor.next^[k] s.cursor).IsIn text) ∧
      (∀ opening inside found, s.loop = .children opening inside found →
        ∃ index, s.openIndices.head? = some (index, (opening.tag, opening.line))) ∧
      (∀ index mark, (index, mark) ∈ s.openIndices → s.recorded[index]? = some mark) ∧
      Records s (s.turn limit) ∧
      (∀ next, s.turn limit = .goesOn next → ∃ k, next.cursor = Cursor.next^[k] s.cursor) ∧
      ∀ found, scanScript (scanElement limit) [] .source text.length 0 (.start text)
        (Nat.le_refl _) = .ok found →
        s.recorded <+: found.findings.marks) ∧
    (∀ stack tag name line (c : Cursor) found, c.IsIn text →
      scanExpression (scanElement limit) stack tag name line c = .ok found →
        0 < found.stop.position ∧ c.position ≤ found.stop.position - 1 ∧
          found.stop.position ≤ text.length ∧
          found.value = (text.drop c.position).take (found.stop.position - 1 - c.position)) ∧
    ∀ s, Structure.ofText (String.ofList text) = .ok s →
      s.StandsIn text ∧ ∀ line ∈ s.lines, 1 ≤ line ∧ line ≤ s.lineCount := by
  refine ⟨?_, ?_, ?_⟩
  · intro s hs
    have hplace : s.cursor.IsIn text := Cursor.isIn_iff_leads.2 hs.leads
    refine ⟨hplace.iterate_next, ?_, fun index mark h => getElem?_recordedIn h,
      records_turn limit s, ?_, ?_⟩
    · rintro opening inside found hloop
      unfold Reading.openIndices
      rw [hloop]
      exact ⟨_, rfl⟩
    · intro next hturn
      have hmoves := moves_turn limit s
      rw [hturn] at hmoves
      exact hmoves.leads.exists_iterate
    · intro found hscan
      have hrun : (Reading.start text).run limit = .ok found.findings := by
        rw [run_start, hscan]
        rfl
      exact Reading.grows_run ((Reading.run_of_becomes hs).trans hrun)
  · intro stack tag name line c found hc h
    exact scanExpression_eq_slice hc h
  · intro s hs
    have hstands := standsIn_of_ofText hs
    rw [String.toList_ofList] at hstands
    obtain ⟨_, -, hstructure⟩ := exists_scan_eq hs
    have hcount : s.lineCount = Text.lineCount (String.ofList text).toList := by rw [hstructure]
    rw [String.toList_ofList] at hcount
    refine ⟨hstands, fun line hline => ?_⟩
    rw [hcount]
    exact hstands.line_le hline

/-- A card over two lines with an expression in its attribute. -/
def tallCard : List Char :=
  "(<Card size=\x7bn\x7d>\n</Card>)".toList

/-- The place of the expression in the card. -/
def tallCardSize : Cursor :=
  ⟨"(<Card size=\x7b".toList.reverse, "n\x7d>\n</Card>)".toList, 1⟩

/-- The scan of the card behind the text between its tags. -/
def tallCardInside : Reading :=
  ⟨⟨"(<Card size=\x7bn\x7d>\n".toList.reverse, "</Card>)".toList, 2⟩,
    .children ⟨"Card", 1, [⟨"size", .expression "n", 1⟩], .none⟩ ⟨false, ['\n'], false, false⟩
      .none,
    [.script none 0 .none]⟩

theorem becomes_tallCardInside :
    (Turn.goesOn (.start tallCard)).Becomes 1 (.goesOn tallCardInside) :=
  .goesOn (.goesOn (.goesOn (.goesOn (.goesOn (.goesOn (.goesOn (.refl _)))))))

/-- Between the tags of the card the scan is on the second line, and the card is the first
recorded element; its attribute is the slice of one character, and what is reported of the source
is on one of its lines. -/
theorem scan_state_tallCard :
    tallCardInside.cursor.IsIn tallCard ∧ tallCardInside.recorded[0]? = some ("Card", 1) ∧
    (∃ found, scanExpression (scanElement 1) [] "Card" "size" 1 tallCardSize = .ok found ∧
      found.value = (tallCard.drop 13).take (found.stop.position - 1 - 13)) ∧
    ∃ s, Structure.ofText (String.ofList tallCard) = .ok s ∧ s.StandsIn tallCard ∧
      ∀ line ∈ s.lines, 1 ≤ line ∧ line ≤ s.lineCount := by
  obtain ⟨hturns, hexpressions, hstructures⟩ := scan_state 1 tallCard
  obtain ⟨hplaces, -, hindices, -⟩ := hturns tallCardInside becomes_tallCardInside
  refine ⟨hplaces 0, hindices 0 _ (List.mem_singleton_self _), ?_, ?_⟩
  · have hpassable : Passable ['n'] := passable_of_inert (by decide)
    obtain ⟨_, hscan⟩ : Yields (scanExpression (scanElement 1) [] "Card" "size" 1 tallCardSize)
      ['n'] .none _ :=
      yields_scanExpression hpassable "Card" "size" 1 "(<Card size=\x7b".toList.reverse
        ">\n</Card>)".toList 1
    have hplace : tallCardSize.IsIn tallCard := ⟨by decide, by decide, by decide, by decide⟩
    obtain ⟨-, -, -, hslice⟩ := hexpressions [] "Card" "size" 1 tallCardSize _ hplace hscan
    exact ⟨_, hscan, hslice⟩
  · have hread : (Structure.ofText (String.ofList tallCard)).toOption.isSome = true := by
      decide +kernel
    cases hs : Structure.ofText (String.ofList tallCard) with
    | error reason =>
      rw [hs] at hread
      cases hread
    | ok s =>
      obtain ⟨hstands, hlines⟩ := hstructures s hs
      exact ⟨s, rfl, hstands, hlines⟩

/-! ## A declaration that starts above its name -/

/-- The text stands in the source, and its first character is on the line. -/
def StartsOn (source s : List Char) (line : Nat) : Prop :=
  ∃ p : Cursor, p.IsIn source ∧ s <+: p.rest ∧ line = p.line

/-- A declaration over two lines. -/
def tallDeclaration : List Char :=
  "export const\nApp = () => 1;".toList

/-- The declaration is reported on the line of its name, though it starts on the line above. -/
theorem declaration_starts_above :
    (∃ s, Structure.ofText (String.ofList tallDeclaration) = .ok s ∧
      s.declarations = [⟨"App", 2⟩]) ∧
      (declaration.ways ⟨[], tallDeclaration⟩).map (fun m => m.stop.before.reverse) =
        ["export const\nApp = () =>".toList] ∧
      StartsOn tallDeclaration "export const\nApp = () =>".toList 1 ∧
      ¬ StartsOn tallDeclaration "export".toList 2 := by
  refine ⟨?_, by decide +kernel,
    ⟨.start tallDeclaration, Cursor.isIn_start _, ⟨" 1;".toList, by decide⟩, rfl⟩, ?_⟩
  · have hread :
        ((Structure.ofText (String.ofList tallDeclaration)).toOption.map (·.declarations)) =
          some [⟨"App", 2⟩] := by
      decide +kernel
    cases hs : Structure.ofText (String.ofList tallDeclaration) with
    | error reason =>
      rw [hs] at hread
      cases hread
    | ok s =>
      rw [hs] at hread
      exact ⟨s, rfl, Option.some.inj hread⟩
  · rintro ⟨p, hp, hword, hline⟩
    rw [hp.rest] at hword
    rw [hp.line] at hline
    have hnone : ∀ k ≤ tallDeclaration.length, "export".toList <+: tallDeclaration.drop k →
        ¬ 2 = 1 + newlines (tallDeclaration.take k) := by
      decide +kernel
    exact hnone p.position hp.position_le hword hline

end DesignCompiler.Markup
