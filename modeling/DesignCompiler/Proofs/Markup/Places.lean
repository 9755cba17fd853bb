import DesignCompiler.Proofs.Markup.Shifts
import DesignCompiler.Proofs.Markup.Ways
import Mathlib.Logic.Function.Iterate

/-!
# Places in a text

A place has a position, the number of characters in front of it, and `IsIn` says that it is a
place of a text: it has the rest of the text in front of it, and its line is told by the line
feeds behind it. Every place that a scan comes to is one, since a scan only goes from a place to
the next one: `Spans.eq_iterate` counts the steps.

An expression ends behind the brace that closes it, so its text is that between its start and the
character in front of its end (`spans_scanExpression`).
-/

namespace DesignCompiler.Markup

open Text (newlines)

namespace Cursor

/-- The number of characters in front of the place. -/
def position (c : Cursor) : Nat :=
  c.before.length

/-- The place is one of the text, and its line is the number of line feeds in front of it and one
more. -/
structure IsIn (text : List Char) (c : Cursor) : Prop where
  position_le : c.position ≤ text.length
  before : c.before.reverse = text.take c.position
  rest : c.rest = text.drop c.position
  line : c.line = 1 + newlines (text.take c.position)

section IsIn

variable {text s : List Char} {c d : Cursor}

theorem Spans.position (h : c.Spans s d) : d.position = c.position + s.length := by
  unfold Cursor.position
  rw [h.before, List.length_append, List.length_reverse, Nat.add_comm]

/-- The places of a text are those that its start leads to. -/
theorem isIn_iff_leads : c.IsIn text ↔ (start text).Leads c := by
  constructor
  · intro h
    refine ⟨text.take c.position, ?_, ?_, h.line⟩
    · rw [← h.before, List.reverse_reverse]
      exact (List.append_nil _).symm
    · rw [h.rest]
      exact (List.take_append_drop _ _).symm
  · rintro ⟨s, hs⟩
    have hposition : c.position = s.length := hs.position.trans (Nat.zero_add _)
    have htext : text = s ++ c.rest := hs.rest
    have htake : text.take c.position = s := by rw [hposition, htext, List.take_left]
    have hdrop : text.drop c.position = c.rest := by rw [hposition, htext, List.drop_left]
    refine ⟨?_, ?_, ?_, ?_⟩
    · rw [hposition, htext, List.length_append]
      exact Nat.le_add_right _ _
    · rw [htake, hs.before, List.reverse_append, List.reverse_reverse]
      rfl
    · exact hdrop.symm
    · rw [htake]
      exact hs.line

theorem IsIn.leads (h : c.IsIn text) (hleads : c.Leads d) : d.IsIn text :=
  isIn_iff_leads.2 ((isIn_iff_leads.1 h).trans hleads)

theorem isIn_start (text : List Char) : (start text).IsIn text :=
  isIn_iff_leads.2 (.refl _)

/-- However often a scan goes on to the next place, it stays in the text. -/
theorem IsIn.iterate_next (h : c.IsIn text) (k : Nat) : (next^[k] c).IsIn text := by
  induction k generalizing c with
  | zero => exact h
  | succ k ih =>
    rw [Function.iterate_succ_apply]
    exact ih (h.leads (leads_next c))

/-- A later place is reached character by character. -/
theorem Spans.eq_iterate (h : c.Spans s d) : d = next^[s.length] c := by
  induction s generalizing c with
  | nil => exact h.unique (.refl c)
  | cons ch s ih =>
    have hrest : c.rest = ch :: (s ++ d.rest) := h.rest
    obtain ⟨e, hfirst, hlater⟩ := Spans.split (s := [ch]) h
    have hnext : e = c.next := by
      refine Leads.unique ⟨_, hfirst⟩ (leads_next c) ?_
      rw [rest_next, hrest]
      exact hlater.rest
    rw [List.length_cons, Function.iterate_succ_apply, ← hnext]
    exact ih hlater

theorem Leads.exists_iterate (h : c.Leads d) : ∃ k, d = next^[k] c := by
  obtain ⟨s, hs⟩ := h
  exact ⟨s.length, hs.eq_iterate⟩

theorem Spans.textUntil_eq (h : c.Spans s d) : c.textUntil d = s := by
  unfold textUntil
  rw [h.rest, List.length_append, Nat.add_sub_cancel, List.take_left]

/-- The text between two places of a text. -/
theorem IsIn.eq_slice (h : c.IsIn text) (hspans : c.Spans s d) :
    s = (text.drop c.position).take (d.position - c.position) := by
  rw [← h.rest, hspans.rest, hspans.position, Nat.add_sub_cancel_left, List.take_left]

end IsIn

end Cursor

/-! ## Expressions -/

section Expressions

variable {element : ElementScanner} {stack : List String} {bound : Nat} {c stop : Cursor}

/-- A closing brace is passed over alone. -/
theorem next_of_closeBrace {h : stop.rest.length < c.rest.length}
    (hstep : c.step = .closeBrace stop h) :
    c.rest.head? = some '\x7d' ∧ stop = c.next := by
  cases begins_of_step hstep
  exact ⟨rfl, rfl⟩

/-- The script text of an expression ends behind a closing brace. -/
theorem closes_scanScript
    (helement : ∀ c found, c.rest ≠ [] → element stack c = .ok found → c.Leads found.stop)
    {line depth : Nat} (hc : c.rest.length ≤ bound) {found : Scanned Unit bound}
    (h : scanScript element stack (.expression line) bound depth c hc = .ok found) :
    ∃ d, c.Leads d ∧ d.rest.head? = some '\x7d' ∧ found.stop = d.next := by
  induction hlength : c.rest.length using Nat.strongRecOn generalizing c depth found with
  | ind m ih =>
    subst hlength
    have hbehind {stop : Cursor} {depth : Nat} {hwithin : stop.rest.length ≤ bound}
        {found : Scanned Unit bound} (hleads : c.Leads stop)
        (hlt : stop.rest.length < c.rest.length)
        (hscan : scanScript element stack (.expression line) bound depth stop hwithin =
          .ok found) :
        ∃ d, c.Leads d ∧ d.rest.head? = some '\x7d' ∧ found.stop = d.next := by
      obtain ⟨d, hd, hbrace, hstop⟩ := ih _ hlt hwithin hscan rfl
      exact ⟨d, hleads.trans hd, hbrace, hstop⟩
    have hleads (stop : Cursor) (h : c.step.stop? = some stop) : c.Leads stop := leads_step h
    cases hstep : c.step with
    | atEnd =>
      rw [scanScript.eq_def, hstep] at h
      cases h
    | pass stop hlt =>
      rw [scanScript.eq_def, hstep] at h
      exact hbehind (hleads stop (by rw [hstep]; rfl)) hlt h
    | openBrace stop hlt =>
      rw [scanScript.eq_def, hstep] at h
      exact hbehind (hleads stop (by rw [hstep]; rfl)) hlt h
    | closeBrace stop hlt =>
      rw [scanScript.eq_def, hstep] at h
      cases depth with
      | succ depth => exact hbehind (hleads stop (by rw [hstep]; rfl)) hlt h
      | zero =>
        obtain ⟨hbrace, hnext⟩ := next_of_closeBrace hstep
        cases h
        exact ⟨c, .refl c, hbrace, hnext⟩
    | broken reason =>
      rw [scanScript.eq_def, hstep] at h
      cases h
    | element =>
      have hrest := rest_ne_nil_of_step hstep
      cases hcall : element stack c with
      | error reason =>
        rw [scanScript_element_error hstep hrest hcall hc] at h
        cases h
      | ok inner =>
        obtain ⟨hstop, hscan⟩ :=
          scanScript_element (.expression line) depth hstep hrest ⟨inner.within, hcall⟩ hc
        rw [hscan] at h
        obtain ⟨later, hlater, rfl⟩ := exists_of_map_after h
        have hcloses := hbehind (helement c inner hrest hcall) (inner.lt_of_ne_nil hrest) hlater
        exact hcloses

/-- An expression is the text up to the brace that closes it, and the scan goes on behind the
brace. -/
theorem spans_scanExpression {nesting line : Nat} {tag name : String}
    {found : Scanned (List Char) c.rest.length}
    (h : scanExpression (scanElement nesting) stack tag name line c = .ok found) :
    c.Spans (found.value ++ ['\x7d']) found.stop := by
  unfold scanExpression at h
  split at h
  · cases h
  · cases h
  · rename_i script hscript
    obtain ⟨d, ⟨s, hs⟩, hbrace, hstop⟩ :=
      closes_scanScript (fun c found hrest hfound => (ahead_scanElement hrest hfound).leads) _
        hscript
    obtain ⟨later, hlater⟩ := List.head?_eq_some_iff.1 hbrace
    have hend : d.Spans ['\x7d'] d.next := by
      obtain ⟨before, _, line⟩ := d
      cases hlater
      exact ⟨rfl, rfl, rfl⟩
    have hspans : c.Spans (s ++ ['\x7d']) script.stop := hstop ▸ hs.trans hend
    cases h
    rw [hspans.textUntil_eq, List.dropLast_concat]
    exact hspans

end Expressions

end DesignCompiler.Markup
