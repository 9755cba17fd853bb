import DesignCompiler.Proofs.Markup.Openings
import DesignCompiler.Proofs.Markup.Ways

/-!
# The order of the elements

An element is listed where its opening tag ends, so the elements in its attribute values stand
before it, though its tag starts in front of theirs. `Listed` is the invariant of the scan: the
elements that are found between two places have opening tags there, each of them in front of the
next one or inside it. It is kept when findings are put together (`isWay_listed`), so every loop
of the scan keeps it, and so does the recursion on elements. That no element is missing is seen by
the turns of the scan (`perm_elements`).

`elements_in_order` is what it comes to for a whole source: in which order the elements are, and
when this is the order in which their tags start.
-/

namespace DesignCompiler.Markup

open Text (isNameChar)

/-! ## Places of elements -/

/-- An element with the places of its opening tag: that of its less-than sign, and that behind its
greater-than sign. -/
structure Placed where
  element : Element
  start : Cursor
  opened : Cursor

namespace Placed

/-- There is an opening tag between the two places, with the tag of the element and on its
line. -/
structure IsTag (p : Placed) : Prop where
  sign : p.start.rest.head? = some '<'
  tag : p.element.tag = p.start.next.tagName
  line : p.element.line = p.start.line
  ahead : p.start.Ahead p.opened
  closing : p.opened.before.head? = some '>'

/-- The opening tag ends before the other one starts. -/
def Before (p q : Placed) : Prop :=
  p.opened.Leads q.start

/-- The opening tag stands inside the other one, in an attribute value of it. -/
def Within (p q : Placed) : Prop :=
  q.start.Ahead p.start ∧ p.opened.Ahead q.opened

section Relations

variable {p q : Placed}

/-- The opening tag of an element ends before that of an element that is listed later. -/
theorem ahead_opened (hq : q.IsTag) (h : p.Before q ∨ p.Within q) : p.opened.Ahead q.opened := by
  rcases h with hbefore | hwithin
  · exact Cursor.Leads.trans_ahead hbefore hq.ahead
  · exact hwithin.2

theorem Before.ahead_start (hp : p.IsTag) (h : p.Before q) : p.start.Ahead q.start :=
  hp.ahead.trans_leads h

theorem Before.line_le (hp : p.IsTag) (hq : q.IsTag) (h : p.Before q) :
    p.element.line ≤ q.element.line := by
  rw [hp.line, hq.line]
  exact (h.ahead_start hp).leads.line_le

/-- An element in an attribute value is on the line of its owner or below it. -/
theorem Within.line_le (hp : p.IsTag) (hq : q.IsTag) (h : p.Within q) :
    q.element.line ≤ p.element.line := by
  rw [hp.line, hq.line]
  exact h.1.leads.line_le

end Relations

end Placed

/-- The elements have opening tags between the two places, each of them in front of the next ones
or inside them. -/
structure InOrder (c : Cursor) (places : List Placed) (d : Cursor) : Prop where
  leads : c.Leads d
  tags : ∀ p ∈ places, p.IsTag
  between : ∀ p ∈ places, c.Leads p.start ∧ p.opened.Leads d
  ordered : places.Pairwise fun p q => p.Before q ∨ p.Within q

/-- The elements can be placed between the two places. -/
def Listed (c : Cursor) (elements : List Element) (d : Cursor) : Prop :=
  ∃ places, elements = places.map (·.element) ∧ InOrder c places d

section Listed

variable {c d e : Cursor} {places later : List Placed} {elements elements' : List Element}

theorem InOrder.nil (h : c.Leads d) : InOrder c [] d :=
  ⟨h, List.forall_mem_nil _, List.forall_mem_nil _, .nil⟩

/-- The opening tags behind a place are in order behind those in front of it. -/
theorem InOrder.append (h : InOrder c places d) (h' : InOrder d later e) :
    InOrder c (places ++ later) e := by
  refine ⟨h.leads.trans h'.leads, List.forall_mem_append.2 ⟨h.tags, h'.tags⟩, ?_, ?_⟩
  · refine List.forall_mem_append.2 ⟨?_, ?_⟩
    · intro p hp
      obtain ⟨hstart, hopened⟩ := h.between p hp
      exact ⟨hstart, hopened.trans h'.leads⟩
    · intro p hp
      obtain ⟨hstart, hopened⟩ := h'.between p hp
      exact ⟨h.leads.trans hstart, hopened⟩
  · refine List.pairwise_append.2 ⟨h.ordered, h'.ordered, ?_⟩
    intro p hp q hq
    exact .inl ((h.between p hp).2.trans (h'.between q hq).1)

/-- The opening tag of an element is in order behind those in its attribute values. -/
theorem InOrder.element {own : Element} (hsign : c.rest.head? = some '<')
    (htag : own.tag = c.next.tagName) (hline : own.line = c.line)
    (hvalues : InOrder c.next places d) (hopened : d.Ahead e)
    (hclosing : e.before.head? = some '>') : InOrder c (places ++ [⟨own, c, e⟩]) e := by
  have hnext : c.Ahead c.next := Cursor.ahead_next (Cursor.rest_ne_nil_of_head? hsign)
  have hahead : c.Ahead e := (hnext.trans_leads hvalues.leads).trans_leads hopened.leads
  refine ⟨hahead.leads, ?_, ?_, ?_⟩
  · refine List.forall_mem_append.2 ⟨hvalues.tags, List.forall_mem_singleton.2 ?_⟩
    exact ⟨hsign, htag, hline, hahead, hclosing⟩
  · refine List.forall_mem_append.2 ⟨?_, List.forall_mem_singleton.2 ⟨.refl c, .refl e⟩⟩
    intro p hp
    obtain ⟨hstart, hend⟩ := hvalues.between p hp
    exact ⟨hnext.leads.trans hstart, hend.trans hopened.leads⟩
  · refine List.pairwise_append.2 ⟨hvalues.ordered, List.pairwise_singleton _ _, ?_⟩
    intro p hp q hq
    obtain rfl := List.mem_singleton.1 hq
    obtain ⟨hstart, hend⟩ := hvalues.between p hp
    exact .inr ⟨hnext.trans_leads hstart, hend.trans_ahead hopened⟩

theorem Listed.nil (h : c.Leads d) : Listed c [] d :=
  ⟨[], rfl, .nil h⟩

/-- What is found behind a place is listed behind what was found in front of it. -/
theorem Listed.append (h : Listed c elements d) (h' : Listed d elements' e) :
    Listed c (elements ++ elements') e := by
  obtain ⟨places, rfl, hplaces⟩ := h
  obtain ⟨places', rfl, hplaces'⟩ := h'
  exact ⟨places ++ places', List.map_append.symm, hplaces.append hplaces'⟩

theorem Listed.leads (h : c.Leads d) (h' : Listed d elements e) : Listed c elements e :=
  (Listed.nil h).append h'

/-- An element is listed behind those in its attribute values. -/
theorem Listed.element {own : Element} (hsign : c.rest.head? = some '<')
    (htag : own.tag = c.next.tagName) (hline : own.line = c.line)
    (hvalues : Listed c.next elements d) (hopened : d.Ahead e)
    (hclosing : e.before.head? = some '>') : Listed c (elements ++ [own]) e := by
  obtain ⟨places, rfl, hplaces⟩ := hvalues
  exact ⟨places ++ [⟨own, c, e⟩], by rw [List.map_append, List.map_singleton],
    .element hsign htag hline hplaces hopened hclosing⟩

end Listed

/-! ## Scans -/

/-- If the scan succeeds, then what it finds is listed between the given place and the one where
it ends. -/
def ListsFrom {α : Type} {bound : Nat} (c : Cursor) (result : Except Anomaly (Scanned α bound)) :
    Prop :=
  ∀ found, result = .ok found → Listed c found.findings.elements found.stop

/-- The scanner lists the elements that it finds at less-than signs. -/
def ListsElements (element : ElementScanner) : Prop :=
  ∀ stack c, c.rest.head? = some '<' → ListsFrom c (element stack c)

/-- What two parts of a scan list is listed by the scan. -/
theorem isWay_listed : IsWay fun c found d => Listed c found.elements d where
  quiet := Listed.nil
  stray _ := Listed.nil ((Cursor.leads_closingEnd _).trans (Cursor.leads_next _))
  append := Listed.append

/-- An element is listed behind the elements in its attribute values and in front of those between
its tags. -/
theorem listsElements_scanElementWith {element : ElementScanner}
    (helement : ListsElements element) :
    ListsElements (scanElementWith element) := by
  intro stack c hsign found hfound
  obtain ⟨hname, attributes, hscan, hcases⟩ := scanElementWith_cases hfound
  have hvalues : Listed c.next attributes.findings.elements attributes.stop :=
    (along_scanAttributes isWay_listed (helement stack) c.line _ hname attributes hscan).leads
      (Cursor.leads_skipTagName c.next)
  rcases hcases with ⟨rest, hself, hstop, hfindings⟩ |
    ⟨rest, inside, later, hopen, hinside, hfindings⟩
  · obtain ⟨hlast, hclosing⟩ := ahead_selfClosingEnd hself
    rw [hfindings, hstop]
    exact Listed.element hsign rfl rfl hvalues hlast hclosing
  · obtain ⟨hlast, hclosing⟩ := ahead_openingEnd hopen
    have hown : Listed c (attributes.findings.elements ++
        [(Element.bare c.next.tagName attributes.value c.line stack false).filled inside])
        attributes.stop.next :=
      Listed.element hsign rfl rfl hvalues hlast hclosing
    have hchildren : Listed attributes.stop.next later.elements found.stop :=
      along_childrenScan isWay_listed (helement _) hinside
    rw [hfindings, Findings.elements_append, Findings.elements_missingClose, List.append_nil]
    exact hown.append hchildren

/-- Elements are listed, as deep as they may be nested. -/
theorem listsElements_scanElement (nesting : Nat) : ListsElements (scanElement nesting) := by
  induction nesting with
  | zero =>
    rintro stack c - found ⟨⟩
  | succ nesting ih => exact listsElements_scanElementWith ih

/-! ## Whole sources -/

section Sources

variable {places : List Placed} {c d : Cursor} {text : String} {s : Structure}

/-- The structure of a source is what the scan of its text finds, with the imports and
declarations of the text. -/
theorem exists_scan_eq (h : Structure.ofText text = .ok s) :
    ∃ found, scanScript (scanElement maxNesting) [] .source text.toList.length 0
      (.start text.toList) (Nat.le_refl _) =
      .ok found ∧ s =
        { imports := importsOf text.toList, declarations := declarationsOf text.toList
          elements := found.findings.elements,
          unexpectedClosings := found.findings.unexpectedClosings
          unclosed := found.findings.unclosed, lineCount := Text.lineCount text.toList } := by
  unfold Structure.ofText at h
  simp only at h
  split at h
  · cases h
  · unfold scanSource at h
    cases hscan : scanScript (scanElement maxNesting) [] .source text.toList.length 0
        (.start text.toList) (Nat.le_refl _) with
    | error reason =>
      rw [hscan] at h
      cases h
    | ok found =>
      rw [hscan] at h
      cases h
      exact ⟨found, rfl, rfl⟩

/-- The elements of a source and those that are not closed are what the scan of its text finds. -/
theorem exists_scan (h : Structure.ofText text = .ok s) :
    ∃ found, scanScript (scanElement maxNesting) [] .source text.toList.length 0
      (.start text.toList) (Nat.le_refl _) =
      .ok found ∧ s.elements = found.findings.elements ∧
      s.unclosed = found.findings.unclosed := by
  obtain ⟨found, hscan, rfl⟩ := exists_scan_eq h
  exact ⟨found, hscan, rfl, rfl⟩

/-- The elements of a source are listed between its start and the place where the scan ends. -/
theorem listed_elements (h : Structure.ofText text = .ok s) :
    ∃ stop, Listed (.start text.toList) s.elements stop := by
  obtain ⟨found, hscan, helements, -⟩ := exists_scan h
  rw [helements]
  exact ⟨found.stop,
    along_scanScript isWay_listed (listsElements_scanElement maxNesting []) .source _ 0 _ found
      hscan⟩

/-- The elements of a source are those that were started on the way of the scan. -/
theorem perm_elements (h : Structure.ofText text = .ok s) :
    (s.elements.map Element.mark).Perm
      (((Reading.start text.toList).openings maxNesting).map Cursor.mark) := by
  obtain ⟨found, hscan, helements, -⟩ := exists_scan h
  have hrun : (Reading.start text.toList).run maxNesting = .ok found.findings := by
    rw [run_start, hscan]
    rfl
  rw [helements]
  exact Reading.perm_run hrun

/-- What is so for tags one after the other is so in the order of the list if it is so for tags
inside others. -/
theorem InOrder.pairwise_iff (h : InOrder c places d) {R : Placed → Placed → Prop}
    (hbefore : ∀ p ∈ places, ∀ q ∈ places, p.Before q → R p q) :
    places.Pairwise R ↔ ∀ p ∈ places, ∀ q ∈ places, p.Within q → R p q := by
  constructor
  · intro hpairs p hp q hq hwithin
    obtain ⟨i, hi, rfl⟩ := List.getElem_of_mem hp
    obtain ⟨j, hj, rfl⟩ := List.getElem_of_mem hq
    rcases Nat.lt_trichotomy i j with hlt | rfl | hgt
    · exact List.pairwise_iff_getElem.1 hpairs i j hi hj hlt
    · exact absurd hwithin.1.lt (Nat.lt_irrefl _)
    · have hahead :=
        Placed.ahead_opened (h.tags _ hp) (List.pairwise_iff_getElem.1 h.ordered j i hj hi hgt)
      exact absurd hwithin.2.lt (Nat.lt_asymm hahead.lt)
  · intro hwithin
    refine h.ordered.imp_of_mem ?_
    intro p q hp hq hpq
    rcases hpq with hpq | hpq
    · exact hbefore p hp q hq hpq
    · exact hwithin p hp q hq hpq

/-- **The order of the elements**, for every source that is taken apart.

The elements are those that the scan starts on its way through the source, each once, with their
tags and lines. Each has its opening tag in the source. Of two elements, the opening tag of the
one that is listed first stands in front of the other one or inside it, so the list is in the
order in which opening tags end. It is the order in which they start if and only if no element
stands in an attribute value of another, and the lines ascend if and only if every such element is
on the line where its owner starts. -/
theorem elements_in_order (h : Structure.ofText text = .ok s) :
    ((Reading.start text.toList).openings maxNesting).Pairwise Cursor.Ahead ∧
    (s.elements.map Element.mark).Perm
      (((Reading.start text.toList).openings maxNesting).map Cursor.mark) ∧
    ∃ places : List Placed, s.elements = places.map (·.element) ∧
      (∀ p ∈ places, p.IsTag ∧ (Cursor.start text.toList).Leads p.start) ∧
      places.Pairwise (fun p q => p.Before q ∨ p.Within q) ∧
      places.Pairwise (fun p q => p.opened.Ahead q.opened) ∧
      (places.Pairwise (fun p q => p.start.Ahead q.start) ↔
        ∀ p ∈ places, ∀ q ∈ places, ¬ p.Within q) ∧
      ((s.elements.map (·.line)).Pairwise (· ≤ ·) ↔
        ∀ p ∈ places, ∀ q ∈ places, p.Within q → p.element.line = q.element.line) := by
  obtain ⟨stop, places, helements, hinOrder⟩ := listed_elements h
  refine ⟨(Reading.pairwise_openings maxNesting _).2, perm_elements h, places, helements, ?_,
    hinOrder.ordered, ?_, ?_, ?_⟩
  · intro p hp
    exact ⟨hinOrder.tags p hp, (hinOrder.between p hp).1⟩
  · refine hinOrder.ordered.imp_of_mem ?_
    intro p q _ hq hpq
    exact Placed.ahead_opened (hinOrder.tags q hq) hpq
  · rw [hinOrder.pairwise_iff fun p hp q _ hpq => hpq.ahead_start (hinOrder.tags p hp)]
    refine forall₄_congr fun p _ q _ => ?_
    constructor
    · intro hstart hwithin
      exact Nat.lt_asymm hwithin.1.lt (hstart hwithin).lt
    · intro hnone hwithin
      exact absurd hwithin hnone
  · rw [helements, List.map_map, List.pairwise_map]
    refine (hinOrder.pairwise_iff
      fun p hp q hq hpq => hpq.line_le (hinOrder.tags p hp) (hinOrder.tags q hq)).trans ?_
    refine forall₄_congr fun p hp q hq => forall_congr' fun hwithin => ?_
    have hline := hwithin.line_le (hinOrder.tags p hp) (hinOrder.tags q hq)
    exact ⟨fun hle => Nat.le_antisymm hle hline, Nat.le_of_eq⟩

/-- A card whose title is an element on the next line. -/
def titledCard : String :=
  "const A = () => (<Card title=\x7b\n<b/>\x7d />);"

theorem ofText_titledCard :
    ∃ s, Structure.ofText titledCard = .ok s ∧ s.elements.map (·.tag) = ["b", "Card"] ∧
      s.elements.map (·.line) = [2, 1] := by
  have hscan : ((Structure.ofText titledCard).toOption.map fun s =>
      (s.elements.map (·.tag), s.elements.map (·.line))) = some (["b", "Card"], [2, 1]) := by
    decide +kernel
  cases hs : Structure.ofText titledCard with
  | error reason =>
    rw [hs] at hscan
    cases hscan
  | ok s =>
    rw [hs] at hscan
    obtain ⟨htags, hlines⟩ := Prod.mk.inj (Option.some.inj hscan)
    exact ⟨s, rfl, htags, hlines⟩

/-- The lines of that source do not ascend, so one of its elements stands in an attribute value on
another line. -/
theorem elements_in_order_titledCard :
    ∃ (s : Structure) (places : List Placed), Structure.ofText titledCard = .ok s ∧
      s.elements = places.map (·.element) ∧
      ∃ p ∈ places, ∃ q ∈ places, p.Within q ∧ p.element.line ≠ q.element.line := by
  obtain ⟨s, hs, -, hlines⟩ := ofText_titledCard
  obtain ⟨-, -, places, helements, -, -, -, -, hascend⟩ := elements_in_order hs
  refine ⟨s, places, hs, helements, Classical.byContradiction fun hnone => ?_⟩
  have hsorted : (s.elements.map (·.line)).Pairwise (· ≤ ·) := by
    apply hascend.2
    intro p hp q hq hwithin
    exact Decidable.byContradiction fun hline => hnone ⟨p, hp, q, hq, hwithin, hline⟩
  rw [hlines] at hsorted
  exact absurd hsorted (by decide)

/-- The title is listed in front of the card, which starts on the line above. -/
theorem elements_out_of_order :
    ∃ s, Structure.ofText titledCard = .ok s ∧ s.elements.map (·.tag) = ["b", "Card"] ∧
      ¬ (s.elements.map (·.line)).Pairwise (· ≤ ·) := by
  obtain ⟨s, hs, htags, hlines⟩ := ofText_titledCard
  refine ⟨s, hs, htags, ?_⟩
  rw [hlines]
  decide

end Sources

end DesignCompiler.Markup
