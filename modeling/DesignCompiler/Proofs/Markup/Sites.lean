import DesignCompiler.Proofs.Markup.Order
import DesignCompiler.Proofs.Markup.Places
import Mathlib.Data.List.Forall2

/-!
# Where the parts of a source start

The places where a scan meets the attributes of an element and the closing tags of no open one
stand one behind the other (`StandsInRow`), the attributes of an element inside its opening tag.
`Sited` is the relation between two places and what is found between them that says so, and that
the opening tags are in order; the loops of a scan keep it (`isWay_sited`), and so do the elements
(`sited_scanElement`).
-/

namespace DesignCompiler.Markup

open Text (isNameChar)

/-! ## Places in a row -/

/-- The places stand between two places, one behind the other. -/
structure Cursor.InRow (c : Cursor) (places : List Cursor) (d : Cursor) : Prop where
  leads : c.Leads d
  between : ∀ p ∈ places, c.Leads p ∧ p.Ahead d
  ordered : places.Pairwise Cursor.Ahead

/-- The items start between two places, one behind the other. -/
def StandsInRow {α : Type} (StartsAt : Cursor → α → Prop) (c : Cursor) (items : List α)
    (d : Cursor) : Prop :=
  ∃ places, List.Forall₂ StartsAt places items ∧ c.InRow places d

section Rows

variable {α : Type} {StartsAt : Cursor → α → Prop} {c d e p : Cursor} {items later : List α}
  {item : α}

theorem StandsInRow.nil (h : c.Leads d) : StandsInRow StartsAt c [] d :=
  ⟨[], .nil, h, List.forall_mem_nil _, .nil⟩

theorem StandsInRow.singleton (h : StartsAt p item) (hahead : p.Ahead d) :
    StandsInRow StartsAt p [item] d :=
  ⟨[p], .cons h .nil, hahead.leads, List.forall_mem_singleton.2 ⟨.refl p, hahead⟩,
    List.pairwise_singleton _ p⟩

theorem StandsInRow.append (h : StandsInRow StartsAt c items d)
    (h' : StandsInRow StartsAt d later e) :
    StandsInRow StartsAt c (items ++ later) e := by
  obtain ⟨places, hitems, hplaces⟩ := h
  obtain ⟨places', hitems', hplaces'⟩ := h'
  refine ⟨places ++ places', List.rel_append hitems hitems', hplaces.leads.trans hplaces'.leads,
    ?_, ?_⟩
  · refine List.forall_mem_append.2 ⟨?_, ?_⟩
    · intro p hp
      obtain ⟨hstart, hend⟩ := hplaces.between p hp
      exact ⟨hstart, hend.trans_leads hplaces'.leads⟩
    · intro p hp
      obtain ⟨hstart, hend⟩ := hplaces'.between p hp
      exact ⟨hplaces.leads.trans hstart, hend⟩
  · refine List.pairwise_append.2 ⟨hplaces.ordered, hplaces'.ordered, ?_⟩
    intro p hp q hq
    exact (hplaces.between p hp).2.trans_leads (hplaces'.between q hq).1

theorem StandsInRow.leads (h : c.Leads d) (h' : StandsInRow StartsAt d items e) :
    StandsInRow StartsAt c items e :=
  (StandsInRow.nil h).append h'

theorem StandsInRow.trans_leads (h : StandsInRow StartsAt c items d) (h' : d.Leads e) :
    StandsInRow StartsAt c items e := by
  have hwhole := h.append (StandsInRow.nil h')
  rwa [List.append_nil] at hwhole

/-- Every item has its place. -/
theorem StandsInRow.exists_place (h : StandsInRow StartsAt c items d) (hitem : item ∈ items) :
    ∃ p, StartsAt p item ∧ c.Leads p ∧ p.Ahead d := by
  obtain ⟨places, hitems, -, hbetween, -⟩ := h
  induction hitems with
  | nil => cases hitem
  | cons hfirst hlater ih =>
    rcases List.mem_cons.1 hitem with rfl | hitem
    · exact ⟨_, hfirst, hbetween _ List.mem_cons_self⟩
    · exact ih hitem fun p hp => hbetween p (List.mem_cons_of_mem _ hp)

/-- Items in a row are paired with their places, in the order of these. -/
theorem standsInRow_iff :
    StandsInRow StartsAt c items d ↔ c.Leads d ∧ ∃ pairs : List (Cursor × α),
      pairs.map Prod.snd = items ∧
      (∀ x ∈ pairs, StartsAt x.1 x.2 ∧ c.Leads x.1 ∧ x.1.Ahead d) ∧
      pairs.Pairwise fun x y => x.1.Ahead y.1 := by
  constructor
  · rintro ⟨places, hitems, hleads, hbetween, hordered⟩
    obtain ⟨hlength, hat⟩ := List.forall₂_iff_zip.1 hitems
    refine ⟨hleads, places.zip items, List.map_snd_zip hlength.ge, fun x hx => ?_, ?_⟩
    · exact ⟨hat hx, hbetween x.1 (List.of_mem_zip hx).1⟩
    · rw [← List.map_fst_zip hlength.le, List.pairwise_map] at hordered
      exact hordered
  · rintro ⟨hleads, pairs, rfl, hat, hordered⟩
    refine ⟨pairs.map Prod.fst, ?_, hleads, ?_, List.pairwise_map.2 hordered⟩
    · rw [List.forall₂_map_left_iff, List.forall₂_map_right_iff, List.forall₂_same]
      exact fun x hx => (hat x hx).1
    · exact List.forall_mem_map.2 fun x hx => (hat x hx).2

end Rows

/-! ## Attributes -/

/-- The attribute starts at the place, on its line: with the name of the attribute, or with the
brace of a spread. -/
def Attribute.StartsAt (p : Cursor) (a : Attribute) : Prop :=
  a.line = p.line ∧ ((a.name = p.tagName ∧ ∃ ch ∈ p.rest.head?, isNameChar ch = true) ∨
    (a.name = Attribute.spreadName ∧ p.rest.head? = some '\x7b'))

/-- Scans lead on. -/
theorem isWay_leads : IsWay fun c _ d => c.Leads d where
  quiet := id
  stray _ := (Cursor.leads_closingEnd _).trans (Cursor.leads_next _)
  append := Cursor.Leads.trans

section Attributes

variable {element : ElementScanner} {stack : List String} {tag : String} {tagLine bound : Nat}
  {c : Cursor}

/-- The attributes of an opening tag start one behind the other. -/
theorem standsInRow_scanAttributes
    (helement : ∀ c, c.rest.head? = some '<' → Along (fun c _ d => c.Leads d) c (element stack c))
    (hc : c.rest.length ≤ bound) {found : Scanned (List Attribute) bound}
    (h : scanAttributes element stack tag tagLine bound c hc = .ok found) :
    StandsInRow Attribute.StartsAt c found.value found.stop := by
  induction hlength : c.rest.length using Nat.strongRecOn generalizing c found with
  | ind m ih =>
    subst hlength
    have hblanks : c.Leads c.skipBlanks := Cursor.leads_skipBlanks c
    cases hrest : c.skipBlanks.rest with
    | nil =>
      rw [scanAttributes_atEnd hrest] at h
      cases h
    | cons ch rest =>
      have hne : c.skipBlanks.rest ≠ [] := hrest ▸ List.cons_ne_nil ch rest
      have hbehind {stop : Cursor} {a : Attribute} {later : List Attribute} {last : Cursor}
          (ha : a.StartsAt c.skipBlanks) (hahead : c.skipBlanks.Ahead stop)
          (hlater : StandsInRow Attribute.StartsAt stop later last) :
          StandsInRow Attribute.StartsAt c (a :: later) last :=
        .leads hblanks ((StandsInRow.singleton ha hahead).append hlater)
      rw [scanAttributes_cons rfl hrest] at h
      split at h
      · cases h
        exact .nil hblanks
      · split at h
        · rename_i hbrace
          split at h
          · cases h
          · rename_i value hvalue
            obtain ⟨later, hlater, rfl⟩ := exists_of_map_after h
            have hend :=
              along_scanExpression isWay_leads helement tag Attribute.spreadName _ _ value hvalue
            have hahead : c.skipBlanks.Ahead value.stop :=
              (Cursor.ahead_next hne).trans_leads hend
            have hlt := Nat.lt_of_lt_of_le hahead.lt (Cursor.skipBlanks_le c)
            refine hbehind ⟨rfl, .inr ⟨rfl, ?_⟩⟩ hahead (ih _ hlt _ hlater rfl)
            rw [hrest, hbrace]
            rfl
        · split at h
          · rename_i hname
            split at h
            · cases h
            · rename_i value hvalue
              obtain ⟨later, hlater, rfl⟩ := exists_of_map_after h
              have hend :=
                along_scanNamed isWay_leads helement tag c.skipBlanks.tagName _ _ value hvalue
              have hlt : c.skipBlanks.skipTagName.rest.length < c.skipBlanks.rest.length :=
                Cursor.skipWhile_lt hrest (isTagChar_of_isNameChar hname)
              have hahead : c.skipBlanks.Ahead value.stop :=
                ((Cursor.leads_skipTagName _).ahead hlt).trans_leads hend
              have hlt := Nat.lt_of_lt_of_le hahead.lt (Cursor.skipBlanks_le c)
              exact hbehind ⟨rfl, .inl ⟨rfl, ch, by rw [hrest]; rfl, hname⟩⟩ hahead
                (ih _ hlt _ hlater rfl)
          · cases h

end Attributes

/-! ## Elements and closing tags -/

/-- The closing tag starts at the place. -/
def StartsClosing (p : Cursor) (closing : String × Nat) : Prop :=
  closing = (p.closingName, p.line) ∧ "</".toList <+: p.rest

/-- The attributes of the element start inside its opening tag. -/
def Placed.HasAttributes (p : Placed) : Prop :=
  StandsInRow Attribute.StartsAt p.start p.element.attributes p.opened

/-- What is found stands between the two places: the opening tags in order with their attributes
in them, and the closing tags of no open one, one behind the other. -/
structure Sited (c : Cursor) (found : Findings) (d : Cursor) : Prop where
  elements : ∃ places : List Placed, found.elements = places.map (·.element) ∧
    InOrder c places d ∧ ∀ p ∈ places, p.HasAttributes
  closings : StandsInRow StartsClosing c found.unexpectedClosings d

section Sited

variable {c d e : Cursor} {found later : Findings}

theorem ahead_closingEnd_next (hsign : "</".toList <+: c.rest) : c.Ahead c.closingEnd.next := by
  obtain ⟨behind, hrest⟩ := hsign
  have hne : c.rest ≠ [] := hrest ▸ List.cons_ne_nil _ _
  exact (Cursor.ahead_next hne).trans_leads
    ((Cursor.leads_next _).trans ((Cursor.leads_skipBlanks _).trans
      ((Cursor.leads_skipTagName _).trans
        ((Cursor.leads_skipBlanks _).trans (Cursor.leads_next _)))))

theorem Sited.quiet (h : c.Leads d) : Sited c .none d :=
  ⟨⟨[], rfl, .nil h, List.forall_mem_nil _⟩, .nil h⟩

theorem Sited.append (h : Sited c found d) (h' : Sited d later e) :
    Sited c (found ++ later) e := by
  obtain ⟨⟨places, helements, hplaces, hattributes⟩, hclosings⟩ := h
  obtain ⟨⟨places', helements', hplaces', hattributes'⟩, hclosings'⟩ := h'
  refine ⟨⟨places ++ places', ?_, hplaces.append hplaces',
    List.forall_mem_append.2 ⟨hattributes, hattributes'⟩⟩, hclosings.append hclosings'⟩
  rw [Findings.elements_append, helements, helements', List.map_append]

/-- What the parts of a scan find stands where the scan goes. -/
theorem isWay_sited : IsWay Sited where
  quiet := Sited.quiet
  stray hsign :=
    have hahead := ahead_closingEnd_next hsign
    ⟨⟨[], rfl, .nil hahead.leads, List.forall_mem_nil _⟩, .singleton ⟨rfl, hsign⟩ hahead⟩
  append := Sited.append

/-- An element stands where its opening tag does, with the elements in its attribute values inside
it. -/
theorem Sited.element {own : Element} {opened : Cursor} (hsign : c.rest.head? = some '<')
    (htag : own.tag = c.next.tagName) (hline : own.line = c.line) (hvalues : Sited c.next found d)
    (hattributes : StandsInRow Attribute.StartsAt c.next own.attributes d)
    (hopened : d.Ahead opened) (hclosing : opened.before.head? = some '>') :
    Sited c (found ++ .element own) opened := by
  obtain ⟨⟨places, helements, hplaces, hall⟩, hclosings⟩ := hvalues
  have hnext : c.Leads c.next := Cursor.leads_next c
  refine ⟨⟨places ++ [⟨own, c, opened⟩], ?_, .element hsign htag hline hplaces hopened hclosing,
    ?_⟩, ?_⟩
  · rw [Findings.elements_append, helements, List.map_append]
    rfl
  · exact List.forall_mem_append.2
      ⟨hall, List.forall_mem_singleton.2
        ((StandsInRow.leads hnext hattributes).trans_leads hopened.leads)⟩
  · rw [Findings.unexpectedClosings_append]
    exact (StandsInRow.leads hnext hclosings).append (StandsInRow.nil hopened.leads)

/-- A tag that is reported as not closed is no part of its own. -/
theorem Sited.missingClose (h : Sited c found d) (inside : Inside) (tag : String) (line : Nat) :
    Sited c (found ++ .missingClose inside tag line) d := by
  refine ⟨?_, ?_⟩
  · rw [Findings.elements_append, Findings.elements_missingClose, List.append_nil]
    exact h.elements
  · have hnone : (Findings.missingClose inside tag line).unexpectedClosings = [] := by
      unfold Findings.missingClose
      split <;> rfl
    rw [Findings.unexpectedClosings_append, hnone, List.append_nil]
    exact h.closings

/-- What an element finds stands between its start and its end, as deep as elements may be
nested. -/
theorem sited_scanElement (nesting : Nat) (stack : List String) (c : Cursor)
    (hsign : c.rest.head? = some '<') :
    Along Sited c (scanElement nesting stack c) := by
  induction nesting generalizing stack c with
  | zero => exact .error _ _ _
  | succ nesting ih =>
    intro found hfound
    obtain ⟨hname, attributes, hscan, hcases⟩ := scanElementWith_cases hfound
    have hleads : ∀ c, c.rest.head? = some '<' →
        Along (fun c _ d => c.Leads d) c (scanElement nesting stack c) :=
      fun c hsign inner hinner =>
        (ahead_scanElement (Cursor.rest_ne_nil_of_head? hsign) hinner).leads
    have hvalues : Sited c.next attributes.findings attributes.stop :=
      isWay_sited.leads (Cursor.leads_skipTagName _)
        (along_scanAttributes isWay_sited (ih stack) c.line _ hname attributes hscan)
    have hattributes : StandsInRow Attribute.StartsAt c.next attributes.value attributes.stop :=
      .leads (Cursor.leads_skipTagName _) (standsInRow_scanAttributes hleads hname hscan)
    rcases hcases with ⟨rest, hself, hstop, hfindings⟩ |
      ⟨rest, inside, later, hopen, hinside, hfindings⟩
    · obtain ⟨hlast, hclosing⟩ := ahead_selfClosingEnd hself
      rw [hfindings, hstop]
      exact .element hsign rfl rfl hvalues hattributes hlast hclosing
    · obtain ⟨hlast, hclosing⟩ := ahead_openingEnd hopen
      rw [hfindings]
      have hown : Sited c (attributes.findings ++
          .element ((Element.bare c.next.tagName attributes.value c.line stack false).filled
            inside))
          attributes.stop.next := .element hsign rfl rfl hvalues hattributes hlast hclosing
      exact (hown.append (along_childrenScan isWay_sited (ih _) hinside)).missingClose inside _ _

end Sited

/-- What is found in a source stands in it. -/
theorem sited_of_ofText {text : String} {s : Structure} (h : Structure.ofText text = .ok s) :
    ∃ found stop, Sited (.start text.toList) found stop ∧ s.elements = found.elements ∧
      s.unexpectedClosings = found.unexpectedClosings := by
  obtain ⟨found, hscan, rfl⟩ := exists_scan_eq h
  exact ⟨found.findings, found.stop,
    along_scanScript isWay_sited (sited_scanElement maxNesting []) .source _ 0 _ found hscan,
    rfl, rfl⟩

end DesignCompiler.Markup
