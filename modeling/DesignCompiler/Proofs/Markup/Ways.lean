import DesignCompiler.Proofs.Markup.Scanning

/-!
# The way of a scan

What the scans that succeed have in common. The findings of a loop are those of its elements and
the closing tags that it passes over, one after the other, so a relation between places and the
findings between them that is kept when findings are put together (`IsWay`) holds for every loop
once it holds for the elements (`along_scanScript`, `along_scanAttributes`, `along_scanChildren`).
Which relation this is, and what the elements make of it, is for the caller to say: an element
puts itself between what its attributes and its children found (`scanElementWith_cases`).

A scan of children is taken apart into its steps once (`ChildrenScan`).
-/

namespace DesignCompiler.Markup

open Text (isNameChar)

/-! ## Relations that loops keep -/

/-- A relation between two places and what is found between them that the loops of a scan keep. -/
structure IsWay (R : Cursor → Findings → Cursor → Prop) : Prop where
  quiet : ∀ {c d : Cursor}, c.Leads d → R c .none d
  stray : ∀ {c : Cursor}, "</".toList <+: c.rest →
    R c (.unexpectedClosing c.closingName c.line) c.closingEnd.next
  append : ∀ {c d e : Cursor} {found later : Findings}, R c found d → R d later e →
    R c (found ++ later) e

/-- If the scan succeeds, then the relation holds for the given place, its findings and the place
where it ends. -/
def Along {α : Type} {bound : Nat} (R : Cursor → Findings → Cursor → Prop) (c : Cursor)
    (result : Except Anomaly (Scanned α bound)) : Prop :=
  ∀ found, result = .ok found → R c found.findings found.stop

section Along

variable {α β : Type} {bound : Nat} {R : Cursor → Findings → Cursor → Prop} {c d stop : Cursor}
  {result : Except Anomaly (Scanned α bound)} {value : α} {findings : Findings}

theorem IsWay.leads (hR : IsWay R) (h : c.Leads d) (hlater : R d findings stop) :
    R c findings stop := by
  have := hR.append (hR.quiet h) hlater
  rwa [Findings.none_append] at this

theorem Along.error (R : Cursor → Findings → Cursor → Prop) (c : Cursor) (reason : Anomaly) :
    Along R c (.error reason : Except Anomaly (Scanned α bound)) := by
  rintro found ⟨⟩

theorem Along.of_yields (h : Yields result value findings stop) (hfindings : R c findings stop) :
    Along R c result := by
  obtain ⟨_, rfl⟩ := h
  rintro found ⟨⟩
  exact hfindings

theorem Along.quiet (hR : IsWay R) (h : c.Leads stop) (value : α)
    (within : stop.rest.length ≤ bound) :
    Along R c (.ok (.quiet value stop within)) :=
  .of_yields ⟨within, rfl⟩ (hR.quiet h)

theorem Along.leads (hR : IsWay R) (h : c.Leads d) (hlater : Along R d result) :
    Along R c result :=
  fun found hfound => hR.leads h (hlater found hfound)

/-- A scan behind earlier findings. -/
theorem Along.after (hR : IsWay R) (hearlier : R c findings d) (hlater : Along R d result)
    (f : α → β) :
    Along R c (result.map (Scanned.after findings f)) := by
  cases result with
  | error reason => exact .error R c reason
  | ok later =>
    rintro found ⟨⟩
    exact hR.append hearlier (hlater later rfl)

/-- A scan behind earlier findings succeeds if it does without them. -/
theorem exists_of_map_after {f : α → β} {found : Scanned β bound}
    (h : result.map (Scanned.after findings f) = .ok found) :
    ∃ later, result = .ok later ∧ found = later.after findings f := by
  cases result with
  | error reason => cases h
  | ok later =>
    cases h
    exact ⟨later, rfl, rfl⟩

end Along

/-! ## Script text, expressions and attributes -/

section Loops

variable {element : ElementScanner} {stack : List String} {R : Cursor → Findings → Cursor → Prop}
  {tag : String} {bound : Nat}

theorem along_scanScript (hR : IsWay R)
    (helement : ∀ c, c.rest.head? = some '<' → Along R c (element stack c))
    (extent : Extent) (c : Cursor) (depth : Nat) (hc : c.rest.length ≤ bound) :
    Along R c (scanScript element stack extent bound depth c hc) := by
  induction hlength : c.rest.length using Nat.strongRecOn generalizing c depth with
  | ind m ih =>
    subst hlength
    have hleads (stop : Cursor) (h : c.step.stop? = some stop) : c.Leads stop := leads_step h
    cases hstep : c.step with
    | atEnd =>
      rw [scanScript.eq_def, hstep]
      cases extent with
      | source => exact .quiet hR (.refl c) () hc
      | expression line => exact .error R c _
    | pass stop h =>
      rw [scanScript.eq_def, hstep]
      exact (ih _ h stop depth _ rfl).leads hR (hleads stop (by rw [hstep]; rfl))
    | openBrace stop h =>
      rw [scanScript.eq_def, hstep]
      exact (ih _ h stop (depth + 1) _ rfl).leads hR (hleads stop (by rw [hstep]; rfl))
    | closeBrace stop h =>
      rw [scanScript.eq_def, hstep]
      have hstop : c.Leads stop := hleads stop (by rw [hstep]; rfl)
      cases depth with
      | succ depth => exact (ih _ h stop depth _ rfl).leads hR hstop
      | zero =>
        cases extent with
        | source => exact .error R c _
        | expression line => exact .quiet hR hstop () _
    | broken reason =>
      rw [scanScript.eq_def, hstep]
      exact .error R c reason
    | element =>
      have hrest := rest_ne_nil_of_step hstep
      cases hcall : element stack c with
      | error reason =>
        rw [scanScript_element_error hstep hrest hcall hc]
        exact .error R c reason
      | ok inner =>
        obtain ⟨hstop, hscan⟩ :=
          scanScript_element extent depth hstep hrest ⟨inner.within, hcall⟩ hc
        rw [hscan]
        have hlater := ih _ (inner.lt_of_ne_nil hrest) inner.stop depth hstop rfl
        exact .after hR (helement c (head?_of_step hstep) inner hcall) hlater id

theorem along_scanExpression (hR : IsWay R)
    (helement : ∀ c, c.rest.head? = some '<' → Along R c (element stack c))
    (tag name : String) (line : Nat) (c : Cursor) :
    Along R c (scanExpression element stack tag name line c) := by
  unfold scanExpression
  split
  · exact .error R c _
  · exact .error R c _
  · rename_i found hscan
    rintro _ ⟨⟩
    exact along_scanScript hR helement _ c 0 _ found hscan

/-- A value in quotes holds no elements, a value in braces those of its expression. -/
theorem along_scanValue (hR : IsWay R)
    (helement : ∀ c, c.rest.head? = some '<' → Along R c (element stack c))
    (tag name : String) (line : Nat) (c : Cursor) :
    Along R c (scanValue element stack tag name line c) := by
  by_cases hnil : c.rest = []
  · rw [scanValue_of_head? element stack (by simp [hnil])]
    exact .error R c _
  · obtain ⟨ch, rest, hrest⟩ := List.exists_cons_of_ne_nil hnil
    by_cases hquote : ch = '"' ∨ ch = '\x27'
    · cases hend : Cursor.quotedEnd? ch (ch :: c.before) c.line rest with
      | none =>
        rw [scanValue_of_quotedEnd?_none element stack hquote hrest hend]
        exact .error R c _
      | some found =>
        obtain ⟨text, stop⟩ := found
        have hstop : c.Ahead stop := Cursor.ahead_of_quotedEnd? hquote hrest hend
        exact .of_yields (yields_scanValue_of_quotedEnd? element stack hquote hrest hend tag
          name line)
          (hR.quiet hstop.leads)
    · by_cases hbrace : ch = '\x7b'
      · subst hbrace
        cases hscan : scanExpression element stack tag name line c.next with
        | error reason =>
          rw [scanValue_of_scanExpression_error hrest hscan]
          exact .error R c reason
        | ok found =>
          have hfound := along_scanExpression hR helement tag name line c.next found hscan
          exact .of_yields (yields_scanValue_of_scanExpression hrest ⟨found.within, hscan⟩)
            (hR.leads (Cursor.leads_next c) hfound)
      · have hother : ∀ ch' ∈ c.rest.head?, ¬(ch' = '"' ∨ ch' = '\x27') ∧ ch' ≠ '\x7b' := by
          intro ch' hch'
          rw [hrest] at hch'
          cases hch'
          exact ⟨hquote, hbrace⟩
        rw [scanValue_of_head? element stack hother]
        exact .error R c _

theorem along_scanNamed (hR : IsWay R)
    (helement : ∀ c, c.rest.head? = some '<' → Along R c (element stack c))
    (tag name : String) (line : Nat) (c : Cursor) :
    Along R c (scanNamed element stack tag name line c) := by
  by_cases hequals : c.skipBlanks.rest.head? = some '='
  · have hleads : c.Leads c.skipBlanks.next.skipBlanks :=
      (Cursor.leads_skipBlanks c).trans ((Cursor.leads_next _).trans (Cursor.leads_skipBlanks _))
    cases hscan : scanValue element stack tag name line c.skipBlanks.next.skipBlanks with
    | error reason =>
      unfold scanNamed
      rw [if_pos hequals, hscan]
      exact .error R c reason
    | ok found =>
      have hfound := along_scanValue hR helement tag name line _ found hscan
      exact .of_yields (yields_scanNamed_value hequals ⟨found.within, hscan⟩)
        (hR.leads hleads hfound)
  · exact .of_yields (yields_scanNamed_flag hequals tag name line)
      (hR.quiet (Cursor.leads_skipBlanks c))

theorem along_scanAttributes (hR : IsWay R)
    (helement : ∀ c, c.rest.head? = some '<' → Along R c (element stack c))
    (tagLine : Nat) (c : Cursor) (hc : c.rest.length ≤ bound) :
    Along R c (scanAttributes element stack tag tagLine bound c hc) := by
  induction hlength : c.rest.length using Nat.strongRecOn generalizing c with
  | ind m ih =>
    subst hlength
    have hblanks : c.Leads c.skipBlanks := Cursor.leads_skipBlanks c
    cases hrest : c.skipBlanks.rest with
    | nil =>
      rw [scanAttributes_atEnd hrest]
      exact .error R c _
    | cons ch rest =>
      rw [scanAttributes_cons rfl hrest]
      split
      · exact .quiet hR hblanks [] _
      · split
        · cases hscan : scanExpression element stack tag Attribute.spreadName c.skipBlanks.line
            c.skipBlanks.next with
          | error reason => exact .error R c reason
          | ok found =>
            have hfound :=
              along_scanExpression hR helement tag Attribute.spreadName _ _ found hscan
            have hstop : found.stop.rest.length < c.rest.length :=
              Nat.lt_of_lt_of_le (Cursor.lt_of_le_next hrest found.within)
                (Cursor.skipBlanks_le c)
            exact .after hR (hR.leads (hblanks.trans (Cursor.leads_next _)) hfound)
              (ih _ hstop found.stop _ rfl) _
        · split
          · rename_i hname
            cases hscan : scanNamed element stack tag c.skipBlanks.tagName c.skipBlanks.line
                c.skipBlanks.skipTagName with
            | error reason => exact .error R c reason
            | ok found =>
              have hfound := along_scanNamed hR helement tag c.skipBlanks.tagName _ _ found hscan
              have hstop : found.stop.rest.length < c.rest.length :=
                Nat.lt_of_lt_of_le (Nat.lt_of_le_of_lt found.within
                  (Cursor.skipWhile_lt hrest (isTagChar_of_isNameChar hname)))
                  (Cursor.skipBlanks_le c)
              exact .after hR (hR.leads (hblanks.trans (Cursor.leads_skipTagName _)) hfound)
                (ih _ hstop found.stop _ rfl) _
          · exact .error R c _

end Loops

/-! ## Children -/

/-- A scan of children that succeeds, step by step: it ends, it passes over a closing tag of no
open element, over an element, over an expression or over a run of text. -/
inductive ChildrenScan (element : ElementScanner) (stack : List String) (tag : String) :
    Cursor → Inside → Findings → Cursor → Prop where
  | stop {c d : Cursor} (closed : Bool) (hleads : c.Leads d) :
    ChildrenScan element stack tag c ⟨closed, [], false, false⟩ .none d
  | stray {c d : Cursor} {inside : Inside} {later : Findings} (hsign : "</".toList <+: c.rest)
    (hlater : ChildrenScan element stack tag c.closingEnd.next inside later d) :
    ChildrenScan element stack tag c inside (.unexpectedClosing c.closingName c.line ++ later) d
  | element {c d : Cursor} {inside : Inside} {later : Findings}
    (found : Scanned Unit c.rest.tail.length) (hsign : c.rest.head? = some '<')
    (hscan : element stack c = .ok found)
    (hlater : ChildrenScan element stack tag found.stop inside later d) :
    ChildrenScan element stack tag c { inside with hasElement := true }
      (found.findings ++ later) d
  | expression {c d : Cursor} {inside : Inside} {later : Findings}
    (found : Scanned (List Char) c.next.rest.length)
    (hscan : scanExpression element stack tag "children" c.line c.next = .ok found)
    (hlater : ChildrenScan element stack tag found.stop inside later d) :
    ChildrenScan element stack tag c
      { inside with hasExpression := showsSomething found.value || inside.hasExpression }
      (found.findings ++ later) d
  | text {c d : Cursor} {inside : Inside} {later : Findings}
    (hlater : ChildrenScan element stack tag (c.skipWhile isPlain) inside later d) :
    ChildrenScan element stack tag c
      { inside with text := c.rest.takeWhile isPlain ++ inside.text } later d

section Children

variable {element : ElementScanner} {stack : List String} {tag : String} {bound : Nat}
  {c d : Cursor} {R : Cursor → Findings → Cursor → Prop} {inside : Inside} {findings : Findings}

theorem childrenScan_of_eq_ok (hc : c.rest.length ≤ bound) {found : Scanned Inside bound}
    (h : scanChildren element stack tag bound c hc = .ok found) :
    ChildrenScan element stack tag c found.value found.findings found.stop := by
  induction hlength : c.rest.length using Nat.strongRecOn generalizing c found with
  | ind m ih =>
    subst hlength
    cases hrest : c.rest with
    | nil =>
      obtain ⟨_, hend⟩ : Yields (scanChildren element stack tag bound c hc)
        ⟨false, [], false, false⟩ .none c :=
        scanChildren_atEnd hrest hc
      cases hend.symm.trans h
      exact .stop false (.refl c)
    | cons ch rest =>
      rw [scanChildren_cons hrest] at h
      split at h
      · rename_i hsign
        subst hsign
        split at h
        · rename_i hslash
          split at h
          · rename_i hend
            obtain ⟨tail, htail⟩ := List.head?_eq_some_iff.1 hend
            split at h
            · cases h
              exact .stop true ((Cursor.leads_closingEnd c).trans (Cursor.leads_next _))
            · split at h
              · cases h
                exact .stop false (.refl c)
              · obtain ⟨later, hlater, rfl⟩ := exists_of_map_after h
                obtain ⟨behind, rfl⟩ := List.head?_eq_some_iff.1 hslash
                exact .stray ⟨behind, hrest.symm⟩
                  (ih _ (Cursor.closingEnd_next_lt htail) _ hlater rfl)
          · cases h
        · split at h
          · cases h
          · rename_i inner hscan
            obtain ⟨later, hlater, rfl⟩ := exists_of_map_after h
            have hne : c.rest ≠ [] := hrest ▸ List.cons_ne_nil _ rest
            exact .element inner (by rw [hrest]; rfl) hscan
              (ih _ (inner.lt_of_ne_nil hne) _ hlater rfl)
      · split at h
        · split at h
          · cases h
          · rename_i inner hscan
            obtain ⟨later, hlater, rfl⟩ := exists_of_map_after h
            exact .expression inner hscan
              (ih _ (Cursor.lt_of_le_next hrest inner.within) _ hlater rfl)
        · rename_i hsign hbrace
          obtain ⟨later, hlater, rfl⟩ := exists_of_map_after h
          exact .text (ih _ (Cursor.skipWhile_lt hrest (isPlain_of_ne hsign hbrace)) _ hlater rfl)

theorem along_childrenScan (hR : IsWay R)
    (helement : ∀ c, c.rest.head? = some '<' → Along R c (element stack c))
    (h : ChildrenScan element stack tag c inside findings d) : R c findings d := by
  induction h with
  | stop closed hleads => exact hR.quiet hleads
  | @stray c d inside later hsign hlater ih => exact hR.append (hR.stray hsign) ih
  | @element c d inside later found hsign hscan hlater ih =>
    exact hR.append (helement c hsign found hscan) ih
  | @expression c d inside later found hscan hlater ih =>
    have hfound := along_scanExpression hR helement tag "children" _ _ found hscan
    exact hR.append (hR.leads (Cursor.leads_next c) hfound) ih
  | @text c d inside later hlater ih => exact hR.leads (Cursor.leads_skipWhile isPlain c) ih

/-- Children among which there is an element have its findings among theirs. -/
theorem ChildrenScan.exists_element (h : ChildrenScan element stack tag c inside findings d)
    (hinside : inside.hasElement = true) :
    ∃ (child : Cursor) (found : Scanned Unit child.rest.tail.length) (earlier later : Findings),
      child.rest.head? = some '<' ∧ element stack child = .ok found ∧
      findings = earlier ++ found.findings ++ later := by
  induction h with
  | stop closed hleads => cases hinside
  | @stray c d inside later hsign hlater ih =>
    obtain ⟨child, found, earlier, later, hsign, hscan, rfl⟩ := ih hinside
    exact ⟨child, found, .unexpectedClosing c.closingName c.line ++ earlier, later, hsign, hscan,
      by simp only [Findings.append_assoc]⟩
  | element found hsign hscan hlater ih => exact ⟨_, found, .none, _, hsign, hscan, rfl⟩
  | expression outer hscan hlater ih =>
    obtain ⟨child, found, earlier, later, hsign, hscan, rfl⟩ := ih hinside
    exact ⟨child, found, outer.findings ++ earlier, later, hsign, hscan,
      by simp only [Findings.append_assoc]⟩
  | text hlater ih => exact ih hinside

end Children

/-! ## Elements -/

section Elements

variable {element : ElementScanner} {stack : List String} {c : Cursor}
  {found : Scanned Unit c.rest.tail.length}

/-- An opening tag ends behind its greater-than sign. -/
theorem ahead_openingEnd {c : Cursor} {rest : List Char} (h : c.rest = '>' :: rest) :
    c.Ahead c.next ∧ c.next.before.head? = some '>' :=
  ⟨Cursor.ahead_next (h ▸ List.cons_ne_nil _ _), by simp [Cursor.next, h]⟩

/-- A self-closing tag ends behind its greater-than sign as well. -/
theorem ahead_selfClosingEnd {c : Cursor} {rest : List Char} (h : c.rest = '/' :: '>' :: rest) :
    c.Ahead c.next.next ∧ c.next.next.before.head? = some '>' :=
  ⟨(Cursor.ahead_next (h ▸ List.cons_ne_nil _ _)).trans_leads (Cursor.leads_next _), by
    simp [Cursor.next, h]⟩

/-- An element that is scanned closes itself or has children. It stands behind what its attributes
found and in front of what its children found. -/
theorem scanElementWith_cases (h : scanElementWith element stack c = .ok found) :
    ∃ (hname : c.next.skipTagName.rest.length ≤ c.rest.tail.length)
      (attributes : Scanned (List Attribute) c.rest.tail.length),
      scanAttributes element stack c.next.tagName c.line c.rest.tail.length c.next.skipTagName
        hname = .ok attributes ∧
      ((∃ rest, attributes.stop.rest = '/' :: '>' :: rest ∧
          found.stop = attributes.stop.next.next ∧
          found.findings = attributes.findings ++
            .element (.bare c.next.tagName attributes.value c.line stack true)) ∨
        ∃ rest inside later, attributes.stop.rest = '>' :: rest ∧
          ChildrenScan element (stack ++ [c.next.tagName]) c.next.tagName attributes.stop.next
            inside later found.stop ∧
          found.findings = attributes.findings ++
            .element ((Element.bare c.next.tagName attributes.value c.line stack false).filled
              inside) ++ later ++
            .missingClose inside c.next.tagName c.line) := by
  have hname := c.skipTagName_next_le
  refine ⟨hname, ?_⟩
  cases hscan : scanAttributes element stack c.next.tagName c.line c.rest.tail.length
    c.next.skipTagName hname with
  | error reason =>
    rw [scanElementWith_attributes_error fun _ => hscan] at h
    cases h
  | ok attributes =>
    have hyields :
        ∀ h, Yields (scanAttributes element stack c.next.tagName c.line c.rest.tail.length
          c.next.skipTagName h) attributes.value attributes.findings attributes.stop :=
      fun _ => ⟨attributes.within, hscan⟩
    refine ⟨attributes, rfl, ?_⟩
    by_cases hend :
      (attributes.stop.skipSlash (attributes.stop.rest.head? == some '/')).rest.head? = some '>'
    · obtain ⟨rest, hself⟩ | ⟨rest, hopen⟩ := head?_skipSlash_iff.1 hend
      · obtain ⟨_, hfound⟩ := yields_scanElementWith_selfClosing hyields hself
        cases hfound.symm.trans h
        exact .inl ⟨rest, hself, rfl, rfl⟩
      · have hnext : attributes.stop.next.rest.length ≤ c.rest.tail.length :=
          Nat.le_trans (Cursor.next_le attributes.stop) attributes.within
        cases hinside : scanChildren element (stack ++ [c.next.tagName]) c.next.tagName
            c.rest.tail.length attributes.stop.next hnext with
        | error reason =>
          rw [scanElementWith_open_error hyields hopen fun _ => hinside] at h
          cases h
        | ok inside =>
          obtain ⟨_, hfound⟩ :=
            yields_scanElementWith_open hyields hopen fun _ => ⟨inside.within, hinside⟩
          cases hfound.symm.trans h
          exact .inr ⟨rest, inside.value, inside.findings, hopen,
            childrenScan_of_eq_ok hnext hinside, rfl⟩
    · rw [scanElementWith_unterminated hyields hend] at h
      cases h

end Elements

end DesignCompiler.Markup
