import DesignCompiler.Proofs.Markup.Pieces
import DesignCompiler.Proofs.Markup.Positions
import DesignCompiler.Proofs.Markup.Strays

/-!
# A missing closing tag

What is reported when one closing tag of tags that pair is left out. The element without its
closing tag stands open where it should have ended, and what stands behind it becomes its
children. What happens at the closing tag of the element around it depends on the names:

* If the names are different, the children end in front of the closing tag, the open element is
  reported, and the element around it is closed as it was before.
* If the names are the same, the closing tag closes the open element, and the element around it
  stands open instead.

So there is one open element at a time, always of the same name, until it is reported, and there
is nothing else to report (`Lies.scan`). The children of the open element are scanned one level
deeper than they were written, which is why one level less may be in use
(`ofText_withoutClosing`).
-/

namespace DesignCompiler.Markup

open Text (isAlphabetic isBlank newlines)

/-! ## Tags at places -/

section Tags

variable {element : ElementScanner} {stack : List String} {c d stop : Cursor} {t : String}

/-- The name of a tag without attributes, and the place where it ends. -/
theorem tag_of_rest (ht : IsTag t.toList) {ch : Char} (hch : ch = '>' ∨ ch = '/')
    {rest : List Char} (hc : c.rest = '<' :: (t.toList ++ ch :: rest)) :
    c.next.tagName = t ∧ c.next.skipTagName.skipBlanks.rest = ch :: rest ∧
      c.Leads c.next.skipTagName.skipBlanks := by
  have hrest : c.next.rest = t.toList ++ ch :: rest := by
    rw [Cursor.rest_next, hc, List.tail_cons]
  have hend : ∀ d ∈ (ch :: rest).head?, isTagChar d = false := by
    rintro d ⟨⟩
    rcases hch with rfl | rfl <;> decide
  have hblank : isBlank ch = false := by
    rcases hch with rfl | rfl <;> decide
  refine ⟨?_, ?_, ?_⟩
  · rw [tagName_of_rest ht.2 hrest hend, String.ofList_toList]
  · rw [Cursor.rest_skipBlanks, rest_skipTagName_of_rest ht.2 hrest hend, List.dropWhile_cons,
      hblank]
    rfl
  · exact (Cursor.leads_next c).trans
      ((Cursor.leads_skipTagName _).trans (Cursor.leads_skipBlanks _))

/-- The opening tag of an element without attributes, with its children behind it. -/
theorem yields_openedElement (ht : IsTag t.toList) (hd : c.Spans (TagEvent.text (.opening t)) d)
    {inside : Inside} {found : Findings}
    (hinside : ∀ bound h, Yields (scanChildren element (stack ++ [t]) t bound d h) inside found
      stop) :
    Yields (scanElementWith element stack c) ()
      (.element ((Element.bare t [] c.line stack false).filled inside) ++ found ++
        .missingClose inside t c.line)
      stop := by
  have hc : c.rest = '<' :: (t.toList ++ '>' :: d.rest) := by simp [hd.rest, TagEvent.text]
  obtain ⟨hname, hend, hleads⟩ := tag_of_rest ht (.inl rfl) hc
  have hspans : c.Spans (TagEvent.text (.opening t)) c.next.skipTagName.skipBlanks.next := by
    refine (hleads.trans (Cursor.leads_next _)).spans ?_
    rw [Cursor.rest_next, hend]
    exact hd.rest
  have hchildren :
      ∀ h,
        Yields (scanChildren element (stack ++ [c.next.tagName]) c.next.tagName c.rest.tail.length
          c.next.skipTagName.skipBlanks.next h) inside found stop := by
    rw [hname, hspans.unique hd]
    exact fun h => hinside _ h
  have helement :=
    yields_scanElementWith_open (fun h => yields_scanAttributes_end hend (.inl rfl) h) hend
      hchildren
  rw [hname] at helement
  exact helement

theorem yields_selfClosed (ht : IsTag t.toList)
    (hd : c.Spans (TagEvent.text (.selfClosing t)) d) :
    Yields (scanElementWith element stack c) () (.element (Element.bare t [] c.line stack true))
      d := by
  have hc : c.rest = '<' :: (t.toList ++ '/' :: '>' :: d.rest) := by simp [hd.rest, TagEvent.text]
  obtain ⟨hname, hend, hleads⟩ := tag_of_rest ht (.inr rfl) hc
  have hspans : c.Spans (TagEvent.text (.selfClosing t))
      c.next.skipTagName.skipBlanks.next.next := by
    refine (hleads.trans ((Cursor.leads_next _).trans (Cursor.leads_next _))).spans ?_
    rw [Cursor.rest_next, Cursor.rest_next, hend]
    exact hd.rest
  have hattributes : ∀ h,
      Yields (scanAttributes element stack c.next.tagName c.line c.rest.tail.length
        c.next.skipTagName h) [] .none c.next.skipTagName.skipBlanks :=
    fun h => yields_scanAttributes_end hend (.inr rfl) h
  have helement := yields_scanElementWith_selfClosing hattributes hend
  rw [hname, hspans.unique hd] at helement
  exact helement

/-- A closing tag at a place, and the place behind it. -/
theorem closing_of_spans (ht : IsTag t.toList) (hd : c.Spans (TagEvent.text (.closing t)) d) :
    c.closingName = t ∧ c.closingEnd.rest = '>' :: d.rest ∧ c.closingEnd.next = d := by
  obtain ⟨hname, hend⟩ := closing_of_rest ht.2 hd.rest
  have hleads : c.Leads c.closingEnd.next :=
    (Cursor.leads_closingEnd c).trans (Cursor.leads_next _)
  have hspans : c.Spans (TagEvent.text (.closing t)) c.closingEnd.next :=
    hleads.spans (by simp [hd.rest, hend])
  exact ⟨hname, hend, hspans.unique hd⟩

end Tags

/-! ## Ways through children -/

/-- A scan of children comes from one place to another. On the way it reports the given tags as
not closed, and nothing else. -/
def Advances (nesting : Nat) (stack : List String) (tag : String) (c : Cursor)
    (unclosed : List (String × Nat)) (d : Cursor) : Prop :=
  ∃ found f, found.unclosed = unclosed ∧ found.unexpectedClosings = [] ∧
    (∀ i, (f i).closed = i.closed) ∧
    ∀ bound, Continues (scanElement nesting) stack tag bound c found f d

/-- A scan of children ends, at their own closing tag or not. On the way it reports the given tags
as not closed, and nothing else. -/
def EndsBy (nesting : Nat) (stack : List String) (tag : String) (c : Cursor)
    (unclosed : List (String × Nat)) (closed : Bool) (stop : Cursor) : Prop :=
  ∃ inside found, inside.closed = closed ∧ found.unclosed = unclosed ∧
    found.unexpectedClosings = [] ∧
    ∀ bound h, Yields (scanChildren (scanElement nesting) stack tag bound c h) inside found stop

section Ways

variable {nesting : Nat} {stack : List String} {tag t : String} {c d e : Cursor}
  {unclosed unclosed' : List (String × Nat)} {closed : Bool}

theorem Advances.refl (c : Cursor) : Advances nesting stack tag c [] c :=
  ⟨.none, id, rfl, rfl, fun _ => rfl, fun _ => .refl c⟩

theorem Advances.trans (h : Advances nesting stack tag c unclosed d)
    (h' : Advances nesting stack tag d unclosed' e) :
    Advances nesting stack tag c (unclosed ++ unclosed') e := by
  obtain ⟨found, f, hunclosed, hunexpected, hf, hscan⟩ := h
  obtain ⟨found', f', hunclosed', hunexpected', hf', hscan'⟩ := h'
  refine ⟨found ++ found', f ∘ f', ?_, ?_, ?_, fun bound => (hscan bound).trans (hscan' bound)⟩
  · rw [Findings.unclosed_append, hunclosed, hunclosed']
  · rw [Findings.unexpectedClosings_append, hunexpected, hunexpected']
    rfl
  · intro i
    rw [Function.comp_apply, hf, hf']

theorem Advances.endsBy (h : Advances nesting stack tag c unclosed d)
    (h' : EndsBy nesting stack tag d unclosed' closed e) :
    EndsBy nesting stack tag c (unclosed ++ unclosed') closed e := by
  obtain ⟨found, f, hunclosed, hunexpected, hf, hscan⟩ := h
  obtain ⟨inside, found', hclosed, hunclosed', hunexpected', hend⟩ := h'
  refine ⟨f inside, found ++ found', ?_, ?_, ?_,
    fun bound hc => (hscan bound).yields (hend bound) hc⟩
  · rw [hf, hclosed]
  · rw [Findings.unclosed_append, hunclosed, hunclosed']
  · rw [Findings.unexpectedClosings_append, hunexpected, hunexpected']
    rfl

/-- Children end at the closing tag of their element. -/
theorem endsBy_own (ht : IsTag t.toList) (hd : c.Spans (TagEvent.text (.closing t)) d) :
    EndsBy nesting stack t c [] true d := by
  obtain ⟨hname, hend, rfl⟩ := closing_of_spans ht hd
  exact ⟨_, .none, rfl, rfl, rfl, fun bound hc => scanChildren_own _ _ hd.rest hend hname hc⟩

/-- Children end in front of the closing tag of an element further out. -/
theorem endsBy_outer (ht : IsTag t.toList) (hd : c.Spans (TagEvent.text (.closing t)) d)
    (htag : t ≠ tag) (hstack : t ∈ stack) : EndsBy nesting stack tag c [] false c := by
  obtain ⟨hname, hend, -⟩ := closing_of_spans ht hd
  exact ⟨_, .none, rfl, rfl, rfl, fun bound hc =>
    scanChildren_outer _ hd.rest hend (by rwa [hname]) (by simpa [hname] using hstack) hc⟩

theorem advances_text {s : List Char} (hs : ∀ ch ∈ s, isPlain ch = true) (hd : c.Spans s d) :
    Advances nesting stack tag c [] d := by
  obtain ⟨before, text, line⟩ := c
  obtain ⟨before', rest, line'⟩ := d
  obtain rfl : text = s ++ rest := hd.rest
  obtain rfl : before' = s.reverse ++ before := hd.before
  obtain rfl : line' = line + newlines s := hd.line
  exact ⟨.none, fun i => { i with text := s ++ i.text }, rfl, rfl, fun _ => rfl,
    fun bound => continues_text _ stack tag bound hs before rest line⟩

/-- A scan of children passes over an element where the children of the element end. -/
theorem EndsBy.advances (h : EndsBy nesting (stack ++ [t]) t d unclosed closed e)
    (ht : IsTag t.toList) (hd : c.Spans (TagEvent.text (.opening t)) d) :
    Advances (nesting + 1) stack tag c (unclosed ++ if closed then [] else [(t, c.line)]) e := by
  obtain ⟨inside, found, rfl, hunclosed, hunexpected, hscan⟩ := h
  have helement : Yields (scanElement (nesting + 1) stack c) () _ e :=
    yields_openedElement ht hd hscan
  refine ⟨_, fun i => { i with hasElement := true }, ?_, ?_, fun _ => rfl,
    fun bound => continues_element tag bound hd.rest (head?_of_isTag ht) helement⟩
  · cases hclosed : inside.closed <;>
      simp [Findings.missingClose, Findings.element, Findings.none, Findings.unclosedTag, hclosed,
        hunclosed]
  · cases hclosed : inside.closed <;>
      simp [Findings.missingClose, Findings.element, Findings.none, Findings.unclosedTag, hclosed,
        hunexpected]

theorem advances_selfClosing (ht : IsTag t.toList)
    (hd : c.Spans (TagEvent.text (.selfClosing t)) d) :
    Advances (nesting + 1) stack tag c [] d := by
  have helement : Yields (scanElement (nesting + 1) stack c) () _ d := yields_selfClosed ht hd
  exact ⟨_, fun i => { i with hasElement := true }, rfl, rfl, fun _ => rfl,
    fun bound => continues_element tag bound hd.rest (head?_of_isTag ht) helement⟩

/-- Pieces that pair are passed over without a report, where as many levels are allowed as they
have. -/
theorem Paired.advances {k : Nat} {w : List Piece} (hw : Paired k w) (hread : ∀ p ∈ w, p.Readable)
    (hk : k ≤ nesting) (hd : c.Spans (pieceText w) d) : Advances nesting stack tag c [] d := by
  induction hw generalizing nesting stack tag c d with
  | nil =>
    obtain rfl := hd.unique (.refl c)
    exact .refl d
  | text s _ ih =>
    rw [List.forall_mem_cons] at hread
    obtain ⟨b, hb, hd⟩ := Cursor.Spans.split hd
    exact (advances_text hread.1 hb).trans (ih hread.2 hk hd)
  | selfClosing t _ ih =>
    rw [List.forall_mem_cons] at hread
    obtain ⟨nesting, rfl⟩ := Nat.exists_eq_add_of_le' (Nat.le_trans (Nat.le_add_left 1 _) hk)
    obtain ⟨b, hb, hd⟩ := Cursor.Spans.split hd
    exact (advances_selfClosing hread.1 hb).trans (ih hread.2 hk hd)
  | @element k v w t _ _ ihv ihw =>
    simp only [List.forall_mem_cons, List.forall_mem_append] at hread
    obtain ⟨ht, hreadv, -, hreadw⟩ := hread
    obtain ⟨nesting, rfl⟩ := Nat.exists_eq_add_of_le' (Nat.le_trans (Nat.le_add_left 1 _) hk)
    rw [pieceText_cons, pieceText_append, pieceText_cons] at hd
    obtain ⟨opened, hopened, hd⟩ := hd.split
    obtain ⟨inner, hinner, hd⟩ := hd.split
    obtain ⟨behind, hbehind, hd⟩ := hd.split
    have hinside : Advances nesting (stack ++ [t]) t opened [] inner :=
      ihv hreadv (Nat.le_of_succ_le_succ hk) hinner
    have helement : Advances (nesting + 1) stack tag c [] behind :=
      (hinside.endsBy (endsBy_own ht hbehind)).advances ht hopened
    exact helement.trans (ihw hreadw hk hd)

end Ways

/-! ## The open element -/

/-- At the second place the element stands open: the scan of the children from the first place
came to its opening tag, and the scan of its own children came here. -/
def StandsOpen (nesting : Nat) (stack : List String) (tag : String) (c : Cursor)
    (n : InnerElement) (d : Cursor) :
    Prop :=
  ∃ start inner, c.Spans (pieceText n.front) start ∧ Advances (nesting + 1) stack tag c [] start ∧
    start.Spans (TagEvent.text (.opening n.tag)) inner ∧
    Advances nesting (stack ++ [n.tag]) n.tag inner [] d

section Open

variable {nesting : Nat} {stack : List String} {tag t : String} {c d e : Cursor}
  {n : InnerElement}

/-- The closing tag of its name closes an open element. -/
theorem StandsOpen.closed (h : StandsOpen nesting stack tag c n d) (ht : IsTag n.tag.toList)
    (he : d.Spans (TagEvent.text (.closing n.tag)) e) :
    Advances (nesting + 1) stack tag c [] e := by
  obtain ⟨start, inner, -, hstart, hopened, hinner⟩ := h
  exact hstart.trans ((hinner.endsBy (endsBy_own ht he)).advances ht hopened)

/-- An open element is reported at the closing tag of an element around it, if that one has
another name. -/
theorem StandsOpen.reported (h : StandsOpen nesting stack tag c n d) (ht : IsTag n.tag.toList)
    (hs : IsTag t.toList) (he : d.Spans (TagEvent.text (.closing t)) e) (hne : t ≠ n.tag)
    (hstack : t ∈ stack) :
    Advances (nesting + 1) stack tag c [(n.tag, c.line + newlines (pieceText n.front))] d := by
  obtain ⟨start, inner, hfront, hstart, hopened, hinner⟩ := h
  have hend : EndsBy nesting (stack ++ [n.tag]) n.tag inner [] false d :=
    hinner.endsBy (endsBy_outer hs he hne (List.mem_append_left _ hstack))
  rw [← hfront.line]
  exact hstart.trans (hend.advances ht hopened)

/-- What a scan of children does with pieces that pair but for the closing tag of one element.
That element or one of its name around it is open at the end, with nothing reported; or such an
element was reported, and nothing else. The induction goes from the element outwards, over the
elements around it. -/
theorem Lies.scan {k : Nat} (hn : Lies k n) (nesting : Nat) (stack : List String) (tag : String)
    (hread : ∀ p ∈ n.whole, p.Readable) (hk : k ≤ nesting)
    (hd : c.Spans (pieceText n.withoutClosing) d) :
    ∃ m, (m = n ∨ m.Encloses n) ∧ m.tag = n.tag ∧
      (StandsOpen nesting stack tag c m d ∨
        Advances (nesting + 1) stack tag c [(m.tag, c.line + newlines (pieceText m.front))]
          d) := by
  induction hn generalizing nesting stack tag c d with
  | @here k n hfront hinside hbehind =>
    simp only [InnerElement.whole, List.forall_mem_append, List.forall_mem_cons] at hread
    obtain ⟨hreadFront, ht, hreadInside, -, hreadBehind⟩ := hread
    rw [InnerElement.withoutClosing, pieceText_append, pieceText_cons, pieceText_append] at hd
    obtain ⟨start, hstart, hd⟩ := hd.split
    obtain ⟨inner, hinner, hd⟩ := hd.split
    obtain ⟨last, hlast, hd⟩ := hd.split
    refine ⟨n, .inl rfl, rfl, .inl ⟨start, inner, hstart, ?_, hinner, ?_⟩⟩
    · exact hfront.advances hreadFront (Nat.le_succ_of_le hk) hstart
    · exact (hinside.advances hreadInside (Nat.le_of_succ_le hk) hlast).trans
        (hbehind.advances hreadBehind hk hd)
  | @within k n u x s hu hn hx ih =>
    obtain ⟨nesting, rfl⟩ := Nat.exists_eq_add_of_le' (Nat.le_trans (Nat.le_add_left 1 _) hk)
    have hreadTag : IsTag n.tag.toList :=
      hread (.tag (.opening n.tag)) (by simp [InnerElement.whole])
    simp only [InnerElement.whole_within, List.forall_mem_append, List.forall_mem_cons] at hread
    obtain ⟨hreadFront, hs, hreadInside, -, hreadBehind⟩ := hread
    rw [InnerElement.withoutClosing_within, pieceText_append, pieceText_cons, pieceText_append,
      pieceText_cons] at hd
    obtain ⟨start, hstart, hd⟩ := hd.split
    obtain ⟨inner, hinner, hd⟩ := hd.split
    obtain ⟨last, hlast, hd⟩ := hd.split
    obtain ⟨behind, hbehind, hd⟩ := hd.split
    have hfront : Advances (nesting + 1 + 1) stack tag c [] start :=
      hu.advances hreadFront (Nat.le_succ_of_le hk) hstart
    obtain ⟨m, hm, htag, hinside⟩ :=
      ih nesting (stack ++ [s]) s hreadInside (Nat.le_of_succ_le_succ hk) hlast
    -- Once an element is reported, the one around it ends as it did before.
    have hreported (hinside : Advances (nesting + 1) (stack ++ [s]) s inner
        [(m.tag, inner.line + newlines (pieceText m.front))] last) :
        ∃ m', (m' = n.within u s x ∨ m'.Encloses (n.within u s x)) ∧
          m'.tag = (n.within u s x).tag ∧
          (StandsOpen (nesting + 1) stack tag c m' d ∨ Advances (nesting + 1 + 1) stack tag c
            [(m'.tag, c.line + newlines (pieceText m'.front))] d) := by
      refine ⟨m.within u s x, ?_, htag, .inr ?_⟩
      · rcases hm with rfl | hm
        · exact .inl rfl
        · exact .inr (hm.among _ _)
      · have hline : c.line + newlines (pieceText (m.within u s x).front) =
            inner.line + newlines (pieceText m.front) := by
          rw [hinner.line, hstart.line, InnerElement.front_within, pieceText_append,
            pieceText_cons, newlines_append, newlines_append]
          simp only [Piece.written]
          omega
        have helement : Advances (nesting + 1 + 1) stack tag start _ behind :=
          (hinside.endsBy (endsBy_own hs hbehind)).advances hs hinner
        rw [hline]
        exact hfront.trans (helement.trans (hx.advances hreadBehind (Nat.le_succ_of_le hk) hd))
    rcases hinside with hopen | hinside
    · rw [← htag] at hreadTag
      by_cases hsame : s = m.tag
      · -- The closing tag is taken by the open element, so the one around it stands open.
        rw [hsame] at hbehind
        have hclosed := hopen.closed hreadTag hbehind
        refine ⟨⟨u, s, n.whole, x, k, hn.paired.nestedWithin⟩,
          .inr ⟨n.front, n.behind, ?_, ?_, rfl⟩, hsame.trans htag,
          .inl ⟨start, inner, hstart, hfront, hinner, ?_⟩⟩
        · exact InnerElement.front_within n u s x
        · simp [InnerElement.within, InnerElement.among]
        · exact hclosed.trans (hx.advances hreadBehind hk hd)
      · exact hreported (hopen.reported hreadTag hs hbehind hsame
          (List.mem_append_right _ List.mem_cons_self))
    · exact hreported hinside

end Open

/-! ## Sources with text between the tags -/

/-- The source of a component that returns a root element with the given pieces in it. -/
def piecedSource (root : String) (w : List Piece) : String :=
  String.ofList (rootPrefix ++
    (TagEvent.text (.opening root) ++
      (pieceText w ++ (TagEvent.text (.closing root) ++ [')', ';']))))

/-- The line on which the element starts, in the root element of a source. -/
def InnerElement.lineIn (root : String) (n : InnerElement) : Nat :=
  1 + newlines (rootPrefix ++ (TagEvent.text (.opening root) ++ pieceText n.front))

section Rooted

variable {root : String} {n : InnerElement}

/-- One missing closing tag is reported once and under its name. The elements in the root pair,
with at most 98 levels of them; then one of them, which is not named like the root, loses its
closing tag. The source can be taken apart, no closing tag is unexpected, and one opening tag is
not closed: that of the element, or that of an element of the same name around it. -/
theorem ofText_withoutClosing (hroot : IsTag root.toList)
    (hletter : ∀ ch ∈ root.toList.head?, isAlphabetic ch = true)
    (hread : ∀ p ∈ n.whole, p.Readable) (hnested : NestedWithin 98 (tagsOf n.whole))
    (hne : n.tag ≠ root) :
    ∃ s m, Structure.ofText (piecedSource root n.withoutClosing) = .ok s ∧
      s.unexpectedClosings = [] ∧
      s.unclosed = [(n.tag, m.lineIn root)] ∧ m.tag = n.tag ∧ (m = n ∨ m.Encloses n) := by
  have hprefix : Passable rootPrefix := passable_of_inert (by decide)
  have hsuffix : Passable [')', ';'] := passable_of_inert (by decide)
  let inside := pieceText n.withoutClosing ++ (TagEvent.text (.closing root) ++ [')', ';'])
  let text := '<' :: (root.toList ++ '>' :: inside)
  let c : Cursor := ⟨rootPrefix.reverse, text, 1 + newlines rootPrefix⟩
  have hc : c.rest = TagEvent.text (.opening root) ++ inside := by simp [c, text, TagEvent.text]
  have hrun : Passes (.start (rootPrefix ++ text)) 0 c 0 := by
    have hrun := hprefix [] text 1 0
    rwa [List.append_nil] at hrun
  have hstep : c.step = .element :=
    step_root hroot hletter (.inl rfl) inside (1 + newlines rootPrefix)
  -- The places behind the opening tag of the root, in front of its closing tag and behind that.
  obtain ⟨inner, hinner, hrest⟩ := Cursor.exists_spans hc
  obtain ⟨last, hlast, hrest⟩ := Cursor.exists_spans hrest
  obtain ⟨⟨before, rest, line⟩, hstop, hrest⟩ := Cursor.exists_spans hrest
  obtain rfl : rest = [')', ';'] := hrest
  have hpaired : Paired 98 n.whole := paired_iff.2 hnested
  have htag : IsTag n.tag.toList := hread (.tag (.opening n.tag)) (by simp [InnerElement.whole])
  obtain ⟨m, hm, hmtag, hinside⟩ := hpaired.lies.scan 98 [root] root hread (Nat.le_refl 98) hlast
  have hline : m.lineIn root = inner.line + newlines (pieceText m.front) := by
    rw [hinner.line, InnerElement.lineIn, newlines_append, newlines_append]
    simp only [c]
    omega
  have hreported : Advances 99 [root] root inner [(n.tag, m.lineIn root)] last := by
    rw [hline, ← hmtag]
    rcases hinside with hopen | hinside
    · exact hopen.reported (hmtag ▸ htag) hroot hstop (hmtag ▸ hne.symm) List.mem_cons_self
    · exact hinside
  obtain ⟨_, found, hclosed, hunclosed, hunexpected, hchildren⟩ :=
    hreported.endsBy (endsBy_own hroot hstop)
  have helement : Yields (scanElementWith (scanElement 99) [] c) () _ _ :=
    yields_openedElement hroot hinner hchildren
  rw [Findings.missingClose, hclosed, if_pos rfl, Findings.append_none] at helement
  have hscan :=
    scanSource_element hrun hstep (List.cons_ne_nil _ _) helement (hsuffix before [] line 0) rfl
  have hmem : 'c' ∈ rootPrefix ++ text := List.mem_append_left _ (by decide)
  have hread : Structure.ofText (String.ofList (rootPrefix ++ text)) = _ :=
    ofText_of_scanSource hmem (by decide)
  have hsource : piecedSource root n.withoutClosing = String.ofList (rootPrefix ++ text) := by
    simp [piecedSource, text, inside, TagEvent.text]
  rw [hscan] at hread
  exact ⟨_, m, hsource ▸ hread, hunexpected, hunclosed, hmtag, hm⟩

/-- An element with a line of its own in another one of its name, which has a line of its own
too. -/
def itemInItem : InnerElement where
  front := [.text ['\n'], .tag (.opening "li"), .text ['\n']]
  tag := "li"
  inside := [.tag (.selfClosing "b")]
  behind := [.tag (.closing "li")]
  nested := wellNested_selfClosing "b"

theorem ofText_withoutClosing_itemInItem :
    IsTag "ul".toList ∧ (∀ ch ∈ "ul".toList.head?, isAlphabetic ch = true) ∧
      (∀ p ∈ itemInItem.whole, p.Readable) ∧ NestedWithin 98 (tagsOf itemInItem.whole) ∧
      itemInItem.tag ≠ "ul" ∧
      ∃ s m, Structure.ofText (piecedSource "ul" itemInItem.withoutClosing) = .ok s ∧
        s.unexpectedClosings = [] ∧
        s.unclosed = [("li", m.lineIn "ul")] ∧ m.tag = "li" ∧
        (m = itemInItem ∨ m.Encloses itemInItem) := by
  have hroot : IsTag "ul".toList := by decide
  have hletter : ∀ ch ∈ "ul".toList.head?, isAlphabetic ch = true := by decide
  have hread : ∀ p ∈ itemInItem.whole, p.Readable := by decide
  have hnested : NestedWithin 98 (tagsOf itemInItem.whole) :=
    .element "li" (.element "li" (.selfClosing "b" (.nil _)) (.nil _)) (.nil _)
  have hne : itemInItem.tag ≠ "ul" := by decide
  exact ⟨hroot, hletter, hread, hnested, hne,
    ofText_withoutClosing hroot hletter hread hnested hne⟩

/-- It is the outer one that is reported: the inner one takes its closing tag. -/
example : (Structure.ofText (piecedSource "ul" itemInItem.withoutClosing)).toOption.map
  (·.unclosed) =
    some [("li", 2)] := by
  decide +kernel

/-- A root whose name starts with a low line is no element in script text. Nothing in it is read
as a tag, so a missing closing tag is not reported. -/
theorem ofText_withoutClosing_lowLine :
    IsTag "_R".toList ∧ NestedWithin 98
      [.opening "li", .opening "li", .closing "li", .closing "li"] ∧
      (∀ e ∈ [TagEvent.opening "li", .opening "li", .closing "li", .closing "li"], e.tag ≠ "_R") ∧
      ∃ s, Structure.ofText (rootedSource "_R" [.opening "li", .opening "li", .closing "li"]) =
        .ok s ∧
        s.unclosed = [] := by
  refine ⟨by decide, .element "li" (.element "li" (.nil _) (.nil _)) (.nil _), by decide, ?_⟩
  have hscan :
      (Structure.ofText (rootedSource "_R"
        [.opening "li", .opening "li", .closing "li"])).toOption.map
        (·.unclosed) = some [] := by
    decide +kernel
  cases hs : Structure.ofText
    (rootedSource "_R" [.opening "li", .opening "li", .closing "li"]) with
  | error reason =>
    rw [hs] at hscan
    cases hscan
  | ok s =>
    rw [hs] at hscan
    exact ⟨s, rfl, Option.some.inj hscan⟩

end Rooted

end DesignCompiler.Markup
