import DesignCompiler.Proofs.Markup.Sources

/-!
# Pairing of tags

The tags between those of a root element, as a sequence of events, and what a scan reports about
them.

`NestedWithin` is the grammar of the sequences that pair. `Accounts` is what holds of the findings
whatever the sequence is: the events fall into pairs of an opening and a closing tag of one name
and into reports. A closing tag that belongs to an element further out is read by every element
inside that one, but it is consumed once, so the events that an element takes and those that it
leaves always make up the sequence.
-/

namespace DesignCompiler.Markup

open Text (isBlank isNameChar isAlphabetic)

/-! ## Events -/

/-- A tag as it is met on the way through a source. -/
inductive TagEvent where
  | opening (tag : String)
  | closing (tag : String)
  | selfClosing (tag : String)
deriving DecidableEq, Repr

namespace TagEvent

/-- The name in a tag. -/
def tag : TagEvent → String
  | .opening t | .closing t | .selfClosing t => t

/-- A tag as it is written. -/
def text : TagEvent → List Char
  | .opening t => '<' :: (t.toList ++ ['>'])
  | .closing t => '<' :: '/' :: (t.toList ++ ['>'])
  | .selfClosing t => '<' :: (t.toList ++ ['/', '>'])

/-- The name of an opening tag. -/
def opened? : TagEvent → Option String
  | .opening t => some t
  | _ => none

/-- The name of a closing tag. -/
def closed? : TagEvent → Option String
  | .closing t => some t
  | _ => none

end TagEvent

/-- Tags as they are written one behind the other. -/
def tagText (w : List TagEvent) : List Char :=
  w.flatMap TagEvent.text

@[simp] theorem tagText_nil : tagText [] = [] := rfl

@[simp] theorem tagText_cons (e : TagEvent) (w : List TagEvent) :
    tagText (e :: w) = e.text ++ tagText w := rfl

@[simp] theorem tagText_append (u w : List TagEvent) :
    tagText (u ++ w) = tagText u ++ tagText w :=
  List.flatMap_append

/-- The tags pair as elements that lie in each other or behind each other, with at most so many of
them around any place. A self-closing tag is an element too. -/
inductive NestedWithin : Nat → List TagEvent → Prop where
  | nil (n : Nat) : NestedWithin n []
  | selfClosing {n : Nat} {w : List TagEvent} (t : String) (hw : NestedWithin (n + 1) w) :
      NestedWithin (n + 1) (.selfClosing t :: w)
  | element {n : Nat} {v w : List TagEvent} (t : String) (hv : NestedWithin n v)
      (hw : NestedWithin (n + 1) w) :
      NestedWithin (n + 1) (.opening t :: (v ++ .closing t :: w))

/-- The tags pair as elements, however deep they are. -/
def WellNested (w : List TagEvent) : Prop :=
  ∃ n, NestedWithin n w

theorem NestedWithin.mono {n m : Nat} {w : List TagEvent} (hw : NestedWithin n w) (hnm : n ≤ m) :
    NestedWithin m w := by
  induction hw generalizing m with
  | nil => exact .nil m
  | selfClosing t _ ih =>
    obtain ⟨m, rfl⟩ := Nat.exists_eq_add_of_le' (Nat.le_trans (Nat.le_add_left 1 _) hnm)
    exact .selfClosing t (ih hnm)
  | element t _ _ ihv ihw =>
    obtain ⟨m, rfl⟩ := Nat.exists_eq_add_of_le' (Nat.le_trans (Nat.le_add_left 1 _) hnm)
    exact .element t (ihv (Nat.le_of_succ_le_succ hnm)) (ihw hnm)

theorem NestedWithin.append {n : Nat} {u w : List TagEvent} (hu : NestedWithin n u)
    (hw : NestedWithin n w) :
    NestedWithin n (u ++ w) := by
  induction hu with
  | nil => exact hw
  | selfClosing t _ ih => exact .selfClosing t (ih hw)
  | element t hv _ _ ih =>
    rw [List.cons_append, List.append_assoc, List.cons_append]
    exact .element t hv (ih hw)

/-- Nested tags are opened as often as they are closed. -/
theorem WellNested.length_eq {w : List TagEvent} (hw : WellNested w) :
    (w.filterMap TagEvent.opened?).length = (w.filterMap TagEvent.closed?).length := by
  obtain ⟨n, hw⟩ := hw
  induction hw with
  | nil => rfl
  | selfClosing t _ ih => simpa [List.filterMap_cons, TagEvent.opened?, TagEvent.closed?] using ih
  | element t _ _ ihv ihw =>
    simp [List.filterMap_append, List.filterMap_cons, TagEvent.opened?, TagEvent.closed?,
      ihv, ihw]
    omega

theorem wellNested_nil : WellNested [] :=
  ⟨0, .nil 0⟩

theorem wellNested_selfClosing (t : String) : WellNested [.selfClosing t] :=
  ⟨1, .selfClosing t (.nil 1)⟩

theorem WellNested.element {v : List TagEvent} (t : String) (hv : WellNested v) :
    WellNested (.opening t :: (v ++ [.closing t])) := by
  obtain ⟨n, hv⟩ := hv
  exact ⟨n + 1, .element t hv (.nil (n + 1))⟩

theorem WellNested.append {u w : List TagEvent} (hu : WellNested u) (hw : WellNested w) :
    WellNested (u ++ w) := by
  obtain ⟨n, hu⟩ := hu
  obtain ⟨m, hw⟩ := hw
  exact ⟨max n m, (hu.mono (Nat.le_max_left n m)).append (hw.mono (Nat.le_max_right n m))⟩

/-! ## Accounts -/

/-- Every opening and every closing tag is in one pair with a tag of its name or reported, and not
both. -/
def EachOnce (w : List TagEvent) (unclosed unexpected : List (String × Nat)) : Prop :=
  ∃ pairs : List String, (w.filterMap TagEvent.opened?).Perm (pairs ++ unclosed.map (·.1)) ∧
    (w.filterMap TagEvent.closed?).Perm (pairs ++ unexpected.map (·.1))

/-- The findings account for every tag, and they report something unless the tags pair. -/
structure Accounts (w : List TagEvent) (found : Findings) : Prop where
  eachOnce : EachOnce w found.unclosed found.unexpectedClosings
  nested : found.unclosed = [] → found.unexpectedClosings = [] → WellNested w

theorem accounts_nil : Accounts [] .none :=
  ⟨⟨[], .nil, .nil⟩, fun _ _ => wellNested_nil⟩

theorem accounts_selfClosing (t : String) (e : Element) :
    Accounts [.selfClosing t] (.element e) :=
  ⟨⟨[], .nil, .nil⟩, fun _ _ => wellNested_selfClosing t⟩

theorem accounts_stray (t : String) (line : Nat) :
    Accounts [.closing t] (.unexpectedClosing t line) :=
  ⟨⟨[], .nil, .refl _⟩, fun _ h => absurd h (List.cons_ne_nil _ _)⟩

theorem EachOnce.append {u w : List TagEvent}
    {unclosed unclosed' unexpected unexpected' : List (String × Nat)}
    (hu : EachOnce u unclosed unexpected) (hw : EachOnce w unclosed' unexpected') :
    EachOnce (u ++ w) (unclosed ++ unclosed') (unexpected ++ unexpected') := by
  obtain ⟨pairs, hopened, hclosed⟩ := hu
  obtain ⟨pairs', hopened', hclosed'⟩ := hw
  -- The pairs of both parts come first, then the reports of both parts.
  have hswap (a b c d : List String) : ((a ++ b) ++ (c ++ d)).Perm ((a ++ c) ++ (b ++ d)) := by
    rw [List.append_assoc, List.append_assoc]
    exact List.Perm.append_left a (by
      rw [← List.append_assoc, ← List.append_assoc]
      exact List.Perm.append_right d List.perm_append_comm)
  refine ⟨pairs ++ pairs', ?_, ?_⟩
  · rw [List.filterMap_append, List.map_append]
    exact (hopened.append hopened').trans (hswap ..)
  · rw [List.filterMap_append, List.map_append]
    exact (hclosed.append hclosed').trans (hswap ..)

/-- As many opening tags are not reported as closing tags. -/
theorem EachOnce.length_sub {w : List TagEvent} {unclosed unexpected : List (String × Nat)}
    (h : EachOnce w unclosed unexpected) :
    ((w.filterMap TagEvent.opened?).length : Int) - unclosed.length =
      (w.filterMap TagEvent.closed?).length - unexpected.length := by
  obtain ⟨pairs, hopened, hclosed⟩ := h
  have hopened := hopened.length_eq
  have hclosed := hclosed.length_eq
  rw [List.length_append, List.length_map] at hopened hclosed
  omega

theorem Accounts.append {u w : List TagEvent} {found found' : Findings} (hu : Accounts u found)
    (hw : Accounts w found') : Accounts (u ++ w) (found ++ found') := by
  refine ⟨hu.eachOnce.append hw.eachOnce, ?_⟩
  intro hunclosed hunexpected
  rw [Findings.unclosed_append, List.append_eq_nil_iff] at hunclosed
  rw [Findings.unexpectedClosings_append, List.append_eq_nil_iff] at hunexpected
  exact (hu.nested hunclosed.1 hunexpected.1).append (hw.nested hunclosed.2 hunexpected.2)

/-- An element with its closing tag adds a pair. -/
theorem Accounts.element {v : List TagEvent} {found : Findings} (hv : Accounts v found)
    (t : String) (e : Element) :
    Accounts (.opening t :: (v ++ [.closing t])) (.element e ++ found ++ .none) := by
  rw [Findings.append_none]
  obtain ⟨⟨pairs, hopened, hclosed⟩, hnested⟩ := hv
  refine ⟨⟨t :: pairs, ?_, ?_⟩,
    fun hunclosed hunexpected => (hnested hunclosed hunexpected).element t⟩
  · simpa [List.filterMap_cons, TagEvent.opened?, Findings.element] using hopened
  · have hlast : ((v ++ [TagEvent.closing t]).filterMap TagEvent.closed?).Perm
        (t :: v.filterMap TagEvent.closed?) := by
      rw [List.filterMap_append]
      exact List.perm_append_comm
    simpa [List.filterMap_cons, TagEvent.closed?,
      Findings.element] using hlast.trans (hclosed.cons t)

/-- An element without its closing tag adds a report. -/
theorem Accounts.unclosed {v : List TagEvent} {found : Findings} (hv : Accounts v found)
    (t : String) (e : Element) (line : Nat) :
    Accounts (.opening t :: v) (.element e ++ found ++ .unclosedTag t line) := by
  obtain ⟨⟨pairs, hopened, hclosed⟩, -⟩ := hv
  refine ⟨⟨pairs, ?_, ?_⟩, fun hunclosed _ => ?_⟩
  · have hlast : (t :: (pairs ++ found.unclosed.map (·.1))).Perm
        (pairs ++ (found.unclosed.map (·.1) ++ [t])) := by
      rw [← List.append_assoc]
      exact (List.perm_append_singleton t _).symm
    simpa [List.filterMap_cons, TagEvent.opened?, Findings.element, Findings.unclosedTag]
      using (hopened.cons t).trans hlast
  · simpa [List.filterMap_cons, TagEvent.closed?, Findings.element,
      Findings.unclosedTag] using hclosed
  · simp [Findings.unclosedTag] at hunclosed

/-! ## Tags without attributes -/

section Tags

variable {element : ElementScanner} {stack : List String} {c : Cursor} {t : String}
  {rest : List Char}

theorem closing_of_rest (ht : ∀ ch ∈ t.toList, isTagChar ch = true)
    (hc : c.rest = TagEvent.text (.closing t) ++ rest) :
    c.closingName = t ∧ c.closingEnd.rest = '>' :: rest := by
  have hc : c.rest = '<' :: '/' :: (t.toList ++ '>' :: rest) := by simp [hc, TagEvent.text]
  refine ⟨?_, rest_closingEnd_of_rest ht hc⟩
  rw [closingName_of_rest ht hc, String.ofList_toList]

theorem yields_selfClosingEvent (element : ElementScanner) (stack : List String)
    (ht : IsTag t.toList) (hc : c.rest = TagEvent.text (.selfClosing t) ++ rest) :
    ∃ e stop, stop.rest = rest ∧
      Yields (scanElementWith element stack c) () (.element e) stop := by
  have hstart : c.rest = tagStart t [] [] ++ '/' :: '>' :: rest := by
    simp [hc, TagEvent.text, tagStart]
  obtain ⟨attributes, stop, -, hstop, hscan⟩ :=
    yields_selfClosingTag element stack ht.2 (by simp) (by simp) hstart
  exact ⟨_, stop, hstop, hscan⟩

theorem scanElementWith_openingEvent (element : ElementScanner) (stack : List String)
    (ht : IsTag t.toList) (hc : c.rest = TagEvent.text (.opening t) ++ rest) :
    ∃ (e : Inside → Element) (d : Cursor) (bound : Nat) (hd : d.rest.length ≤ bound),
      d.rest = rest ∧
      (∀ inside found stop, Yields (scanChildren element (stack ++ [t]) t bound d hd) inside found
        stop →
        Yields (scanElementWith element stack c) ()
          (.element (e inside) ++ found ++ .missingClose inside t c.line) stop) ∧
      ∀ reason, scanChildren element (stack ++ [t]) t bound d hd = .error reason →
        scanElementWith element stack c = .error reason := by
  have hstart : c.rest = tagStart t [] [] ++ '>' :: rest := by simp [hc, TagEvent.text, tagStart]
  obtain ⟨attributes, d, bound, hd, -, hrest, hyields, herror⟩ :=
    scanElementWith_openingTag element stack ht.2 (by simp) (by simp) hstart
  exact ⟨_, d, bound, hd, hrest, hyields, herror⟩

end Tags

/-! ## Pairing tags -/

section Nested

variable {nesting needed : Nat} {stack : List String} {tag : String} {bound : Nat} {c d : Cursor}
  {rest : List Char}

/-- A scan of children with so much nesting allowed goes on at a place with the given text,
without a report on the way; only where more nesting is needed it may be too deep. -/
def GoesOn (nesting needed : Nat) (stack : List String) (tag : String) (bound : Nat) (c : Cursor)
    (rest : List Char) :
    Prop :=
  (nesting < needed ∧ ∀ hc, ∃ line,
    scanChildren (scanElement nesting) stack tag bound c hc = .error (.tooDeep line)) ∨
    ∃ d found f, d.rest = rest ∧ found.Clean ∧ (∀ i, (f i).closed = i.closed) ∧
      Continues (scanElement nesting) stack tag bound c found f d

theorem GoesOn.after {found : Findings} {f : Inside → Inside}
    (h : GoesOn nesting needed stack tag bound d rest)
    (hstep : Continues (scanElement nesting) stack tag bound c found f d) (hfound : found.Clean)
    (hf : ∀ i, (f i).closed = i.closed) : GoesOn nesting needed stack tag bound c rest := by
  rcases h with ⟨hneeded, hdeep⟩ | ⟨e, found', f', hrest, hfound', hf', hlater⟩
  · refine .inl ⟨hneeded, fun hc => ?_⟩
    obtain ⟨hd, hscan⟩ := hstep hc
    obtain ⟨line, hline⟩ := hdeep hd
    exact ⟨line, by rw [hscan, hline]; rfl⟩
  · refine .inr ⟨e, found ++ found', f ∘ f', hrest, hfound.append hfound', fun i => ?_,
      hstep.trans hlater⟩
    rw [Function.comp_apply, hf, hf']

/-- An element that is too deep needs more nesting than there is. -/
theorem goesOn_of_tooDeep {s : List Char} {line : Nat} (hneeded : nesting < needed)
    (hsign : c.rest = '<' :: s) (hhead : s.head? ≠ some '/')
    (helement : scanElement nesting stack c = .error (.tooDeep line)) :
    GoesOn nesting needed stack tag bound c rest :=
  .inl ⟨hneeded, fun hc => ⟨line, scanChildren_element_error hsign hhead helement hc⟩⟩

/-- The tags of a nested sequence are passed over without a report, unless the nesting that is
allowed is not enough. -/
theorem goesOn_nested {m : Nat} {v : List TagEvent} (hv : NestedWithin m v)
    (hnames : ∀ e ∈ v, IsTag e.tag.toList) (hrest : c.rest = tagText v ++ rest) :
    GoesOn nesting m stack tag bound c rest := by
  induction hv generalizing nesting stack tag bound c rest with
  | nil => exact .inr ⟨c, .none, id, hrest, Findings.clean_none, fun _ => rfl, .refl c⟩
  | @selfClosing n w t hw ih =>
    have ht : IsTag t.toList := hnames _ List.mem_cons_self
    have hsign : c.rest = TagEvent.text (.selfClosing t) ++ (tagText w ++ rest) := by
      rw [hrest, tagText_cons, List.append_assoc]
    cases nesting with
    | zero => exact goesOn_of_tooDeep (Nat.zero_lt_succ n) hsign (head?_of_isTag ht) rfl
    | succ nesting =>
      obtain ⟨e, stop, hstop, helement⟩ :=
        yields_selfClosingEvent (scanElement nesting) stack ht hsign
      have hlater : GoesOn (nesting + 1) (n + 1) stack tag bound stop rest :=
        ih (fun e he => hnames e (List.mem_cons_of_mem _ he)) hstop
      exact hlater.after (continues_element tag bound hsign (head?_of_isTag ht) helement)
        (Findings.clean_element e) fun _ => rfl
  | @element n v w t hv hw ihv ihw =>
    have ht : IsTag t.toList := hnames _ List.mem_cons_self
    have hnamesv : ∀ e ∈ v, IsTag e.tag.toList := fun e he => hnames e (by simp [he])
    have hnamesw : ∀ e ∈ w, IsTag e.tag.toList := fun e he => hnames e (by simp [he])
    have hsign : c.rest = TagEvent.text (.opening t) ++
        (tagText v ++ (TagEvent.text (.closing t) ++ (tagText w ++ rest))) := by
      simp [hrest]
    cases nesting with
    | zero => exact goesOn_of_tooDeep (Nat.zero_lt_succ n) hsign (head?_of_isTag ht) rfl
    | succ nesting =>
      obtain ⟨e, d, bound', hd, hdrest, hyields, herror⟩ :=
        scanElementWith_openingEvent (scanElement nesting) stack ht hsign
      have hinside : GoesOn nesting n (stack ++ [t]) t bound' d _ := ihv hnamesv hdrest
      rcases hinside with ⟨hneeded, hdeep⟩ | ⟨d', found, f, hdrest', hfound, hf, hscan⟩
      · obtain ⟨line, hline⟩ := hdeep hd
        exact goesOn_of_tooDeep (Nat.succ_lt_succ hneeded) hsign (head?_of_isTag ht)
          (herror _ hline)
      · obtain ⟨hown, hend⟩ := closing_of_rest ht.2 hdrest'
        have hchildren := hscan.yields (fun _ => scanChildren_own _ _ hdrest' hend hown _) hd
        have helement := hyields _ _ _ hchildren
        rw [Findings.missingClose, hf, if_pos rfl, Findings.append_none,
          Findings.append_none] at helement
        have hlater : GoesOn (nesting + 1) (n + 1) stack tag bound d'.closingEnd.next rest :=
          ihw hnamesw (by simp [hend])
        exact hlater.after (continues_element tag bound hsign (head?_of_isTag ht) helement)
          ((Findings.clean_element _).append hfound) fun _ => rfl

end Nested

/-! ## Accounting for tags -/

section Accounting

variable {root tag : String} {behind : List Char} {bound nesting : Nat} {stack : List String}
  {w : List TagEvent} {c : Cursor}

/-- Tags up to the closing tag of the root element, and the text behind it. -/
def rootText (root : String) (behind : List Char) (w : List TagEvent) : List Char :=
  tagText w ++ (TagEvent.text (.closing root) ++ behind)

theorem rootText_cons (root : String) (behind : List Char) (e : TagEvent) (w : List TagEvent) :
    rootText root behind (e :: w) = e.text ++ rootText root behind w := by
  unfold rootText
  rw [tagText_cons, List.append_assoc]

/-- How children end: whether their element is closed, the place behind, and the tags that are
left from where they end. -/
inductive ChildrenEnd (root : String) (behind : List Char) (stack : List String) (tag : String) :
    Bool → Cursor → List TagEvent → Prop where
  /-- At the closing tag of their element. -/
  | own {stop : Cursor} {left : List TagEvent} (hstop : stop.rest = rootText root behind left) :
      ChildrenEnd root behind stack tag true stop (.closing tag :: left)
  /-- In front of the closing tag of an element further out. -/
  | outer {stop : Cursor} {left : List TagEvent} {t : String} (ht : t ∈ stack) (hne : t ≠ tag)
      (hstop : stop.rest = rootText root behind left) :
      ChildrenEnd root behind stack tag false stop left
  /-- At the closing tag of the root. -/
  | root {stop : Cursor} (htag : tag = root) (hstop : stop.rest = behind) :
      ChildrenEnd root behind stack tag true stop []

/-- A scan of the children of an element is too deep, or it accounts for the tags up to the place
where they end. -/
def TakesChildren (root : String) (behind : List Char) (stack : List String) (tag : String)
    (w : List TagEvent) (result : Except Anomaly (Scanned Inside bound)) : Prop :=
  (∃ line, result = .error (.tooDeep line)) ∨
    ∃ inside found stop taken left, Yields result inside found stop ∧ Accounts taken found ∧
      w = taken ++ left ∧ ChildrenEnd root behind stack tag inside.closed stop left

/-- A scan of an element is too deep, or it accounts for the tags that it takes. -/
def TakesElement (root : String) (behind : List Char) (w : List TagEvent)
    (result : Except Anomaly (Scanned Unit bound)) : Prop :=
  (∃ line, result = .error (.tooDeep line)) ∨
    ∃ found stop taken left, Yields result () found stop ∧ Accounts taken found ∧
      w = taken ++ left ∧ taken ≠ [] ∧ stop.rest = rootText root behind left

theorem TakesChildren.after {result : Except Anomaly (Scanned Inside bound)} {u : List TagEvent}
    {earlier : Findings} {g : Inside → Inside} (h : TakesChildren root behind stack tag w result)
    (hu : Accounts u earlier) (hg : ∀ i, (g i).closed = i.closed) :
    TakesChildren root behind stack tag (u ++ w) (result.map (Scanned.after earlier g)) := by
  rcases h with ⟨line, rfl⟩ | ⟨inside, found, stop, taken, left, hyields, htaken, rfl, hend⟩
  · exact .inl ⟨line, rfl⟩
  · refine .inr ⟨g inside, earlier ++ found, stop, u ++ taken, left, hyields.after earlier g,
      hu.append htaken, (List.append_assoc ..).symm, ?_⟩
    rwa [hg]

/-- An element takes its opening tag, what its children take, and its closing tag if its children
end at it. -/
theorem takesElement_opening {t : String} (ht : IsTag t.toList) (hroot : t ≠ root)
    (hc : c.rest = rootText root behind (.opening t :: w))
    (hchildren : ∀ bound (d : Cursor) (hd : d.rest.length ≤ bound),
      d.rest = rootText root behind w →
      TakesChildren root behind (stack ++ [t]) t w
        (scanChildren (scanElement nesting) (stack ++ [t]) t bound d hd)) :
    TakesElement root behind (.opening t :: w) (scanElement (nesting + 1) stack c) := by
  rw [rootText_cons] at hc
  obtain ⟨e, d, bound, hd, hdrest, hyields, herror⟩ :=
    scanElementWith_openingEvent (scanElement nesting) stack ht hc
  rcases hchildren bound d hd
    hdrest with ⟨line, hdeep⟩ | ⟨inside, found, stop, taken, left, hinside, htaken, rfl, hend⟩
  · exact .inl ⟨line, herror _ hdeep⟩
  · have helement := hyields _ _ _ hinside
    unfold Findings.missingClose at helement
    cases hclosed : inside.closed with
    | true =>
      rw [hclosed] at hend helement
      cases hend with
      | @own _ left hstop =>
        refine .inr ⟨_, stop, .opening t :: (taken ++ [.closing t]), left, helement,
          htaken.element t _, ?_, List.cons_ne_nil _ _, hstop⟩
        simp
      | root htag => exact absurd htag hroot
    | false =>
      rw [hclosed] at hend helement
      cases hend with
      | outer _ _ hstop =>
        exact .inr ⟨_, stop, .opening t :: taken, left, helement, htaken.unclosed t _ _, rfl,
          List.cons_ne_nil _ _, hstop⟩

theorem takesElement_selfClosing (nesting : Nat) (stack : List String) {t : String}
    (ht : IsTag t.toList) (hc : c.rest = rootText root behind (.selfClosing t :: w)) :
    TakesElement root behind (.selfClosing t :: w) (scanElement nesting stack c) := by
  rw [rootText_cons] at hc
  cases nesting with
  | zero => exact .inl ⟨c.line, rfl⟩
  | succ nesting =>
    obtain ⟨e, stop, hstop, helement⟩ :=
      yields_selfClosingEvent (scanElement nesting) stack ht hc
    exact .inr ⟨.element e, stop, [.selfClosing t], w, helement, accounts_selfClosing t e, rfl,
      List.cons_ne_nil _ _, hstop⟩

/-- Children that start with an element go on with the tags that the element leaves. -/
theorem TakesChildren.element {element : ElementScanner} {rest : List Char}
    (hsign : c.rest = '<' :: rest) (hhead : rest.head? ≠ some '/')
    (helement : TakesElement root behind w (element stack c)) (hc : c.rest.length ≤ bound)
    (hlater : ∀ (taken left : List TagEvent) (stop : Cursor) (h : stop.rest.length ≤ bound),
      w = taken ++ left → left.length < w.length → stop.rest = rootText root behind left →
      TakesChildren root behind stack tag left (scanChildren element stack tag bound stop h)) :
    TakesChildren root behind stack tag w (scanChildren element stack tag bound c hc) := by
  rcases helement with ⟨line, hdeep⟩ |
    ⟨found, stop, taken, left, hyields, htaken, rfl, hne, hstop⟩
  · exact .inl ⟨line, scanChildren_element_error hsign hhead hdeep hc⟩
  · obtain ⟨h, hscan⟩ := continues_element tag bound hsign hhead hyields hc
    have hshorter : left.length < (taken ++ left).length := by
      have hpos := List.length_pos_iff.2 hne
      rw [List.length_append]
      omega
    rw [hscan]
    exact (hlater taken left stop h rfl hshorter hstop).after htaken fun _ => rfl

/-- The children of every element below the root account for their tags. The induction is on the
number of tags: what an element leaves is less than what it started with, and its children start
behind its opening tag. -/
theorem takesChildren (hroot : IsTag root.toList) (hstack : root ∈ stack)
    (hw : ∀ e ∈ w, IsTag e.tag.toList ∧ e.tag ≠ root) (hc : c.rest.length ≤ bound)
    (hrest : c.rest = rootText root behind w) :
    TakesChildren root behind stack tag w
      (scanChildren (scanElement nesting) stack tag bound c hc) := by
  induction hlength : w.length using Nat.strongRecOn generalizing nesting stack tag w c bound with
  | ind length ih =>
    subst hlength
    cases w with
    | nil =>
      obtain ⟨hname, hend⟩ := closing_of_rest hroot.2 hrest
      by_cases htag : root = tag
      · have hscan := scanChildren_own (scanElement nesting) stack hrest hend
          (hname.trans htag) hc
        exact .inr ⟨_, _, _, [], [], hscan, accounts_nil, rfl, .root htag.symm (by simp [hend])⟩
      · have hscan := scanChildren_outer (scanElement nesting) hrest hend (by rwa [hname])
          (by simpa [hname] using hstack) hc
        exact .inr ⟨_, _, _, [], [], hscan, accounts_nil, rfl, .outer hstack htag hrest⟩
    | cons e w =>
      obtain ⟨ht, hne⟩ := hw e List.mem_cons_self
      have hlater : ∀ e ∈ w, IsTag e.tag.toList ∧ e.tag ≠ root :=
        fun e he => hw e (List.mem_cons_of_mem _ he)
      have hsign := hrest
      rw [rootText_cons] at hsign
      cases e with
      | closing t =>
        obtain ⟨hname, hend⟩ := closing_of_rest (t := t) ht.2 hsign
        by_cases htag : t = tag
        · subst htag
          have hscan := scanChildren_own (scanElement nesting) stack hsign hend hname hc
          exact .inr ⟨_, _, _, [], _, hscan, accounts_nil, rfl, .own (by simp [hend])⟩
        · by_cases hopen : t ∈ stack
          · have hscan := scanChildren_outer (scanElement nesting) hsign hend (by rwa [hname])
              (by simpa [hname] using hopen) hc
            exact .inr ⟨_, _, _, [], _, hscan, accounts_nil, rfl, .outer hopen htag hrest⟩
          · obtain ⟨h, hscan⟩ := continues_stray (scanElement nesting) hsign hend (by rwa [hname])
              (by simpa [hname] using hopen) hc
            rw [hscan, hname]
            refine TakesChildren.after ?_ (accounts_stray t c.line) fun _ => rfl
            exact ih w.length (Nat.lt_succ_self _) hstack hlater h (by simp [hend]) rfl
      | selfClosing t =>
        have helement := takesElement_selfClosing nesting stack ht hrest
        refine TakesChildren.element hsign (head?_of_isTag ht) helement hc ?_
        intro taken left stop h hleft hshorter hstop
        exact ih left.length hshorter hstack
          (fun e he => hw e (hleft ▸ List.mem_append_right taken he)) h hstop rfl
      | opening t =>
        have helement : TakesElement root behind (.opening t :: w)
            (scanElement nesting stack c) := by
          cases nesting with
          | zero => exact .inl ⟨c.line, rfl⟩
          | succ nesting =>
            refine takesElement_opening ht hne hrest fun bound d hd hdrest => ?_
            exact ih w.length (Nat.lt_succ_self _) (List.mem_append_left _ hstack) hlater hd
              hdrest rfl
        refine TakesChildren.element hsign (head?_of_isTag ht) helement hc ?_
        intro taken left stop h hleft hshorter hstop
        exact ih left.length hshorter hstack
          (fun e he => hw e (hleft ▸ List.mem_append_right taken he)) h hstop rfl

end Accounting

/-! ## Sources with one root element -/

/-- A name is not empty and has only characters of names in it. -/
def IsName (name : String) : Prop :=
  name.toList ≠ [] ∧ ∀ ch ∈ name.toList, isNameChar ch = true

theorem IsName.isTag {name : String} (h : IsName name) : IsTag name.toList :=
  ⟨h.1, fun ch hch => isTagChar_of_isNameChar (h.2 ch hch)⟩

/-- What stands in front of the root element. -/
def rootPrefix : List Char :=
  "const A = () => (".toList

/-- The root element with the given tags in it, up to the end of the source. -/
def rootElementText (root : String) (w : List TagEvent) : List Char :=
  TagEvent.text (.opening root) ++ rootText root [')', ';'] w

/-- The source of a component that returns a root element with the given tags in it. -/
def rootedSource (root : String) (w : List TagEvent) : String :=
  String.ofList (rootPrefix ++ rootElementText root w)

section Rooted

variable {root : String} {w : List TagEvent}

theorem rootElementText_eq (root : String) (w : List TagEvent) :
    rootElementText root w = '<' :: (root.toList ++ '>' :: rootText root [')', ';'] w) := by
  simp [rootElementText, TagEvent.text]

/-- A letter behind a less-than sign in place of an operand makes an element of it. -/
theorem step_rootElement (hroot : IsName root)
    (hletter : ∀ ch ∈ root.toList.head?, isAlphabetic ch = true)
    (line : Nat) : (Cursor.mk rootPrefix.reverse (rootElementText root w) line).step =
      .element := by
  rw [rootElementText_eq]
  have hblank : isBlank '>' = false := by decide
  refine step_element _ ?_ (startsTypeParameters_eq_false hroot.2 (by rintro ch ⟨⟩; decide)
    (by simp [hblank]) (by
      rw [List.dropWhile_cons, hblank]; simp [show isNameChar '>' = false by decide]))
  obtain ⟨ch, name, hname⟩ := List.exists_cons_of_ne_nil hroot.1
  have hch : isAlphabetic ch = true := hletter ch (by rw [hname]; rfl)
  have hplace : operandMayFollow rootPrefix.reverse = true := by decide
  simp only [hname, List.cons_append, elementMayStart, hch, hplace, Bool.true_or, Bool.and_self]

/-- The scan of the source is that of its root element. -/
theorem scanSource_rootedSource (hroot : IsName root)
    (hletter : ∀ ch ∈ root.toList.head?, isAlphabetic ch = true) :
    ∃ c : Cursor, c.rest = rootElementText root w ∧
      (∀ reason, scanElement maxNesting [] c = .error reason →
        scanSource (rootPrefix ++ rootElementText root w) = .error reason) ∧
      ∀ found stop, Yields (scanElement maxNesting [] c) () found stop → stop.rest = [')', ';'] →
        scanSource (rootPrefix ++ rootElementText root w) = .ok found := by
  have hprefix : Passable rootPrefix := passable_of_inert (by decide)
  have hsuffix : Passable [')', ';'] := passable_of_inert (by decide)
  have hrun := hprefix [] (rootElementText root w) 1 0
  rw [List.append_nil] at hrun
  have hstep := step_rootElement (w := w) hroot hletter (1 + Text.newlines rootPrefix)
  have hne : rootElementText root w ≠ [] := by
    rw [rootElementText_eq]
    exact List.cons_ne_nil _ _
  refine ⟨_, rfl, fun reason => scanSource_element_error hrun hstep hne, ?_⟩
  intro found stop hyields hstop
  obtain ⟨before, rest, line⟩ := stop
  obtain rfl : rest = [')', ';'] := hstop
  exact scanSource_element hrun hstep hne hyields (hsuffix before [] line 0) rfl

/-- The children of the root element end at its closing tag, or they are too deep. -/
theorem rootChildren_cases (hroot : IsName root) (hw : ∀ e ∈ w, IsName e.tag ∧ e.tag ≠ root)
    {bound : Nat} {d : Cursor} (hd : d.rest.length ≤ bound)
    (hrest : d.rest = rootText root [')', ';'] w) :
    (∃ line, scanChildren (scanElement 99) [root] root bound d hd = .error (.tooDeep line)) ∨
      ∃ inside found stop, Yields (scanChildren (scanElement 99) [root] root bound d hd) inside
        found stop ∧
        inside.closed = true ∧ stop.rest = [')', ';'] ∧ Accounts w found := by
  have htakes : TakesChildren root _ [root] root w
      (scanChildren (scanElement 99) [root] root bound d hd) :=
    takesChildren hroot.isTag List.mem_cons_self (fun e he => ⟨(hw e he).1.isTag, (hw e he).2⟩)
      hd hrest
  rcases htakes with hdeep | ⟨inside, found, stop, taken, left, hyields, htaken, hleft, hend⟩
  · exact .inl hdeep
  · refine .inr ⟨inside, found, stop, hyields, ?_⟩
    generalize hclosed : inside.closed = closed at hend
    cases hend with
    | own =>
      have hmem : TagEvent.closing root ∈ w := by simp [hleft]
      exact absurd rfl (hw _ hmem).2
    | outer ht hne => exact absurd (List.mem_singleton.1 ht) hne
    | root _ hstop =>
      rw [List.append_nil] at hleft
      exact ⟨rfl, hstop, hleft ▸ htaken⟩

/-- Nested tags in the root element are not too deep if there are at most 99 levels of them, and
nothing is reported about them. -/
theorem rootChildren_nested (hroot : IsName root) (hw : ∀ e ∈ w, IsName e.tag ∧ e.tag ≠ root)
    {m : Nat} (hnested : NestedWithin m w) {bound : Nat} {d : Cursor} (hd : d.rest.length ≤ bound)
    (hrest : d.rest = rootText root [')', ';'] w) :
    (99 < m ∧ ∃ line, scanChildren (scanElement 99) [root] root bound d hd =
      .error (.tooDeep line)) ∨
      ∃ inside found stop, Yields (scanChildren (scanElement 99) [root] root bound d hd) inside
        found stop ∧
        found.Clean := by
  have hinside : GoesOn 99 m [root] root bound d _ :=
    goesOn_nested hnested (fun e he => (hw e he).1.isTag) hrest
  rcases hinside with ⟨hneeded, hdeep⟩ | ⟨d', found, f, hrest', hfound, -, hscan⟩
  · exact .inl ⟨hneeded, hdeep hd⟩
  · obtain ⟨hname, hend⟩ := closing_of_rest hroot.isTag.2 hrest'
    have hown := hscan.yields (fun _ => scanChildren_own _ _ hrest' hend hname _) hd
    rw [Findings.append_none] at hown
    exact .inr ⟨_, found, _, hown, hfound⟩

/-- The root element is too deep, or its closing tag is found and its findings account for the
tags in it. -/
theorem rootElement_cases (hroot : IsName root) (hw : ∀ e ∈ w, IsName e.tag ∧ e.tag ≠ root)
    {c : Cursor} (hrest : c.rest = rootElementText root w) :
    (∃ line, scanElement maxNesting [] c = .error (.tooDeep line) ∧ ¬ NestedWithin 99 w) ∨
      ∃ found stop, Yields (scanElement maxNesting [] c) () found stop ∧ stop.rest = [')', ';'] ∧
        EachOnce w found.unclosed found.unexpectedClosings ∧ (found.Clean ↔ WellNested w) := by
  obtain ⟨e, d, bound, hd, hdrest, hyields, herror⟩ :=
    scanElementWith_openingEvent (scanElement 99) [] hroot.isTag hrest
  rcases rootChildren_cases hroot hw hd hdrest with
    ⟨line, hdeep⟩ | ⟨inside, found, stop, hinside, hclosed, hstop, htaken⟩
  · refine .inl ⟨line, herror _ hdeep, fun hnested => ?_⟩
    rcases rootChildren_nested hroot hw hnested hd hdrest with ⟨hlt, -⟩ | ⟨_, _, _, hok, -⟩
    · exact absurd hlt (Nat.lt_irrefl 99)
    · exact hok.ne_error _ hdeep
  · have helement := hyields _ _ _ hinside
    rw [Findings.missingClose, hclosed, if_pos rfl, Findings.append_none] at helement
    refine .inr ⟨_, stop, helement, hstop, htaken.eachOnce,
      fun hclean => htaken.nested hclean.1 hclean.2, ?_⟩
    rintro ⟨m, hnested⟩
    rcases rootChildren_nested hroot hw hnested hd
      hdrest with ⟨-, line, hdeep⟩ | ⟨_, _, _, hok, hclean⟩
    · exact absurd hdeep (hinside.ne_error _)
    · rw [hinside.findings_eq hok]
      exact (Findings.clean_element _).append hclean

/-- Below a root element whose name starts with a letter, tags are paired exactly. The source is
too deep, but not if its tags pair with at most 99 levels of them; or every tag is in one pair or
reported once, and nothing is reported exactly if the tags pair. -/
theorem ofText_rootedSource (hroot : IsName root)
    (hletter : ∀ ch ∈ root.toList.head?, isAlphabetic ch = true)
    (hw : ∀ e ∈ w, IsName e.tag ∧ e.tag ≠ root) :
    (∃ line, Structure.ofText (rootedSource root w) = .error (.tooDeep line) ∧
      ¬ NestedWithin 99 w) ∨
      ∃ s, Structure.ofText (rootedSource root w) = .ok s ∧
        (s.unclosed = [] ∧ s.unexpectedClosings = [] ↔ WellNested w) ∧
        EachOnce w s.unclosed s.unexpectedClosings ∧
        ((w.filterMap TagEvent.opened?).length : Int) - s.unclosed.length =
          (w.filterMap TagEvent.closed?).length - s.unexpectedClosings.length := by
  have hmem : 'c' ∈ rootPrefix ++ rootElementText root w := List.mem_append_left _ (by decide)
  have htext : Structure.ofText (rootedSource root w) = _ := ofText_of_scanSource hmem (by decide)
  obtain ⟨c, hrest, herror, hok⟩ := scanSource_rootedSource (w := w) hroot hletter
  rcases rootElement_cases hroot hw
    hrest with ⟨line, hdeep, hnested⟩ | ⟨found, stop, hyields, hstop, honce, hclean⟩
  · refine .inl ⟨line, ?_, hnested⟩
    rw [htext, herror _ hdeep]
    rfl
  · rw [hok found stop hyields hstop] at htext
    exact .inr ⟨_, htext, hclean, honce, honce.length_sub⟩

theorem ofText_rootedSource_nested :
    ∃ s, Structure.ofText (rootedSource "R" [.opening "a", .selfClosing "b", .closing "a"]) =
      .ok s ∧
      s.unclosed = [] ∧ s.unexpectedClosings = [] := by
  have hnested : NestedWithin 2 [.opening "a", .selfClosing "b", .closing "a"] :=
    .element "a" (.selfClosing "b" (.nil 1)) (.nil 2)
  have hroot : IsName "R" := by
    unfold IsName
    decide
  rcases ofText_rootedSource (w := [.opening "a", .selfClosing "b", .closing "a"])
    hroot (by decide) (by unfold IsName; decide) with ⟨_, _, hdeep⟩ | ⟨s, hs, hclean, -, -⟩
  · exact absurd (hnested.mono (by omega)) hdeep
  · exact ⟨s, hs, hclean.2 ⟨2, hnested⟩⟩

/-- A name that starts with a low line opens no element in script text, so nothing in the root is
read as a tag: an open tag in it is neither paired nor reported. -/
theorem ofText_rootedSource_lowLine :
    IsName "_R" ∧ (∀ e ∈ [TagEvent.opening "a"], IsName e.tag ∧ e.tag ≠ "_R") ∧
      ¬ WellNested [.opening "a"] ∧
      ∃ s, Structure.ofText (rootedSource "_R" [.opening "a"]) = .ok s ∧ s.unclosed = [] ∧
        s.unexpectedClosings = [] := by
  refine ⟨by unfold IsName; decide, by unfold IsName; decide,
    fun h => absurd h.length_eq (by decide), ?_⟩
  have hscan : ((Structure.ofText (rootedSource "_R" [.opening "a"])).toOption.map fun s =>
      (s.unclosed, s.unexpectedClosings)) = some ([], []) := by
    decide +kernel
  cases hs : Structure.ofText (rootedSource "_R" [.opening "a"]) with
  | error reason =>
    rw [hs] at hscan
    cases hscan
  | ok s =>
    rw [hs] at hscan
    obtain ⟨hunclosed, hunexpected⟩ := Prod.mk.inj (Option.some.inj hscan)
    exact ⟨s, rfl, hunclosed, hunexpected⟩

end Rooted

end DesignCompiler.Markup
