import DesignCompiler.Proofs.Catalog.Names
import DesignCompiler.Proofs.Synthesis.Literals
import DesignCompiler.Synthesis.Element

/-!
# Written trees read back

The elements that a mapped tree shows, and the proof that a scan of the written tree finds exactly
these. `shown` is what the tree says by itself; nothing in it depends on the layout. A draft
without a fault is opened once, in `write_of_fault_eq_none`; behind it the scan follows the tree,
an element at a time and its children in between.
-/

namespace DesignCompiler.Synthesis

open Markup (Element Attribute SpelledAttribute Spelling IsTag Inside Continues Reads Findings
  Cursor scanElement scanElementWith tagStart)
open Mapping (MappedNode)
open Text (isBlank isNameChar)

/-! ## What a tree shows -/

/-- The tag of a node: the name of its catalog entry. -/
def tagOf (node : MappedNode) : String :=
  (node.entry.map (·.name)).getD ""

/-- The attributes of a node: the properties that are not null in the order of their names, then
the style. -/
def shownAttributes (node : MappedNode) : List Attribute :=
  node.props.entries.filterMap (fun p => (shownValue p.2).map fun value => ⟨p.1, value, 0⟩) ++
    match node.style with
    | some style =>
      if style.isEmpty then []
      else [⟨"style", .expression (String.ofList (styleObject style)), 0⟩]
    | none => []

/-- The element of a node inside the given ancestors. Its text is that of the node with single
blanks between the words, or empty if the text had to be written as an expression. -/
def shownElement (ancestors : List String) (node : MappedNode) : Element where
  tag := tagOf node
  attributes := shownAttributes node
  line := 0
  ancestors
  text := (node.text.map fun text => Markup.collapse (plainText text)).getD ""
  hasExpressionChild := (node.text.map fun text => needsExpression text.toList).getD false
  hasElementChild := !node.children.isEmpty
  selfClosing := node.children.isEmpty && node.text.isNone

mutual

/-- The elements of a tree, a node before its children. -/
def shown (ancestors : List String) : MappedNode → List Element
  | node@⟨_, _, _, _, _, _, _, _, children⟩ =>
    shownElement ancestors node :: shownAll (ancestors ++ [tagOf node]) children

/-- The elements of trees in order. -/
def shownAll (ancestors : List String) : List MappedNode → List Element
  | [] => []
  | node :: rest => shown ancestors node ++ shownAll ancestors rest

end

theorem shown_eq (ancestors : List String) (node : MappedNode) :
    shown ancestors node =
      shownElement ancestors node :: shownAll (ancestors ++ [tagOf node]) node.children := by
  cases node
  rw [shown]

/-! ## Drafts -/

namespace Draft

@[simp] theorem append_eq (a b : Draft) : a ++ b = append a b := rfl

/-- The fault of two drafts is the first one. -/
theorem fault_append (a b : Draft) : (a ++ b).fault = a.fault.or b.fault := by
  rw [append_eq, append]
  cases hfault : a.fault with
  | none => rfl
  | some fault => simp [hfault]

theorem fault_append_eq_none {a b : Draft} :
    (a ++ b).fault = none ↔ a.fault = none ∧ b.fault = none := by
  rw [fault_append, Option.or_eq_none_iff]

theorem text_append {a b : Draft} (ha : a.fault = none) : (a ++ b).text = a.text ++ b.text := by
  rw [append_eq, append, ha]

theorem imports_append {a b : Draft} (ha : a.fault = none) :
    (a ++ b).imports = a.imports ++ b.imports := by
  rw [append_eq, append, ha]

end Draft

/-! ## The text of a tree -/

section Text

variable {options : Options} {depth : Nat} {node : MappedNode} {entry : Catalog.Entry}

/-- What stands behind the opening tag of a node. -/
def insideText (options : Options) (depth : Nat) (entry : Catalog.Entry) (node : MappedNode) :
    List Char :=
  match node.children with
  | [] =>
    match node.text with
    | some text => '>' :: (childText text ++ closingText entry)
    | none => " />".toList
  | _ :: _ =>
    '>' :: '\n' :: ((match node.text with
      | some text => line options (depth + 3) (childText text)
      | none => []) ++
      ((writeAll options (depth + 1) node.children).text ++
        (indentation options (depth + 2) ++ closingText entry)))

/-- A node that was written can be written, and so can its children. Its text is a line that
starts with its opening tag, and the import of its entry comes before those of its children. -/
theorem write_of_fault_eq_none (h : (write options depth node).fault = none) :
    ∃ entry, writableEntry options depth node = .ok entry ∧
      (writeAll options (depth + 1) node.children).fault = none ∧
      (write options depth node).text =
        line options (depth + 2) (openingText entry node ++ insideText options depth entry node) ∧
      (write options depth node).imports =
        (entry.module, entry.importName) ::
          (writeAll options (depth + 1) node.children).imports := by
  obtain ⟨id, name, component, own, confidence, props, style, text, children⟩ := node
  rw [write] at h ⊢
  cases hentry : writableEntry options depth
    ⟨id, name, component, own, confidence, props, style, text, children⟩ with
  | error fault =>
    rw [hentry] at h
    cases h
  | ok entry =>
    rw [hentry] at h
    cases children with
    | nil => exact ⟨entry, rfl, by rw [writeAll]; rfl, rfl, by rw [writeAll]; rfl⟩
    | cons first rest =>
      obtain ⟨-, hbody⟩ := Draft.fault_append_eq_none.1 h
      obtain ⟨hhead, -⟩ := Draft.fault_append_eq_none.1 hbody
      obtain ⟨-, hchildren⟩ := Draft.fault_append_eq_none.1 hhead
      refine ⟨entry, rfl, hchildren, ?_, ?_⟩
      · simp only
        rw [Draft.text_append rfl, Draft.text_append hhead, Draft.text_append rfl]
        cases text <;> simp [Draft.ofText, headText, insideText, line]
      · simp only
        rw [Draft.imports_append rfl, Draft.imports_append hhead, Draft.imports_append rfl]
        simp [Draft.ofText]

/-- A node that can be written lies within the depth, has an entry with a valid name, and its
properties have names of attributes. -/
theorem writableEntry_eq_ok (h : writableEntry options depth node = .ok entry) :
    depth < options.maxDepth ∧ node.entry = some entry ∧
      Catalog.isComponentName entry.name = true ∧
      ∀ name ∈ node.props.keys, isAttributeName name = true := by
  unfold writableEntry at h
  split at h
  · cases h
  · rename_i hdepth
    split at h
    · cases h
    · rename_i entry' hentry
      split at h
      · rename_i hname
        split at h
        · cases h
        · rename_i hkeys
          cases h
          refine ⟨Nat.lt_of_not_le hdepth, hentry, hname, ?_⟩
          intro name hmem
          have hall := List.find?_eq_none.1 hkeys name hmem
          simpa using hall
      · cases h

end Text

/-! ## Attributes -/

/-- The attributes of a node with their spellings. -/
def spelledAttributes (node : MappedNode) : List SpelledAttribute :=
  node.props.entries.filterMap (fun p => (spellingOf p.2).map fun spelling => ⟨p.1, spelling⟩) ++
    match node.style with
    | some style => if style.isEmpty then [] else [⟨"style", .braces (styleObject style)⟩]
    | none => []

theorem readBack_spelledAttributes (node : MappedNode) :
    (spelledAttributes node).map SpelledAttribute.readBack = shownAttributes node := by
  unfold spelledAttributes shownAttributes
  rw [List.map_append]
  congr 1
  · exact readBack_spelledProperties node.props.entries
  · cases node.style with
    | none => rfl
    | some style =>
      by_cases hempty : style.isEmpty = true
      · simp [hempty]
      · simp [hempty, SpelledAttribute.readBack, Spelling.value]

theorem attributesOf_eq (node : MappedNode) :
    attributesOf node = (spelledAttributes node).map SpelledAttribute.text := by
  unfold spelledAttributes attributesOf
  rw [List.map_append]
  congr 1
  · exact (text_spelledProperties node.props.entries).symm
  · cases node.style with
    | none => rfl
    | some style =>
      by_cases hempty : style.isEmpty = true
      · simp [hempty]
      · simp [hempty, SpelledAttribute.text, Spelling.text, styleText, styleObject, inBraces]

theorem readable_spelledAttributes {node : MappedNode}
    (h : ∀ name ∈ node.props.keys, isAttributeName name = true) :
    ∀ a ∈ spelledAttributes node, a.Readable := by
  intro a ha
  rcases List.mem_append.1 ha with ha | ha
  · exact readable_spelledProperties (fun p hp => h p.1 (List.mem_map_of_mem hp)) a ha
  · split at ha
    · split at ha
      · cases ha
      · rw [List.mem_singleton] at ha
        subst ha
        have hstyle : isAttributeName "style" = true := by decide
        obtain ⟨htag, hhead⟩ := isTag_of_isAttributeName hstyle
        exact ⟨htag, hhead, passable_styleObject _⟩
    · cases ha

theorem openingText_eq (entry : Catalog.Entry) (node : MappedNode) (gap : List Char) :
    openingText entry node ++ gap = tagStart entry.name (spelledAttributes node) gap := by
  unfold openingText tagStart
  rw [attributesOf_eq, List.flatMap_map]
  simp [Markup.attributeText]

/-! ## Reading a tree back -/

section Reading

variable {options : Options} {node : MappedNode} {entry : Catalog.Entry}

/-- White space that is laid out around elements and texts. -/
theorem isPlain_of_isBlank {ch : Char} (hch : isBlank ch = true) : Markup.isPlain ch = true := by
  unfold Markup.isPlain
  have hsign : ch ≠ '<' := by rintro rfl; exact absurd hch (by decide)
  have hbrace : ch ≠ '\x7b' := by rintro rfl; exact absurd hch (by decide)
  simp [hsign, hbrace]

theorem isBlank_of_mem_indentation {level : Nat} {ch : Char}
    (h : ch ∈ indentation options level) :
    isBlank ch = true := by
  rw [List.eq_of_mem_replicate h]
  decide

/-- The children of an element are read back wherever they stand: the scan finds what they show
and goes on behind them, with only blanks between the elements. -/
def ReadsAll (options : Options) (nodes : List MappedNode) : Prop :=
  ∀ {depth : Nat} (nesting : Nat) (stack : List String) (tag : String) (bound : Nat)
    {c : Cursor} {tail : List Char},
    (writeAll options depth nodes).fault = none → options.maxDepth ≤ depth + nesting →
    c.rest = (writeAll options depth nodes).text ++ tail →
    ∃ d found f blanks, Continues (scanElement nesting) stack tag bound c found f d ∧
      d.rest = tail ∧ found.Clean ∧
      found.elements.map Element.unplaced = shownAll stack nodes ∧
      (∀ ch ∈ blanks, isBlank ch = true) ∧
      ∀ i, f i = { i with text := blanks ++ i.text, hasElement := !nodes.isEmpty || i.hasElement }

/-- A leaf with a text between its tags. -/
theorem reads_textLeaf {nesting depth : Nat} {stack : List String} {c : Cursor} {rest : List Char}
    {text : String} (hentry : writableEntry options depth node = .ok entry)
    (hchildren : node.children = []) (htext : node.text = some text)
    (hc : c.rest = openingText entry node ++ (insideText options depth entry node ++ rest)) :
    Reads (scanElement (nesting + 1) stack c) (shown stack node) rest := by
  obtain ⟨-, hnode, hname, hkeys⟩ := writableEntry_eq_ok hentry
  have htag := Catalog.isTag_of_isComponentName hname
  have hstart : c.rest = tagStart entry.name (spelledAttributes node) [] ++ '>' ::
      (childText text ++ (closingText entry ++ rest)) := by
    rw [hc, ← openingText_eq]
    simp [insideText, hchildren, htext]
  rw [shown_eq, hchildren, shownAll]
  refine Markup.reads_closed htag (readable_spelledAttributes hkeys) (by simp) hstart ?_
  intro bound d hd
  obtain ⟨e, he, hcontinues⟩ := continues_childText _ _ _ bound hd
  refine ⟨_, _, e, hcontinues, by rw [he]; simp [closingText], Findings.clean_none, rfl, rfl, ?_⟩
  rw [readBack_spelledAttributes]
  simp [shownElement, hchildren, htext, tagOf, hnode, Element.filled, Element.bare]

/-- A leaf without a text is a self-closing tag. -/
theorem reads_emptyLeaf {nesting depth : Nat} {stack : List String} {c : Cursor}
    {rest : List Char} (hentry : writableEntry options depth node = .ok entry)
    (hchildren : node.children = []) (htext : node.text = none)
    (hc : c.rest = openingText entry node ++ (insideText options depth entry node ++ rest)) :
    Reads (scanElement (nesting + 1) stack c) (shown stack node) rest := by
  obtain ⟨-, hnode, hname, hkeys⟩ := writableEntry_eq_ok hentry
  have htag := Catalog.isTag_of_isComponentName hname
  have hstart : c.rest =
      tagStart entry.name (spelledAttributes node) [' '] ++ '/' :: '>' :: rest := by
    rw [hc, ← openingText_eq]
    simp [insideText, hchildren, htext]
  have hread :=
    Markup.reads_selfClosing (scanElement nesting) stack htag (readable_spelledAttributes hkeys)
      (by decide) hstart
  have hshown : shown stack node = [.bare entry.name (shownAttributes node) 0 stack true] := by
    rw [shown_eq, hchildren, shownAll]
    simp [shownElement, hchildren, htext, tagOf, hnode, Element.bare]
  rw [hshown, ← readBack_spelledAttributes]
  exact hread

/-- White space around a text does not show. -/
theorem collapse_between (before after : List Char) (hbefore : ∀ ch ∈ before, isBlank ch = true)
    (hafter : ∀ ch ∈ after, isBlank ch = true) (s : List Char) :
    Markup.collapse (before ++ (s ++ after)) = Markup.collapse s := by
  unfold Markup.collapse
  rw [Text.words_blank_append hbefore, Text.words_append_blank hafter]

/-- The line of a text in front of the children of its node. -/
theorem continues_textLine (element : Markup.ElementScanner) (stack : List String) (tag : String)
    (bound : Nat) {c : Cursor} {level : Nat} {text : Option String} {rest : List Char}
    (hc : c.rest = (match text with
      | some text => line options level (childText text)
      | none => []) ++ rest) :
    ∃ d f before after, Continues element stack tag bound c .none f d ∧ d.rest = rest ∧
      (∀ ch ∈ before, isBlank ch = true) ∧ (∀ ch ∈ after, isBlank ch = true) ∧
      ∀ i, f i = { i with
        text := before ++ ((text.map plainText).getD [] ++ (after ++ i.text))
        hasExpression :=
          (text.map fun text => needsExpression text.toList).getD false || i.hasExpression } := by
  cases text with
  | none =>
    refine ⟨c, id, [], [], .refl c, hc, by simp, by simp, fun i => ?_⟩
    simp
  | some text =>
    have hblank : ∀ ch ∈ indentation options level, isBlank ch = true :=
      fun _ => isBlank_of_mem_indentation
    have hindentation : c.rest =
        indentation options level ++ (childText text ++ ('\n' :: rest)) := by
      simp [hc, line]
    obtain ⟨d, hd, hfirst⟩ := Markup.continues_plain element stack tag bound
      (fun ch hch => isPlain_of_isBlank (hblank ch hch)) hindentation
    obtain ⟨e, he, hsecond⟩ := continues_childText element stack tag bound hd
    obtain ⟨g, hg, hthird⟩ :=
      Markup.continues_plain element stack tag bound (s := ['\n']) (by decide) he
    exact ⟨g, _, indentation options level, ['\n'], hfirst.trans (hsecond.trans hthird), hg,
      hblank, by decide, fun i => rfl⟩

/-- A node with children, when these are read back. -/
theorem reads_inner {nesting depth : Nat} {stack : List String} {c : Cursor} {rest : List Char}
    (hentry : writableEntry options depth node = .ok entry) (hchildren : node.children ≠ [])
    (hall : ReadsAll options node.children)
    (hwritten : (writeAll options (depth + 1) node.children).fault = none)
    (hdepth : options.maxDepth ≤ depth + 1 + nesting)
    (hc : c.rest = openingText entry node ++ (insideText options depth entry node ++ rest)) :
    Reads (scanElement (nesting + 1) stack c) (shown stack node) rest := by
  obtain ⟨-, hnode, hname, hkeys⟩ := writableEntry_eq_ok hentry
  have htag := Catalog.isTag_of_isComponentName hname
  have hblank : ∀ ch ∈ indentation options (depth + 2), isBlank ch = true :=
    fun _ => isBlank_of_mem_indentation
  have hstart : c.rest = tagStart entry.name (spelledAttributes node) [] ++ '>' ::
      (['\n'] ++ ((match node.text with
        | some text => line options (depth + 3) (childText text)
        | none => []) ++ ((writeAll options (depth + 1) node.children).text ++
          (indentation options (depth + 2) ++ (closingText entry ++ rest))))) := by
    rw [hc, ← openingText_eq]
    obtain ⟨first, more, hcons⟩ := List.exists_cons_of_ne_nil hchildren
    simp [insideText, hcons]
  rw [shown_eq]
  have htagOf : tagOf node = entry.name := by simp [tagOf, hnode]
  rw [htagOf]
  refine Markup.reads_closed htag (readable_spelledAttributes hkeys) (by simp) hstart ?_
  intro bound d hd
  obtain ⟨d₁, hd₁, hfirst⟩ :=
    Markup.continues_plain (scanElement nesting) (stack ++ [entry.name]) entry.name bound
      (s := ['\n']) (by decide) hd
  obtain ⟨d₂, f, before, after, hsecond, hd₂, hbefore, hafter, hf⟩ :=
    continues_textLine (scanElement nesting) (stack ++ [entry.name]) entry.name bound hd₁
  obtain ⟨d₃, found, g, blanks, hthird, hd₃, hclean, hshown, hblanks, hg⟩ := hall nesting
    (stack ++ [entry.name]) entry.name bound hwritten hdepth hd₂
  obtain ⟨d₄, hd₄, hfourth⟩ :=
    Markup.continues_plain (scanElement nesting) (stack ++ [entry.name]) entry.name bound
      (fun ch hch => isPlain_of_isBlank (hblank ch hch)) hd₃
  have hjoined := hfirst.trans (hsecond.trans (hthird.trans hfourth))
  refine ⟨_, _, d₄, hjoined, by rw [hd₄]; simp [closingText], ?_, ?_, ?_, ?_⟩
  · simpa using hclean
  · simpa using hshown
  · simp [hf, hg]
  · have hempty : node.children.isEmpty = false := by simpa using hchildren
    have htext : Markup.collapse ('\n' :: (before ++ ((node.text.map plainText).getD [] ++
        (after ++ (blanks ++ indentation options (depth + 2)))))) =
        Markup.collapse ((node.text.map plainText).getD []) := by
      have houter :=
        collapse_between ('\n' :: before) (after ++ (blanks ++ indentation options (depth + 2)))
          (by simpa [show isBlank '\n' = true by decide] using hbefore)
          (by
            simp only [List.mem_append]
            rintro ch (h | h | h)
            exacts [hafter ch h, hblanks ch h, hblank ch h])
          ((node.text.map plainText).getD [])
      simpa using houter
    have hshownText : (node.text.map fun text => Markup.collapse (plainText text)).getD "" =
        Markup.collapse ((node.text.map plainText).getD []) := by
      cases node.text <;> rfl
    rw [readBack_spelledAttributes]
    simp [hf, hg, shownElement, htagOf, hempty, htext, hshownText, Element.filled, Element.bare]

/-- Every node that was written is read back when its children are. -/
theorem reads_node {nesting depth : Nat} (stack : List String) {c : Cursor} {rest : List Char}
    (hall : ReadsAll options node.children)
    (hentry : writableEntry options depth node = .ok entry)
    (hwritten : (writeAll options (depth + 1) node.children).fault = none)
    (hdepth : options.maxDepth ≤ depth + nesting)
    (hc : c.rest = openingText entry node ++ (insideText options depth entry node ++ rest)) :
    Reads (scanElement nesting stack c) (shown stack node) rest := by
  obtain ⟨hwithin, -⟩ := writableEntry_eq_ok hentry
  obtain ⟨nesting, rfl⟩ : ∃ n, nesting = n + 1 := ⟨nesting - 1, by omega⟩
  by_cases hchildren : node.children = []
  · cases htext : node.text with
    | some text => exact reads_textLeaf hentry hchildren htext hc
    | none => exact reads_emptyLeaf hentry hchildren htext hc
  · exact reads_inner hentry hchildren hall hwritten (by omega) hc

theorem readsAll_nil : ReadsAll options [] := by
  intro depth nesting stack tag bound c tail hwritten hdepth hc
  rw [writeAll] at hc
  exact ⟨c, .none, id, [], .refl c, hc, Findings.clean_none, rfl, by simp, fun i => by simp⟩

theorem readsAll_cons {nodes : List MappedNode} (hnode : ReadsAll options node.children)
    (hnodes : ReadsAll options nodes) : ReadsAll options (node :: nodes) := by
  intro depth nesting stack tag bound c tail hwritten hdepth hc
  rw [writeAll] at hwritten hc
  obtain ⟨hfirst, hlater⟩ := Draft.fault_append_eq_none.1 hwritten
  obtain ⟨entry, hentry, hchildren, htext, -⟩ := write_of_fault_eq_none hfirst
  have hblank : ∀ ch ∈ indentation options (depth + 2), isBlank ch = true :=
    fun _ => isBlank_of_mem_indentation
  have hindentation : c.rest = indentation options (depth + 2) ++ (openingText entry node ++
      (insideText options depth entry node ++
        ('\n' :: ((writeAll options depth nodes).text ++ tail)))) := by
    rw [hc, Draft.text_append hfirst, htext]
    simp [line]
  obtain ⟨d₁, hd₁, hgap⟩ := Markup.continues_plain (scanElement nesting) stack tag bound
    (fun ch hch => isPlain_of_isBlank (hblank ch hch)) hindentation
  obtain ⟨found, d₂, hyields, hd₂, hclean, hshown⟩ :=
    reads_node stack hnode hentry hchildren hdepth hd₁
  obtain ⟨-, -, hname, -⟩ := writableEntry_eq_ok hentry
  have helement := Markup.continues_element tag bound hd₁
    (Markup.head?_of_isTag (Catalog.isTag_of_isComponentName hname)) hyields
  obtain ⟨d₃, hd₃, hbreak⟩ :=
    Markup.continues_plain (scanElement nesting) stack tag bound (s := ['\n']) (by decide) hd₂
  obtain ⟨d₄, found', f, blanks, hrest, hd₄, hclean', hshown', hblanks, hf⟩ :=
    hnodes nesting stack tag bound hlater hdepth hd₃
  refine ⟨d₄, _, _, indentation options (depth + 2) ++ ('\n' :: blanks),
    hgap.trans (helement.trans (hbreak.trans hrest)), hd₄, ?_, ?_, ?_, ?_⟩
  · simpa using hclean.append hclean'
  · simp [shownAll, hshown, hshown']
  · intro ch hch
    rcases List.mem_append.1 hch with hch | hch
    · exact hblank ch hch
    · rcases List.mem_cons.1 hch with rfl | hch
      · decide
      · exact hblanks ch hch
  · intro i
    simp [hf]

mutual

/-- The children of a node that was written are read back. -/
theorem readsAll_children : (node : MappedNode) → ReadsAll options node.children
  | ⟨_, _, _, _, _, _, _, _, children⟩ => readsAll children

/-- Trees that were written one after the other are read back. -/
theorem readsAll : (nodes : List MappedNode) → ReadsAll options nodes
  | [] => readsAll_nil
  | node :: rest => readsAll_cons (readsAll_children node) (readsAll rest)

end

end Reading

end DesignCompiler.Synthesis
