import DesignCompiler.Proofs.Mapping.Accounts
import DesignCompiler.Proofs.Mapping.Outlines

/-!
# Where shown texts come from

A component shows a text of its node between its tags, as its placeholder or as its label.
`Candidate.Takes` says from which semantic node the text is taken: the first one with a text in
the order of the tree, or the first child with one for a label. Whether the nodes on the way are
shown in the design is not asked.

`Engine.shows_iff_takes` is the account of the texts of a mapped tree, and it says when a text is
one that the design hides: exactly when the source of the text, or a node between it and the
mapped one, is hidden. `hidden_text_shown` is a tree where this happens.
-/

namespace DesignCompiler

/-! ## The place of the first text -/

namespace Semantic.Node

variable {node : Node} {way : List Nat} {content : Content}

/-- The way to the first text of a tree, and the text: that of the node itself, or of the first
child that has one in its tree. -/
inductive FirstText : Node → List Nat → Content → Prop where
  | own {node : Node} {content : Content} (hcontent : node.content = some content) :
      FirstText node [] content
  | ofChild {node child : Node} {i : Nat} {way : List Nat} {content : Content}
      (hcontent : node.content = none) (hchild : node.children[i]? = some child)
      (hearlier : ∀ j < i, ∀ earlier, node.children[j]? = some earlier →
        earlier.firstText? = none)
      (hfirst : FirstText child way content) : FirstText node (i :: way) content

theorem firstTextAmong?_eq (nodes : List Node) :
    firstTextAmong? nodes = nodes.findSome? firstText? := by
  induction nodes with
  | nil => rfl
  | cons node rest ih =>
    rw [firstTextAmong?, List.findSome?_cons, ih]
    cases node.firstText? <;> rfl

theorem firstText?_eq (node : Node) :
    node.firstText? = node.content.or (node.children.findSome? firstText?) := by
  obtain ⟨_, _, _, _, _, content, _, children⟩ := node
  cases content with
  | some content => rw [firstText?, Option.some_or]
  | none => rw [firstText?, firstTextAmong?_eq, Option.none_or]

/-- The hit of a search is at the place before which nothing is a hit. -/
theorem findSome?_eq_some_iff_getElem? {α β : Type} {f : α → Option β} {l : List α} {b : β} :
    l.findSome? f = some b ↔ ∃ (i : Nat) (a : α), l[i]? = some a ∧ f a = some b ∧
      ∀ j < i, ∀ earlier, l[j]? = some earlier → f earlier = none := by
  rw [List.findSome?_eq_some_iff]
  constructor
  · rintro ⟨before, a, after, rfl, ha, hearlier⟩
    refine ⟨before.length, a, by simp, ha, fun j hj earlier hat => hearlier earlier ?_⟩
    rw [List.getElem?_append_left hj] at hat
    exact List.mem_of_getElem? hat
  · rintro ⟨i, a, hat, ha, hearlier⟩
    obtain ⟨hi, rfl⟩ := List.getElem?_eq_some_iff.1 hat
    refine ⟨l.take i, l[i], l.drop (i + 1), ?_, ha, fun earlier hmem => ?_⟩
    · rw [List.getElem_cons_drop, List.take_append_drop]
    · obtain ⟨j, hj, hget⟩ := List.mem_take_iff_getElem.1 hmem
      exact hearlier j (by omega) earlier (List.getElem?_eq_some_iff.2 ⟨by omega, hget⟩)

/-- The source of the first text has the text. -/
theorem FirstText.exists_source (h : node.FirstText way content) :
    ∃ source, node.at? way = some source ∧ source.content = some content := by
  induction h with
  | @own node content hcontent => exact ⟨node, rfl, hcontent⟩
  | ofChild _ hchild _ _ ih =>
    obtain ⟨source, hsource, htext⟩ := ih
    exact ⟨source, by rw [at?, hchild, Option.bind_some, hsource], htext⟩

theorem FirstText.firstText?_eq_some (h : node.FirstText way content) :
    node.firstText? = some content := by
  induction h with
  | own hcontent => rw [firstText?_eq, hcontent, Option.some_or]
  | ofChild hcontent hchild hearlier _ ih =>
    rw [firstText?_eq, hcontent, Option.none_or, findSome?_eq_some_iff_getElem?]
    exact ⟨_, _, hchild, ih, hearlier⟩

theorem exists_firstText {node : Node} {content : Content} (h : node.firstText? = some content) :
    ∃ way, node.FirstText way content := by
  rw [firstText?_eq] at h
  cases hcontent : node.content with
  | some own =>
    rw [hcontent, Option.some_or] at h
    obtain rfl := Option.some.inj h
    exact ⟨[], .own hcontent⟩
  | none =>
    rw [hcontent, Option.none_or, findSome?_eq_some_iff_getElem?] at h
    obtain ⟨i, child, hchild, hfirst, hearlier⟩ := h
    obtain ⟨way, hway⟩ := exists_firstText hfirst
    exact ⟨i :: way, .ofChild hcontent hchild hearlier hway⟩
termination_by sizeOf node
decreasing_by exact sizeOf_child_lt hchild

/-- The first hits of two searches with the same condition are at the same place. -/
theorem eq_of_first_hits {α β : Type} {f : α → Option β} {l : List α} {i j : Nat} {a a' : α}
    {b b' : β} (hi : l[i]? = some a) (hj : l[j]? = some a') (ha : f a = some b)
    (ha' : f a' = some b') (hbefore : ∀ k < i, ∀ earlier, l[k]? = some earlier → f earlier = none)
    (hbefore' : ∀ k < j, ∀ earlier, l[k]? = some earlier → f earlier = none) : i = j := by
  rcases Nat.lt_trichotomy i j with hlt | heq | hlt
  · rw [hbefore' i hlt a hi] at ha
    cases ha
  · exact heq
  · rw [hbefore j hlt a' hj] at ha'
    cases ha'

/-- A tree has one first text. -/
theorem FirstText.unique {way' : List Nat} {content' : Content} (h : node.FirstText way content)
    (h' : node.FirstText way' content') : way = way' ∧ content = content' := by
  have hcontent : content = content' :=
    Option.some.inj (h.firstText?_eq_some.symm.trans h'.firstText?_eq_some)
  refine ⟨?_, hcontent⟩
  subst hcontent
  induction h generalizing way' with
  | own hcontent =>
    cases h' with
    | own _ => rfl
    | ofChild hnone _ _ _ =>
      rw [hcontent] at hnone
      cases hnone
  | @ofChild node child i way content hnone hchild hearlier hfirst ih =>
    cases h' with
    | own hcontent =>
      rw [hnone] at hcontent
      cases hcontent
    | @ofChild _ child' j way' _ _ hchild' hearlier' hfirst' =>
      obtain rfl : i = j :=
        eq_of_first_hits hchild hchild' hfirst.firstText?_eq_some hfirst'.firstText?_eq_some
          hearlier hearlier'
      rw [hchild] at hchild'
      obtain rfl := Option.some.inj hchild'
      rw [ih hfirst']

/-! ## Hidden nodes -/

/-- The node at the position or one above it is hidden. -/
def Concealed (root : Node) (position : List Nat) : Prop :=
  ∃ place above, place <+: position ∧ root.at? place = some above ∧
    above.properties.visible = false

/-- The nodes on the way are shown, the first one aside. -/
def ShownAlong (node : Node) (way : List Nat) : Prop :=
  ∀ place below, place <+: way → place ≠ [] → node.at? place = some below →
    below.properties.visible = true

theorem at?_append (root : Node) (position way : List Nat) :
    root.at? (position ++ way) = (root.at? position).bind fun node => node.at? way := by
  induction position generalizing root with
  | nil => rfl
  | cons i position ih =>
    rw [List.cons_append, at?, at?, Option.bind_assoc]
    exact Option.bind_congr fun child _ => ih child

/-- Below a node that is not concealed, a node is concealed if something on the way to it is
hidden. -/
theorem concealed_append_iff {root : Node} {position : List Nat}
    (hnode : root.at? position = some node) (hopen : ¬ root.Concealed position) :
    root.Concealed (position ++ way) ↔ ¬ node.ShownAlong way := by
  constructor
  · rintro ⟨place, above, hplace, habove, hhidden⟩ hshown
    rcases List.prefix_or_prefix_of_prefix hplace
      (List.prefix_append position way) with hprefix | ⟨rest, rfl⟩
    · exact hopen ⟨place, above, hprefix, habove, hhidden⟩
    · have hrest : rest <+: way := (List.prefix_append_right_inj position).1 hplace
      rw [at?_append, hnode, Option.bind_some] at habove
      have hne : rest ≠ [] := by
        rintro rfl
        exact hopen ⟨position, node, List.prefix_rfl, hnode, by rwa [Option.some.inj habove]⟩
      rw [hshown rest above hrest hne habove] at hhidden
      cases hhidden
  · intro hnot
    simp only [ShownAlong, Classical.not_forall, Bool.not_eq_true] at hnot
    obtain ⟨place, below, hplace, -, hbelow, hhidden⟩ := hnot
    refine ⟨position ++ place, below, (List.prefix_append_right_inj position).2 hplace, ?_,
      hhidden⟩
    rw [at?_append, hnode, Option.bind_some, hbelow]

end Semantic.Node

namespace Mapping

open Semantic (Node Content)

/-! ## Shown texts -/

/-- The mapped node shows the text in such a place. -/
def MappedNode.Shows (m : MappedNode) : TextRole → String → Prop
  | .none, _ => False
  | .children, text => m.text = some text
  | .placeholder, text => m.props.find? "placeholder" = some (.str text)
  | .label, text => m.props.find? "label" = some (.str text)

/-- The component of the candidate shows a text of the node in such a place, and takes it from the
node at the end of the way. A placeholder or a label is shown only where the component accepts
one. -/
inductive Candidate.Takes (c : Candidate) (node : Node) :
    TextRole → List Nat → String → Prop where
  | children {way : List Nat} {content : Content} (hrole : c.rule.textRole = .children)
      (hfirst : node.FirstText way content) : Takes c node .children way content.text
  | placeholder {way : List Nat} {content : Content} (hrole : c.rule.textRole = .placeholder)
      (haccepts : c.entry.accepts "placeholder" = true) (hfirst : node.FirstText way content) :
      Takes c node .placeholder way content.text
  | label {i : Nat} {child : Node} {content : Content} (hrole : c.rule.textRole = .label)
      (haccepts : c.entry.accepts "label" = true) (hchild : node.children[i]? = some child)
      (hcontent : child.content = some content)
      (hearlier : ∀ j < i, ∀ earlier, node.children[j]? = some earlier → earlier.content = none) :
      Takes c node .label [i] content.text

namespace Candidate.Takes

variable {c : Candidate} {node : Node} {role role' : TextRole} {way way' : List Nat}
  {text text' : String}

theorem textRole_eq (h : c.Takes node role way text) : c.rule.textRole = role := by
  cases h <;> assumption

theorem exists_source (h : c.Takes node role way text) :
    ∃ source content, node.at? way = some source ∧ source.content = some content ∧
      content.text = text := by
  cases h with
  | children _ hfirst =>
    obtain ⟨source, hsource, hcontent⟩ := hfirst.exists_source
    exact ⟨source, _, hsource, hcontent, rfl⟩
  | placeholder _ _ hfirst =>
    obtain ⟨source, hsource, hcontent⟩ := hfirst.exists_source
    exact ⟨source, _, hsource, hcontent, rfl⟩
  | @label i child content _ _ hchild hcontent _ =>
    exact ⟨child, content, by rw [Node.at?, hchild]; rfl, hcontent, rfl⟩

/-- A node shows one text at most, and takes it from one place. -/
theorem unique (h : c.Takes node role way text) (h' : c.Takes node role' way' text') :
    role = role' ∧ way = way' ∧ text = text' := by
  have hrole : role = role' := h.textRole_eq.symm.trans h'.textRole_eq
  subst hrole
  refine ⟨rfl, ?_⟩
  cases h with
  | children _ hfirst =>
    cases h' with
    | children _ hfirst' =>
      obtain ⟨rfl, rfl⟩ := hfirst.unique hfirst'
      exact ⟨rfl, rfl⟩
  | placeholder _ _ hfirst =>
    cases h' with
    | placeholder _ _ hfirst' =>
      obtain ⟨rfl, rfl⟩ := hfirst.unique hfirst'
      exact ⟨rfl, rfl⟩
  | @label i child content _ _ hchild hcontent hearlier =>
    cases h' with
    | @label j child' content' _ _ hchild' hcontent' hearlier' =>
      obtain rfl : i = j :=
        Node.eq_of_first_hits hchild hchild' hcontent hcontent' hearlier hearlier'
      rw [hchild] at hchild'
      obtain rfl := Option.some.inj hchild'
      rw [hcontent] at hcontent'
      obtain rfl := Option.some.inj hcontent'
      exact ⟨rfl, rfl⟩

end Candidate.Takes

/-- The label is the text of the first child that has one. -/
theorem labelChild?_eq_some_iff {children : List Node} {i : Nat} {text : String} :
    labelChild? children = some (i, text) ↔ ∃ child content, children[i]? = some child ∧
      child.content = some content ∧ content.text = text ∧
      ∀ j < i, ∀ earlier, children[j]? = some earlier → earlier.content = none := by
  have hplace (j : Nat) (p : Node × Nat) :
      children.zipIdx[j]? = some p ↔ children[j]? = some p.1 ∧ p.2 = j := by
    rw [List.getElem?_zipIdx, Option.map_eq_some_iff, Nat.zero_add]
    constructor
    · rintro ⟨child, hchild, rfl⟩
      exact ⟨hchild, rfl⟩
    · rintro ⟨hchild, hj⟩
      exact ⟨p.1, hchild, by rw [← hj]⟩
  unfold labelChild?
  rw [Node.findSome?_eq_some_iff_getElem?]
  constructor
  · rintro ⟨j, ⟨child, k⟩, hat, hfound, hearlier⟩
    obtain ⟨hchild, rfl⟩ := (hplace j _).1 hat
    obtain ⟨content, hcontent, hpair⟩ := Option.map_eq_some_iff.1 hfound
    obtain ⟨rfl, rfl⟩ := Prod.mk.inj hpair
    refine ⟨child, content, hchild, hcontent, rfl, fun j hj earlier hat => ?_⟩
    exact Option.map_eq_none_iff.1 (hearlier j hj (earlier, j) ((hplace j _).2 ⟨hat, rfl⟩))
  · rintro ⟨child, content, hchild, hcontent, rfl, hearlier⟩
    refine ⟨i, (child, i), (hplace i _).2 ⟨hchild, rfl⟩, by simp only [hcontent, Option.map_some],
      ?_⟩
    rintro j hj ⟨earlier, k⟩ hat
    exact Option.map_eq_none_iff.2 (hearlier j hj earlier ((hplace j _).1 hat).1)

section Shows

variable {config : Config} {c : Candidate} {node : Node} {role : TextRole} {name text : String}

theorem mem_textProps_placeholder {v : Json} : ("placeholder", v) ∈ c.rule.textProps node ↔
    c.rule.textRole = .placeholder ∧
      ∃ content, node.firstText? = some content ∧ v = .str content.text := by
  unfold Rule.textProps
  cases hrole : c.rule.textRole with
  | placeholder => cases node.firstText? <;> simp
  | label => cases c.rule.labelChild? node <;> simp
  | none => simp
  | children => simp

theorem mem_textProps_label {v : Json} : ("label", v) ∈ c.rule.textProps node ↔
    c.rule.textRole = .label ∧ ∃ hit, labelChild? node.children = some hit ∧ v = .str hit.2 := by
  unfold Rule.textProps
  cases hrole : c.rule.textRole with
  | placeholder => cases node.firstText? <;> simp
  | label =>
    have hlabel : c.rule.labelChild? node = labelChild? node.children := by
      rw [Rule.labelChild?, hrole]
      rfl
    rw [hlabel]
    cases labelChild? node.children <;> simp
  | none => simp
  | children => simp

/-- No property that is derived from a node has the name of one that takes a text. -/
theorem PropRule.Derives.ne_text {rule : PropRule} {v : Json} (h : rule.Derives name v) :
    name ≠ "placeholder" ∧ name ≠ "label" := by
  cases h <;> decide

/-- A property that is not derived from a node is there if the component accepts it and a text
goes there. -/
theorem find?_propsOf {v : Json}
    (hderived : ∀ (rule : PropRule) (v : Json), ¬ rule.Derives name v)
    (honly : ∀ v v', (name, v) ∈ c.rule.textProps node → (name, v') ∈ c.rule.textProps node →
      v = v') :
    (propsOf config c node).find? name = some v ↔
      c.entry.accepts name = true ∧ (name, v) ∈ c.rule.textProps node := by
  have hsource (v' : Json)
      (h : (name, v') ∈ (c.rule.props.flatMap fun p => p.derive config node) ++
        c.rule.textProps node) : (name, v') ∈ c.rule.textProps node := by
    rcases List.mem_append.1 h with h | h
    · obtain ⟨p, -, hp⟩ := List.mem_flatMap.1 h
      exact absurd (PropRule.derives_of_mem_derive hp) (hderived p v')
    · exact h
  rw [KeyMap.find?_eq_some_iff, propsOf, KeyMap.mem_filterKeys, and_comm]
  refine and_congr_right fun _ => ⟨fun h => hsource v (KeyMap.mem_of_mem_ofList h), fun h => ?_⟩
  exact KeyMap.mem_ofList (List.mem_append_right _ h) fun v' h' => honly v' v (hsource v' h') h

theorem find?_placeholder_propsOf :
    (propsOf config c node).find? "placeholder" = some (.str text) ↔
      c.entry.accepts "placeholder" = true ∧ c.rule.textRole = .placeholder ∧
        ∃ content, node.firstText? = some content ∧ text = content.text := by
  rw [find?_propsOf (fun _ _ h => h.ne_text.1 rfl), mem_textProps_placeholder]
  · simp only [Json.str.injEq]
  · intro v v' h h'
    obtain ⟨-, content, hcontent, rfl⟩ := mem_textProps_placeholder.1 h
    obtain ⟨-, content', hcontent', rfl⟩ := mem_textProps_placeholder.1 h'
    rw [Option.some.inj (hcontent.symm.trans hcontent')]

theorem find?_label_propsOf : (propsOf config c node).find? "label" = some (.str text) ↔
    c.entry.accepts "label" = true ∧ c.rule.textRole = .label ∧
      ∃ hit, labelChild? node.children = some hit ∧ text = hit.2 := by
  rw [find?_propsOf (fun _ _ h => h.ne_text.2 rfl), mem_textProps_label]
  · simp only [Json.str.injEq]
  · intro v v' h h'
    obtain ⟨-, hit, hfound, rfl⟩ := mem_textProps_label.1 h
    obtain ⟨-, hit', hfound', rfl⟩ := mem_textProps_label.1 h'
    rw [Option.some.inj (hfound.symm.trans hfound')]

theorem inlineText_eq_some_iff : c.rule.inlineText node = some text ↔
    c.rule.textRole = .children ∧
      ∃ content, node.firstText? = some content ∧ content.text = text := by
  unfold Rule.inlineText
  by_cases hrole : c.rule.textRole = .children
  · simp [hrole]
  · simp [hrole]

/-- A mapped node shows the texts that its component takes. -/
theorem shows_mappedWith_iff {children : List MappedNode} :
    (mappedWith config c node children).Shows role text ↔ ∃ way, c.Takes node role way text := by
  cases role with
  | none =>
    refine ⟨False.elim, ?_⟩
    rintro ⟨way, htakes⟩
    cases htakes
  | children =>
    rw [MappedNode.Shows, mappedWith, inlineText_eq_some_iff]
    constructor
    · rintro ⟨hrole, content, hcontent, rfl⟩
      obtain ⟨way, hfirst⟩ := Node.exists_firstText hcontent
      exact ⟨way, .children hrole hfirst⟩
    · rintro ⟨way, htakes⟩
      cases htakes with
      | children hrole hfirst => exact ⟨hrole, _, hfirst.firstText?_eq_some, rfl⟩
  | placeholder =>
    rw [MappedNode.Shows, mappedWith, find?_placeholder_propsOf]
    constructor
    · rintro ⟨haccepts, hrole, content, hcontent, rfl⟩
      obtain ⟨way, hfirst⟩ := Node.exists_firstText hcontent
      exact ⟨way, .placeholder hrole haccepts hfirst⟩
    · rintro ⟨way, htakes⟩
      cases htakes with
      | placeholder hrole haccepts hfirst =>
        exact ⟨haccepts, hrole, _, hfirst.firstText?_eq_some, rfl⟩
  | label =>
    rw [MappedNode.Shows, mappedWith, find?_label_propsOf]
    constructor
    · rintro ⟨haccepts, hrole, ⟨i, text⟩, hhit, rfl⟩
      obtain ⟨child, content, hchild, hcontent, rfl, hearlier⟩ := labelChild?_eq_some_iff.1 hhit
      exact ⟨[i], .label hrole haccepts hchild hcontent hearlier⟩
    · rintro ⟨way, htakes⟩
      cases htakes with
      | @label i child content hrole haccepts hchild hcontent hearlier =>
        exact ⟨haccepts, hrole, (i, content.text),
          labelChild?_eq_some_iff.2 ⟨child, content, hchild, hcontent, rfl, hearlier⟩, rfl⟩

end Shows

/-! ## The texts of a mapped tree -/

/-- **Where the texts of a mapped tree come from, and when they are hidden ones.** The outcome of
a tree is what the mapping makes of it. A node that takes a candidate shows exactly the text that
its component takes, at most one, from one place below the node. If neither the node nor one above
it is hidden, the source of the text is hidden, or below a hidden node, exactly if not all nodes
on the way to it are shown. -/
theorem Engine.shows_iff_takes (engine : Engine) (root : Node) :
    ∃ o, engine.Settles none o ∧ o.node = root ∧
      (engine.mapTree root).root = o.mapped? engine.config ∧
      (engine.mapTree root).nodes = o.preorder.filterMap (Outcome.mapped? engine.config) ∧
      ∀ position node c children, o.at? position = some (.taken node c children) →
        root.at? position = some node ∧
        (∀ m, (Outcome.taken node c children).mapped? engine.config = some m → ∀ role text,
          m.Shows role text ↔ ∃ way, c.Takes node role way text) ∧
        (∀ role role' way way' text text', c.Takes node role way text →
          c.Takes node role' way' text' → role = role' ∧ way = way' ∧ text = text') ∧
        ∀ role way text, c.Takes node role way text →
          (∃ source content, root.at? (position ++ way) = some source ∧
            source.content = some content ∧ content.text = text) ∧
          (¬ root.Concealed position →
            (root.Concealed (position ++ way) ↔ ¬ node.ShownAlong way)) := by
  obtain ⟨o, hsettles, hroot, hmap, -, hnodes, -, hplaces⟩ := engine.outline_agrees root
  refine ⟨o, hsettles, hroot, hmap, hnodes, ?_⟩
  intro position node c children hat
  obtain ⟨hnode, -⟩ := hplaces position _ hat
  have hnode : root.at? position = some node := hnode
  refine ⟨hnode, ?_, fun _ _ _ _ _ _ h h' => h.unique h', ?_⟩
  · intro m hm role text
    obtain rfl := Option.some.inj hm
    exact shows_mappedWith_iff
  · intro role way text htakes
    obtain ⟨source, content, hsource, hcontent⟩ := htakes.exists_source
    refine ⟨⟨source, content, ?_, hcontent⟩, fun hopen => Node.concealed_append_iff hnode hopen⟩
    rw [Node.at?_append, hnode, Option.bind_some, hsource]

/-! ## A button with a hidden text -/

/-- A shown button with a hidden text in front of a shown one. -/
def FormSheet.busyButton : Node :=
  plainNode "1" .component none
    [{ textNode "2" "Loading" with properties := ⟨false, false, none⟩ }, textNode "3" "Submit"]

/-- The text of the button is taken from the first child, which is hidden. -/
theorem shows_iff_takes_busyButton :
    ∃ o m, FormSheet.engine.Settles none o ∧ o.node = FormSheet.busyButton ∧
      o.mapped? FormSheet.engine.config = some m ∧ m.Shows .children "Loading" ∧
      ¬ FormSheet.busyButton.Concealed [] ∧ FormSheet.busyButton.Concealed [0] := by
  obtain ⟨o, hsettles, hnode, hmap, -, htexts⟩ :=
    FormSheet.engine.shows_iff_takes FormSheet.busyButton
  have hbutton : (FormSheet.engine.best? FormSheet.busyButton none).map (·.rule.textRole) =
      some .children := by
    decide +kernel
  obtain ⟨c, hbest, hrole⟩ := Option.map_eq_some_iff.1 hbutton
  have htaken := hsettles.best?_eq
  rw [hnode, hbest] at htaken
  cases o with
  | dropped _ => cases htaken
  | label _ => cases htaken
  | taken node c' children =>
    obtain rfl := Option.some.inj htaken
    obtain rfl : node = FormSheet.busyButton := hnode
    obtain ⟨-, hshows, -, hsource⟩ := htexts [] FormSheet.busyButton c children rfl
    have hfirst : FormSheet.busyButton.FirstText [0] ⟨"Loading", none, none, none, none, none⟩ :=
      .ofChild rfl rfl (fun j hj => absurd hj (Nat.not_lt_zero j)) (.own rfl)
    have htakes : c.Takes FormSheet.busyButton .children [0] "Loading" := .children hrole hfirst
    have hopen : ¬ FormSheet.busyButton.Concealed [] := by
      rintro ⟨place, above, hplace, habove, hhidden⟩
      obtain rfl := List.prefix_nil.1 hplace
      obtain rfl := Option.some.inj habove
      cases hhidden
    refine ⟨_, _, hsettles, rfl, rfl, (hshows _ rfl _ _).2 ⟨[0], htakes⟩, hopen, ?_⟩
    refine ((hsource _ _ _ htakes).2 hopen).2 fun hshown => ?_
    have hvisible := hshown [0] _ List.prefix_rfl (List.cons_ne_nil 0 []) rfl
    cases hvisible

/-- A shown button shows a text, and the only node of its tree with this text is hidden. -/
theorem hidden_text_shown :
    (FormSheet.engine.mapTree FormSheet.busyButton).root.map (fun m => (m.nodeId, m.text)) =
        some (FormSheet.busyButton.id, some "Loading") ∧
      FormSheet.busyButton.properties.visible = true ∧
      ∀ node ∈ FormSheet.busyButton.preorder, node.content.map (·.text) = some "Loading" →
        node.properties.visible = false :=
  ⟨by decide +kernel, rfl, by decide +kernel⟩

end Mapping

end DesignCompiler
