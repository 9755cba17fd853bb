import DesignCompiler.Proofs.Mapping.Texts

/-!
# Texts that become labels

A rule may take the text of a child as the property `label` of its component. The child is passed
over then: it is not mapped, and there is no warning about it. The properties are cut down to
those that the component accepts, but whether the label is one of them plays no part in passing
the child over. So the text is kept exactly where the component has a property of that name
(`Engine.keeps_label_iff_accepts`), and `label_lost_formSheet` is a tree where it is lost.
-/

namespace DesignCompiler.Mapping

open Semantic (Node)

/-! ## Labels in outcomes -/

namespace Outcome

theorem mem_preorderAll_of_mem {o child : Outcome} {outcomes : List Outcome} (ho : o ∈ outcomes)
    (hchild : child ∈ o.preorder) : child ∈ preorderAll outcomes := by
  induction outcomes with
  | nil => cases ho
  | cons first rest ih =>
    rw [preorderAll, List.mem_append]
    rcases List.mem_cons.1 ho with rfl | ho
    · exact .inl hchild
    · exact .inr (ih ho)

/-- The outcome at a position is one of those below. -/
theorem mem_preorder_of_at? {o child : Outcome} {position : List Nat}
    (h : o.at? position = some child) :
    child ∈ o.preorder := by
  induction position generalizing o with
  | nil =>
    obtain rfl := Option.some.inj h
    cases o <;> exact List.mem_cons_self
  | cons i position ih =>
    obtain ⟨next, hnext, hat⟩ := Option.bind_eq_some_iff.1 h
    cases o with
    | dropped node => cases hnext
    | label node => cases hnext
    | taken node c children =>
      exact List.mem_cons_of_mem _ (mem_preorderAll_of_mem (List.mem_of_getElem? hnext) (ih hat))

end Outcome

/-- A rule that takes labels takes that of the first child with a text, and no other rule takes
one. -/
theorem Rule.labelChild?_eq_some_iff {rule : Rule} {node : Node} {hit : Nat × String} :
    rule.labelChild? node = some hit ↔
      rule.textRole = .label ∧ Mapping.labelChild? node.children = some hit := by
  unfold Rule.labelChild?
  by_cases hrole : rule.textRole = .label
  · simp [hrole]
  · simp [hrole]

namespace Engine.Settles

variable {engine : Engine} {context : Option String} {node child : Node} {c : Candidate}
  {children : List Outcome} {i : Nat} {text : String}

/-- A child that is a label is the one that the rule takes it from. -/
theorem labelChild?_eq (h : engine.Settles context (.taken node c children))
    (hchild : children[i]? = some (.label child)) :
    node.children[i]? = some child ∧ ∃ text, c.rule.labelChild? node = some (i, text) := by
  cases h with
  | atomic => simp at hchild
  | container _ _ hnodes hlabel _ =>
    constructor
    · rw [← hnodes, List.getElem?_map, hchild]
      rfl
    · obtain ⟨⟨j, text⟩, hfound, hplace⟩ := Option.map_eq_some_iff.1 ((hlabel i _ hchild).1 rfl)
      obtain rfl : j = i := hplace
      exact ⟨text, hfound⟩

/-- A container passes over the child that its rule takes the label from. -/
theorem exists_label {o : Outcome} (h : engine.Settles context o)
    (hbest : engine.best? o.node context = some c) (hatomic : c.rule.atomic = false)
    (hfound : c.rule.labelChild? o.node = some (i, text)) :
    ∃ children child, o = .taken o.node c children ∧ children[i]? = some (.label child) := by
  have hcandidate := h.best?_eq
  rw [hbest] at hcandidate
  cases h with
  | dropped _ => cases hcandidate
  | atomic _ hatomic' =>
    obtain rfl := Option.some.inj hcandidate
    rw [hatomic] at hatomic'
    cases hatomic'
  | @container _ node c' children _ _ hnodes hlabel _ =>
    obtain rfl := Option.some.inj hcandidate
    have hfound : c.rule.labelChild? node = some (i, text) := hfound
    have hplace : (c.rule.labelChild? node).map (·.1) = some i := by rw [hfound, Option.map_some]
    obtain ⟨child, -, hchild, -⟩ :=
      labelChild?_eq_some_iff.1 (Rule.labelChild?_eq_some_iff.1 hfound).2
    rw [← hnodes, List.getElem?_map] at hchild
    obtain ⟨o, ho, -⟩ := Option.map_eq_some_iff.1 hchild
    obtain ⟨labelled, rfl⟩ := Outcome.eq_label_of_isLabel ((hlabel i o ho).2 hplace)
    exact ⟨children, labelled, rfl, ho⟩

end Engine.Settles

/-! ## Labels in mapped trees -/

/-- The property `label` of a node whose label is taken from a child. -/
theorem find?_label_of_labelChild? {config : Config} {c : Candidate} {node : Node} {i : Nat}
    {text : String} (hfound : c.rule.labelChild? node = some (i, text)) :
    (propsOf config c node).find? "label" =
      if c.entry.accepts "label" then some (.str text) else none := by
  obtain ⟨hrole, hhit⟩ := Rule.labelChild?_eq_some_iff.1 hfound
  split
  · rename_i haccepts
    exact find?_label_propsOf.2 ⟨haccepts, hrole, (i, text), hhit, rfl⟩
  · rename_i hrejects
    rw [Option.eq_none_iff_forall_ne_some]
    intro v hv
    rw [KeyMap.find?_eq_some_iff, propsOf, KeyMap.mem_filterKeys] at hv
    exact hrejects hv.2

/-- **When the text of a label is kept.** The outcome of a tree is what the mapping makes of it.
Where a child of a mapped node is passed over as its label, the child has a text. The node has
this text as its property `label` if its component accepts a property of that name, and otherwise
it has no such property. The child and the nodes below it leave neither a mapped node nor a
warning. -/
theorem Engine.keeps_label_iff_accepts (engine : Engine) (root : Node) :
    ∃ o, engine.Settles none o ∧ o.node = root ∧
      (engine.mapTree root).root = o.mapped? engine.config ∧
      (engine.mapTree root).nodes = o.preorder.filterMap (Outcome.mapped? engine.config) ∧
      (∀ mapped, (engine.mapTree root).root = some mapped →
        (engine.mapTree root).diagnostics =
          (o.preorder.filterMap Outcome.dropped?).map droppedWarning) ∧
      ∀ position node c children i child, o.at? position = some (.taken node c children) →
        children[i]? = some (.label child) →
          root.at? (position ++ [i]) = some child ∧ ∃ m content,
            (Outcome.taken node c children).mapped? engine.config = some m ∧
              m ∈ (engine.mapTree root).nodes ∧ child.content = some content ∧
              m.props.find? "label" =
                if c.entry.accepts "label" then some (.str content.text) else none := by
  obtain ⟨o, hsettles, rfl, hmap, hwarnings, hnodes, -, -⟩ := engine.outline_agrees root
  refine ⟨o, hsettles, rfl, hmap, hnodes, hwarnings, ?_⟩
  intro position node c children i child hat hchild
  obtain ⟨hnode, context, -, hsettled⟩ := hsettles.outlineAt?_eq hat
  obtain ⟨hplace, text, hfound⟩ := (hsettled rfl).labelChild?_eq hchild
  obtain ⟨child', content, hchild', hcontent, rfl, -⟩ :=
    labelChild?_eq_some_iff.1 (Rule.labelChild?_eq_some_iff.1 hfound).2
  obtain rfl : child = child' := Option.some.inj (hplace.symm.trans hchild')
  have hmem : mappedWith engine.config c node (Outcome.mappedAll engine.config children) ∈
      (engine.mapTree o.node).nodes := by
    rw [hnodes, List.mem_filterMap]
    exact ⟨_, Outcome.mem_preorder_of_at? hat, rfl⟩
  refine ⟨?_, _, content, rfl, hmem, hcontent, find?_label_of_labelChild? hfound⟩
  rw [Node.at?_append, hnode, Option.bind_some, Outcome.node, Node.at?, hplace]
  rfl

/-! ## Form items with and without a label -/

namespace FormSheet

/-- Form items and buttons that accept a label. -/
def labelledEngine : Engine :=
  { engine with
    catalog := .ofSource { source with
      definition? := fun name =>
        (source.definition? name).map
          fun d => { d with properties := [⟨"label", "ReactNode", false, none⟩] } } }

end FormSheet

/-- A form item that accepts a label has the text of its first child, which is not mapped. -/
theorem keeps_label_formSheet :
    ∃ o c children, FormSheet.labelledEngine.Settles none o ∧
      o.at? [] = some (.taken FormSheet.sheet c children) ∧
      children[0]? = some (.label (FormSheet.textNode "2" "Name")) ∧
      ∃ m ∈ (FormSheet.labelledEngine.mapTree FormSheet.sheet).nodes,
        m.props.find? "label" = some (.str "Name") := by
  obtain ⟨o, hsettles, hnode, -, -, -, hkept⟩ :=
    FormSheet.labelledEngine.keeps_label_iff_accepts FormSheet.sheet
  have hlabel : (FormSheet.labelledEngine.best? FormSheet.sheet none).map (fun c =>
      (c.rule.atomic, c.rule.labelChild? FormSheet.sheet, c.entry.accepts "label")) =
        some (false, some (0, "Name"), true) := by
    decide +kernel
  obtain ⟨c, hbest, hc⟩ := Option.map_eq_some_iff.1 hlabel
  simp only [Prod.mk.injEq] at hc
  obtain ⟨hatomic, hfound, haccepts⟩ := hc
  rw [← hnode] at hbest hfound
  obtain ⟨children, child, htaken, hchild⟩ := hsettles.exists_label hbest hatomic hfound
  rw [hnode] at htaken
  have hat : o.at? [] = some (.taken FormSheet.sheet c children) := congrArg some htaken
  obtain ⟨hplace, m, content, -, hm, hcontent, htext⟩ := hkept [] _ c children 0 child hat hchild
  obtain rfl : FormSheet.textNode "2" "Name" = child := Option.some.inj hplace
  obtain rfl := Option.some.inj hcontent
  rw [haccepts, if_pos rfl] at htext
  exact ⟨o, c, children, hsettles, hat, hchild, m, hm, htext⟩

/-- A form item whose component accepts no label loses the text of its first child: nothing is
mapped from the child, and the only warning is about another one. -/
theorem label_lost_formSheet :
    (FormSheet.engine.mapTree FormSheet.sheet).root.map
      (fun m => (m.component, (m.props.find? "label").isSome)) =
        some ("Form.Item", false) ∧
      (FormSheet.engine.mapTree FormSheet.sheet).nodes.map (·.nodeId) = ["1", "3"] ∧
      (FormSheet.engine.mapTree FormSheet.sheet).diagnostics.map (·.message) =
        ["Node 'node' (5) matched no catalog component and was dropped"] ∧
      ∃ o, FormSheet.engine.Settles none o ∧ o.node = FormSheet.sheet ∧
        ∃ c children, o = .taken FormSheet.sheet c children ∧
          children[0]? = some (.label (FormSheet.textNode "2" "Name")) := by
  refine ⟨by decide +kernel, by decide +kernel, by decide +kernel, ?_⟩
  obtain ⟨o, hsettles, hnode, -⟩ := FormSheet.engine.exists_mapTree_eq FormSheet.sheet
  have hlabel : (FormSheet.engine.best? FormSheet.sheet none).map (fun c =>
      (c.rule.atomic, c.rule.labelChild? FormSheet.sheet)) = some (false, some (0, "Name")) := by
    decide +kernel
  obtain ⟨c, hbest, hc⟩ := Option.map_eq_some_iff.1 hlabel
  obtain ⟨hatomic, hfound⟩ := Prod.mk.inj hc
  rw [← hnode] at hbest hfound
  obtain ⟨children, child, htaken, hchild⟩ := hsettles.exists_label hbest hatomic hfound
  rw [hnode] at htaken
  subst htaken
  obtain rfl : FormSheet.textNode "2" "Name" = child :=
    Option.some.inj (hsettles.labelChild?_eq hchild).1
  exact ⟨_, hsettles, rfl, c, children, rfl, hchild⟩

end DesignCompiler.Mapping
