import DesignCompiler.Proofs.Catalog.Lookups
import DesignCompiler.Proofs.Mapping.Accounts
import DesignCompiler.Proofs.Mapping.Outlines
import DesignCompiler.Proofs.Markup.Clauses

/-!
# Contexts

The components around a node reach its rules as one text with slashes between the names, which is
taken apart again to find a name in it. `Engine.insideComponent_iff_mappedAbove` says that nothing
is lost on the way and nothing is made up: wherever the mapping looks at a node, the condition on
a component holds exactly if a node above it was mapped to that component.

`Engine.Visits` says which nodes the mapping looks at, and in which contexts. The invariant of the
induction is that a context names exactly the components above the node
(`Engine.Visits.contextNames_iff`). It holds of any texts as names, because the names that go into
a context are names of catalog entries and have no slash in them.
-/

namespace DesignCompiler.Mapping

open Semantic (Node)

/-! ## Names in a context -/

section Names

variable {context : Option String} {component name : String}

/-- The only piece of a text without slashes is the text. -/
theorem contains_splitAt_slash (hslash : '/' ∉ component.toList) :
    (Text.splitAt '/' component.toList).contains name.toList = true ↔ component = name := by
  have hpieces : Text.splitAt '/' component.toList = [component.toList] :=
    Text.splitWhere_eq_self fun c hc => beq_false_of_ne fun h => hslash (h ▸ hc)
  rw [hpieces, List.contains_iff_mem, List.mem_singleton, String.toList_inj, eq_comm]

/-- Inside a component the context names the component, and otherwise what it named before. -/
theorem contextNames_contextInside (hslash : '/' ∉ component.toList) :
    contextNames (some (contextInside context component)) name = true ↔
      contextNames context name = true ∨ component = name := by
  cases context with
  | none =>
    simp only [contextNames, contextInside, contains_splitAt_slash hslash, Bool.false_eq_true,
      false_or]
  | some path =>
    have htext : (path ++ "/" ++ component).toList = path.toList ++ '/' :: component.toList := by
      simp [String.toList_append]
    have hpieces : Text.splitAt '/' (path.toList ++ '/' :: component.toList) =
        Text.splitAt '/' path.toList ++ Text.splitAt '/' component.toList :=
      Text.splitWhere_append_cons (by decide) _ _
    simp only [contextNames, contextInside]
    rw [htext, hpieces, List.contains_iff_mem, List.mem_append, ← List.contains_iff_mem,
      ← List.contains_iff_mem, contains_splitAt_slash hslash]

/-- The entry of a candidate has a name without slashes. -/
theorem Engine.slash_not_mem_entry_name {engine : Engine} (hcatalog : engine.catalog.Faithful)
    {node : Node} {c : Candidate} (hbest : engine.best? node context = some c) :
    '/' ∉ c.entry.name.toList := by
  obtain ⟨-, hentry⟩ := Engine.best?_eq_some hbest
  rw [hcatalog.entry?_eq] at hentry
  obtain ⟨_, -, hvalid, hname, -⟩ := Catalog.Source.entry?_eq_some hentry
  intro hmem
  rw [hname] at hmem
  rcases Catalog.alphanum_or_dot_of_mem hvalid hmem with h | h <;> exact absurd h (by decide)

end Names

/-! ## The nodes that the mapping looks at -/

/-- The mapping of a node in a context looks at the node at the position in the second context: at
the node itself, and in a container at what the children come to, apart from the child that gives
its text as a label. -/
inductive Engine.Visits (engine : Engine) :
    Option String → Node → List Nat → Option String → Node → Prop where
  | here (context : Option String) (node : Node) : Visits engine context node [] context node
  | inside {context context' : Option String} {node child node' : Node} {c : Candidate} {i : Nat}
      {position : List Nat} (hbest : engine.best? node context = some c)
      (hatomic : c.rule.atomic = false) (hchild : node.children[i]? = some child)
      (hlabel : (c.rule.labelChild? node).map (·.1) ≠ some i)
      (hvisits : Visits engine (some (contextInside context c.entry.name)) child position context'
        node') :
      Visits engine context node (i :: position) context' node'

/-- A child other than the label is looked up in the context of the children. -/
theorem Engine.mem_childLookups {engine : Engine} {context looked : String} {label : Option Nat}
    {children : List Node} : looked ∈ engine.childLookups context label children ↔
      ∃ i child, children[i]? = some child ∧ label ≠ some i ∧
        looked ∈ engine.treeLookups (some context) child := by
  induction children generalizing label with
  | nil => simp [childLookups]
  | cons first rest ih =>
    rw [childLookups]
    split
    · rename_i hlabel
      rw [ih]
      constructor
      · rintro ⟨i, child, hchild, -, hlooked⟩
        exact ⟨i + 1, child, hchild, by simp [hlabel], hlooked⟩
      · rintro ⟨i, child, hchild, hne, hlooked⟩
        cases i with
        | zero => exact absurd hlabel hne
        | succ i => exact ⟨i, child, hchild, by simp, hlooked⟩
    · rename_i hlabel
      have hshift (i : Nat) : label.map (· - 1) ≠ some i ↔ label ≠ some (i + 1) := by
        cases label with
        | none => simp
        | some place =>
          have hplace : place ≠ 0 := by simpa using hlabel
          simp only [Option.map_some, ne_eq, Option.some.injEq]
          omega
      rw [List.mem_append, ih]
      constructor
      · rintro (hlooked | ⟨i, child, hchild, hne, hlooked⟩)
        · exact ⟨0, first, rfl, hlabel, hlooked⟩
        · exact ⟨i + 1, child, hchild, (hshift i).1 hne, hlooked⟩
      · rintro ⟨i, child, hchild, hne, hlooked⟩
        cases i with
        | zero =>
          obtain rfl : first = child := by simpa using hchild
          exact .inl hlooked
        | succ i => exact .inr ⟨i, child, hchild, (hshift i).2 hne, hlooked⟩

theorem Engine.mem_treeLookups {engine : Engine} {context : Option String} {node : Node}
    {looked : String} :
    looked ∈ engine.treeLookups context node ↔ looked ∈ engine.lookups node context ∨
      ∃ c i child, engine.best? node context = some c ∧ c.rule.atomic = false ∧
        node.children[i]? = some child ∧ (c.rule.labelChild? node).map (·.1) ≠ some i ∧
        looked ∈ engine.treeLookups (some (contextInside context c.entry.name)) child := by
  obtain ⟨id, name, kind, layout, styling, content, properties, children⟩ := node
  rw [treeLookups, List.mem_append]
  refine or_congr Iff.rfl ?_
  cases hbest : engine.best? ⟨id, name, kind, layout, styling, content, properties, children⟩
    context with
  | none => simp
  | some c =>
    cases hatomic : c.rule.atomic with
    | true => simp [hatomic]
    | false => simp [hatomic, mem_childLookups]

/-- What is looked up while a tree is mapped is looked up for a node that the mapping looks at. -/
theorem Engine.exists_visits_of_mem_treeLookups {engine : Engine} {context : Option String}
    {node : Node} {looked : String} (h : looked ∈ engine.treeLookups context node) :
    ∃ position context' node', engine.Visits context node position context' node' ∧
      looked ∈ engine.lookups node' context' := by
  rcases mem_treeLookups.1 h with hlooked | ⟨c, i, child, hbest, hatomic, hchild, hlabel, hlooked⟩
  · exact ⟨[], context, node, .here context node, hlooked⟩
  · obtain ⟨position, context', node', hvisits, hin⟩ := exists_visits_of_mem_treeLookups hlooked
    exact ⟨i :: position, context', node', .inside hbest hatomic hchild hlabel hvisits, hin⟩
termination_by sizeOf node
decreasing_by exact Node.sizeOf_child_lt hchild

/-- What is looked up for a node that the mapping looks at is looked up while the tree is
mapped. -/
theorem Engine.Visits.mem_treeLookups {engine : Engine} {context context' : Option String}
    {node node' : Node} {position : List Nat} {looked : String}
    (h : engine.Visits context node position context' node')
    (hlooked : looked ∈ engine.lookups node' context') :
    looked ∈ engine.treeLookups context node := by
  induction h with
  | here context node => exact Engine.mem_treeLookups.2 (.inl hlooked)
  | inside hbest hatomic hchild hlabel _ ih =>
    exact Engine.mem_treeLookups.2 (.inr ⟨_, _, _, hbest, hatomic, hchild, hlabel, ih hlooked⟩)

/-! ## Components above a position -/

namespace Outcome

variable {config : Config} {o : Outcome} {name : String}

/-- A mapped node above the position, not at it, was mapped to the component. -/
def MappedAbove (o : Outcome) (config : Config) (position : List Nat) (name : String) : Prop :=
  ∃ n above mapped, n < position.length ∧ o.at? (position.take n) = some above ∧
    above.mapped? config = some mapped ∧ mapped.component = name

theorem not_mappedAbove_nil : ¬ o.MappedAbove config [] name := by
  rintro ⟨n, -, -, hn, -⟩
  cases hn

/-- Above a position in a child is the node itself and what is above it in the child. -/
theorem mappedAbove_cons {node : Node} {c : Candidate} {children : List Outcome} {child : Outcome}
    {i : Nat} {position : List Nat} (hchild : children[i]? = some child) :
    (taken node c children).MappedAbove config (i :: position) name ↔
      c.entry.name = name ∨ child.MappedAbove config position name := by
  constructor
  · rintro ⟨n, above, mapped, hn, hat, hmapped, hname⟩
    cases n with
    | zero =>
      obtain rfl := Option.some.inj hat
      obtain rfl := Option.some.inj hmapped
      exact .inl hname
    | succ n =>
      have hat : children[i]?.bind (fun child => child.at? (position.take n)) = some above := hat
      rw [hchild] at hat
      exact .inr ⟨n, above, mapped, Nat.lt_of_succ_lt_succ hn, hat, hmapped, hname⟩
  · rintro (hname | ⟨n, above, mapped, hn, hat, hmapped, hname⟩)
    · exact ⟨0, _, _, Nat.succ_pos _, rfl, rfl, hname⟩
    · refine ⟨n + 1, above, mapped, Nat.succ_lt_succ hn, ?_, hmapped, hname⟩
      rw [List.take_succ_cons, at?, Outcome.children, hchild, Option.bind_some, hat]

end Outcome

/-! ## Contexts along the way -/

namespace Engine

variable {engine : Engine} {context context' : Option String} {node : Node} {position : List Nat}
  {o : Outcome}

/-- The child of a settled container that is visited is settled in the context of the children. -/
theorem Settles.exists_child {c : Candidate} {i : Nat} {child : Node}
    (h : engine.Settles context o) (hbest : engine.best? o.node context = some c)
    (hatomic : c.rule.atomic = false) (hchild : o.node.children[i]? = some child)
    (hlabel : (c.rule.labelChild? o.node).map (·.1) ≠ some i) :
    ∃ children child', o = .taken o.node c children ∧ children[i]? = some child' ∧
      child'.node = child ∧
      engine.Settles (some (contextInside context c.entry.name)) child' := by
  cases h with
  | dropped hnone =>
    rw [Outcome.node, hnone] at hbest
    cases hbest
  | atomic hbest' hatomic' =>
    rw [Outcome.node, hbest'] at hbest
    obtain rfl := Option.some.inj hbest
    rw [hatomic] at hatomic'
    cases hatomic'
  | @container _ node c' children hbest' _ hnodes hlabels hsettled =>
    rw [Outcome.node, hbest'] at hbest
    obtain rfl := Option.some.inj hbest
    rw [Outcome.node, ← hnodes, List.getElem?_map] at hchild
    obtain ⟨child', hchild', hnode⟩ := Option.map_eq_some_iff.1 hchild
    refine ⟨children, child', rfl, hchild', hnode,
      hsettled child' (List.mem_of_getElem? hchild') ?_⟩
    rw [Bool.eq_false_iff, ne_eq, hlabels i child' hchild']
    exact hlabel

/-- A node that the mapping looks at has an outcome, which is settled in the context in which it
is looked at. -/
theorem Visits.exists_settles {node' : Node}
    (h : engine.Visits context node position context' node') (ho : engine.Settles context o)
    (hnode : o.node = node) :
    node.at? position = some node' ∧
      ∃ child, o.at? position = some child ∧ child.node = node' ∧
        engine.Settles context' child := by
  induction h generalizing o with
  | here context node => exact ⟨rfl, o, rfl, hnode, ho⟩
  | inside hbest hatomic hchild hlabel _ ih =>
    subst hnode
    obtain ⟨children, child', ho', hat, hnode', hsettled⟩ :=
      ho.exists_child hbest hatomic hchild hlabel
    obtain ⟨hplace, child, hchild', hrest⟩ := ih hsettled hnode'
    refine ⟨by rw [Node.at?, hchild, Option.bind_some, hplace], child, ?_, hrest⟩
    rw [ho', Outcome.at?, Outcome.children, hat, Option.bind_some, hchild']

/-- Every part of a settled outcome that is no label is about a node that the mapping looks at. -/
theorem Settles.exists_visits {child : Outcome} (h : engine.Settles context o)
    (hchild : o.at? position = some child) (hkind : child.isLabel = false) :
    ∃ context', engine.Visits context o.node position context' child.node := by
  induction position generalizing context o with
  | nil =>
    obtain rfl := Option.some.inj hchild
    exact ⟨context, .here context o.node⟩
  | cons i position ih =>
    obtain ⟨o', ho', hat⟩ := Option.bind_eq_some_iff.1 hchild
    obtain ⟨c, hbest, hatomic, hlabel, hnode, hsettled⟩ := h.exists_inside ho'
    -- Nothing is below a label, so a part that is no label is not in one.
    have hother : o'.isLabel = false := by
      cases o' with
      | dropped node => rfl
      | taken node c children => rfl
      | label node =>
        cases position with
        | nil =>
          obtain rfl := Option.some.inj hat
          exact hkind
        | cons j position => cases hat
    obtain ⟨context', hvisits⟩ := ih (hsettled hother) hat
    refine ⟨context', .inside hbest hatomic hnode ?_ hvisits⟩
    intro hplace
    have hkind' := (hlabel i o' ho').2 hplace
    rw [hother] at hkind'
    cases hkind'

/-- On the way down a context comes to name the components above the node, and nothing else is
added to it. -/
theorem Visits.contextNames_iff {node' : Node} (hcatalog : engine.catalog.Faithful)
    (h : engine.Visits context node position context' node') (ho : engine.Settles context o)
    (hnode : o.node = node) (name : String) :
    contextNames context' name = true ↔
      contextNames context name = true ∨ o.MappedAbove engine.config position name := by
  induction h generalizing o with
  | here context node => simp [Outcome.not_mappedAbove_nil]
  | inside hbest hatomic hchild hlabel _ ih =>
    subst hnode
    obtain ⟨children, child', ho', hat, hnode', hsettled⟩ :=
      ho.exists_child hbest hatomic hchild hlabel
    rw [ih hsettled hnode', contextNames_contextInside (slash_not_mem_entry_name hcatalog hbest),
      ho', Outcome.mappedAbove_cons hat, or_assoc]

/-- **A rule sees exactly the mapped nodes around a node.** The outcome of a tree is what the
mapping makes of it. The nodes that the mapping looks at are those with an outcome that is no
label, each in the context in which its candidates are chosen, and names are looked up for these
nodes only. Wherever the mapping looks at a node, the condition on a component holds exactly if a
node above it was mapped to the component, whatever text the name is. -/
theorem insideComponent_iff_mappedAbove (hcatalog : engine.catalog.Faithful) (root : Node) :
    ∃ o, engine.Settles none o ∧ o.node = root ∧
      (engine.mapTree root).root = o.mapped? engine.config ∧
      (∀ looked, looked ∈ engine.treeLookups none root ↔ ∃ position context node,
        engine.Visits none root position context node ∧ looked ∈ engine.lookups node context) ∧
      (∀ position child, o.at? position = some child → child.isLabel = false →
        ∃ context, engine.Visits none root position context child.node) ∧
      ∀ position context node, engine.Visits none root position context node →
        root.at? position = some node ∧
        (∃ child, o.at? position = some child ∧ child.node = node ∧
          engine.Settles context child) ∧
        ∀ name, (Predicate.insideComponent name).holds node context = true ↔
          o.MappedAbove engine.config position name := by
  obtain ⟨o, hsettles, rfl, hmap⟩ := engine.exists_mapTree_eq root
  refine ⟨o, hsettles, rfl, by rw [hmap], ?_, fun position child => hsettles.exists_visits, ?_⟩
  · intro looked
    refine ⟨exists_visits_of_mem_treeLookups, ?_⟩
    rintro ⟨position, context, node, hvisits, hlooked⟩
    exact hvisits.mem_treeLookups hlooked
  · intro position context node hvisits
    obtain ⟨hplace, hchild⟩ := hvisits.exists_settles hsettles rfl
    refine ⟨hplace, hchild, fun name => ?_⟩
    rw [Predicate.holds, hvisits.contextNames_iff hcatalog hsettles rfl name]
    simp [contextNames]

end Engine

/-- The button in the form item is looked at inside `Form.Item`, and not inside `Form`. -/
theorem insideComponent_iff_mappedAbove_formSheet :
    FormSheet.engine.catalog.Faithful ∧ ∃ o context node, FormSheet.engine.Settles none o ∧
      o.node = FormSheet.sheet ∧ FormSheet.engine.Visits none FormSheet.sheet [1] context node ∧
      o.MappedAbove FormSheet.engine.config [1] "Form.Item" ∧
      (Predicate.insideComponent "Form").holds node context = false ∧
      ¬ o.MappedAbove FormSheet.engine.config [1] "Form" := by
  have hcatalog : FormSheet.engine.catalog.Faithful :=
    Catalog.Index.faithful_ofSource FormSheet.source
  have hroot : (FormSheet.engine.best? FormSheet.sheet none).map
      (fun c => (c.entry.name, c.rule.atomic, (c.rule.labelChild? FormSheet.sheet).map (·.1))) =
        some ("Form.Item", false, some 0) := by decide +kernel
  obtain ⟨c, hbest, hc⟩ := Option.map_eq_some_iff.1 hroot
  simp only [Prod.mk.injEq] at hc
  obtain ⟨hname, hatomic, hlabel⟩ := hc
  have hvisits : FormSheet.engine.Visits none FormSheet.sheet [1]
      (some (contextInside none c.entry.name))
      (FormSheet.plainNode "3" .component none [FormSheet.textNode "4" "Go"]) :=
    .inside hbest hatomic rfl (by rw [hlabel]; decide) (.here _ _)
  obtain ⟨o, hsettles, hnode, -, -, -, hseen⟩ :=
    Engine.insideComponent_iff_mappedAbove hcatalog FormSheet.sheet
  obtain ⟨-, -, hnames⟩ := hseen _ _ _ hvisits
  rw [hname] at hvisits hnames
  have hform : (Predicate.insideComponent "Form").holds
      (FormSheet.plainNode "3" .component none [FormSheet.textNode "4" "Go"])
      (some (contextInside none "Form.Item")) = false := by decide +kernel
  refine ⟨hcatalog, o, _, _, hsettles, hnode, hvisits, (hnames "Form.Item").1 (by decide +kernel),
    hform, ?_⟩
  rw [← hnames "Form", hform]
  exact Bool.false_ne_true

end DesignCompiler.Mapping
