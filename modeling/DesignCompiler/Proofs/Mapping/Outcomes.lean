import DesignCompiler.Proofs.Mapping.Trees

/-!
# What becomes of every node

An `Outcome` is a semantic tree on which is written what the mapping does with each node: the node
is dropped, its text is the label of its parent, or it takes a candidate. `Engine.Settles` says
when an outcome is the right one. It speaks of best candidates only, not of the mapping, and it
leaves no choice (`Engine.Settles.unique`): every child of a container has one outcome.

`Engine.exists_settles` ties the two together: the mapped tree and the warnings are read off the
outcome.
-/

namespace DesignCompiler.Mapping

open Semantic (Node)

/-! ## Outcomes -/

/-- What becomes of a node, and of the nodes below it where each of them has an outcome of its
own. -/
inductive Outcome where
  /-- No component fits, and the node is dropped with all that is below it. -/
  | dropped (node : Node)
  /-- The text of the node is the label of its parent, and nothing else is made of the node. -/
  | label (node : Node)
  /-- The node takes its candidate. -/
  | taken (node : Node) (c : Candidate) (children : List Outcome)

namespace Outcome

/-- The node that the outcome is about. -/
def node : Outcome → Node
  | dropped node => node
  | label node => node
  | taken node _ _ => node

/-- The outcomes of the children. -/
def children : Outcome → List Outcome
  | taken _ _ children => children
  | _ => []

/-- The candidate that the node takes. -/
def candidate? : Outcome → Option Candidate
  | taken _ c _ => some c
  | _ => none

/-- Whether the node only gives its text as a label. -/
def isLabel : Outcome → Bool
  | label _ => true
  | _ => false

mutual

/-- The mapped node that the outcome comes to. -/
def mapped? (config : Config) : Outcome → Option MappedNode
  | dropped _ => none
  | label _ => none
  | taken node c children => some (mappedWith config c node (mappedAll config children))

/-- The mapped nodes that the outcomes come to, in order. -/
def mappedAll (config : Config) : List Outcome → List MappedNode
  | [] => []
  | o :: rest => (mapped? config o).toList ++ mappedAll config rest

end

mutual

/-- The outcome and those below it, a node before its children. -/
def preorder : Outcome → List Outcome
  | dropped node => [dropped node]
  | label node => [label node]
  | taken node c children => taken node c children :: preorderAll children

/-- The outcomes and those below them in order. -/
def preorderAll : List Outcome → List Outcome
  | [] => []
  | o :: rest => preorder o ++ preorderAll rest

end

/-- The node, if it takes a candidate. -/
def taken? : Outcome → Option Node
  | taken node _ _ => some node
  | _ => none

/-- The node, if it is dropped. -/
def dropped? : Outcome → Option Node
  | dropped node => some node
  | _ => none

/-- The node, if it is a label. -/
def label? : Outcome → Option Node
  | label node => some node
  | _ => none

/-- The children of the node, if an atomic component takes the place of what is below it. -/
def absorbed : Outcome → List Node
  | taken node c _ => if c.rule.atomic then node.children else []
  | _ => []

end Outcome

/-! ## The right outcome -/

/-- The outcome at the place `label`, and no other one, is that of a label. -/
def LabelAt (label : Option Nat) (outcomes : List Outcome) : Prop :=
  ∀ i o, outcomes[i]? = some o → (o.isLabel = true ↔ label = some i)

/-- The outcome is what becomes of its node in the given context. A node without a candidate is
dropped. An atomic component leaves no outcomes below its node. In a container every child has one
outcome; the child whose text the rule takes as a label is a label, and every other child is
settled inside the component. -/
inductive Engine.Settles (engine : Engine) : Option String → Outcome → Prop where
  | dropped {context : Option String} {node : Node} (hbest : engine.best? node context = none) :
      Settles engine context (.dropped node)
  | atomic {context : Option String} {node : Node} {c : Candidate}
      (hbest : engine.best? node context = some c) (hatomic : c.rule.atomic = true) :
      Settles engine context (.taken node c [])
  | container {context : Option String} {node : Node} {c : Candidate} {children : List Outcome}
      (hbest : engine.best? node context = some c) (hatomic : c.rule.atomic = false)
      (hnodes : children.map Outcome.node = node.children)
      (hlabel : LabelAt ((c.rule.labelChild? node).map (·.1)) children)
      (hsettled : ∀ o ∈ children, o.isLabel = false →
        Settles engine (some (contextInside context c.entry.name)) o) :
      Settles engine context (.taken node c children)

section Labels

variable {label : Option Nat} {o : Outcome} {outcomes : List Outcome}

theorem labelAt_nil (label : Option Nat) : LabelAt label [] := by
  intro i o ho
  simp at ho

/-- A label in front leaves none behind it. -/
theorem LabelAt.cons_label (node : Node) (h : LabelAt none outcomes) :
    LabelAt (some 0) (.label node :: outcomes) := by
  intro i o ho
  cases i with
  | zero =>
    obtain rfl : Outcome.label node = o := by simpa using ho
    simp [Outcome.isLabel]
  | succ i =>
    have hlabel := h i o (by simpa using ho)
    simp at hlabel
    simp [hlabel]

/-- In front of a child that is no label the place of the label counts one more. -/
theorem LabelAt.cons (hlabel : label ≠ some 0) (ho : o.isLabel = false)
    (h : LabelAt (label.map (· - 1)) outcomes) :
    LabelAt label (o :: outcomes) := by
  intro i o' ho'
  cases i with
  | zero =>
    obtain rfl : o = o' := by simpa using ho'
    simp [ho, hlabel]
  | succ i =>
    rw [h i o' (by simpa using ho')]
    cases label with
    | none => simp
    | some place =>
      have hplace : place ≠ 0 := by simpa using hlabel
      simp only [Option.map_some, Option.some.injEq]
      omega

theorem Outcome.eq_label_of_isLabel (h : o.isLabel = true) : ∃ node, o = .label node := by
  cases o with
  | label node => exact ⟨node, rfl⟩
  | dropped node => cases h
  | taken node c children => cases h

/-- Two lists of outcomes for the same nodes are the same if the labels are at the same place and
all others are. -/
theorem eq_of_labelAt {outcomes' : List Outcome} (hlabel : LabelAt label outcomes)
    (hlabel' : LabelAt label outcomes')
    (hnodes : outcomes.map Outcome.node = outcomes'.map Outcome.node)
    (hothers : ∀ o ∈ outcomes, ∀ o' ∈ outcomes',
      o.isLabel = false → o'.isLabel = false → o.node = o'.node → o = o') :
    outcomes = outcomes' := by
  have hlength : outcomes.length = outcomes'.length := by simpa using congrArg List.length hnodes
  refine List.ext_getElem hlength ?_
  intro i hi hi'
  have hnode : outcomes[i].node = outcomes'[i].node := by
    have hget := congrArg (·[i]?) hnodes
    simpa [hi, hi'] using hget
  have hfirst := hlabel i outcomes[i] (List.getElem?_eq_getElem hi)
  have hsecond := hlabel' i outcomes'[i] (List.getElem?_eq_getElem hi')
  have hsame : outcomes[i].isLabel = outcomes'[i].isLabel := by
    rw [Bool.eq_iff_iff, hfirst, hsecond]
  cases hkind : outcomes[i].isLabel with
  | false =>
    exact hothers _ (List.getElem_mem hi) _ (List.getElem_mem hi') hkind (hsame ▸ hkind) hnode
  | true =>
    obtain ⟨n, hn⟩ := Outcome.eq_label_of_isLabel hkind
    obtain ⟨n', hn'⟩ := Outcome.eq_label_of_isLabel (hsame ▸ hkind)
    rw [hn, hn'] at hnode ⊢
    exact congrArg Outcome.label hnode

end Labels

namespace Engine.Settles

variable {engine : Engine} {context : Option String} {o o' : Outcome}

theorem isLabel_eq_false (h : engine.Settles context o) : o.isLabel = false := by
  cases h <;> rfl

theorem best?_eq (h : engine.Settles context o) : engine.best? o.node context = o.candidate? := by
  cases h with
  | dropped hbest => exact hbest
  | atomic hbest _ => exact hbest
  | container hbest _ _ _ _ => exact hbest

theorem candidate?_eq (h : engine.Settles context o) (h' : engine.Settles context o')
    (hnode : o.node = o'.node) :
    o.candidate? = o'.candidate? := by
  rw [← h.best?_eq, hnode, h'.best?_eq]

/-- A node has one outcome only. -/
theorem unique (h : engine.Settles context o) (h' : engine.Settles context o')
    (hnode : o.node = o'.node) :
    o = o' := by
  induction h generalizing o' with
  | dropped hbest =>
    have hsame := (Settles.dropped hbest).candidate?_eq h' hnode
    cases h' with
    | dropped _ => exact congrArg Outcome.dropped hnode
    | atomic _ _ => cases hsame
    | container _ _ _ _ _ => cases hsame
  | atomic hbest hatomic =>
    have hsame := (Settles.atomic hbest hatomic).candidate?_eq h' hnode
    cases h' with
    | dropped _ => cases hsame
    | atomic _ _ =>
      obtain rfl := Option.some.inj hsame
      obtain rfl := hnode
      rfl
    | container _ hatomic' _ _ _ =>
      obtain rfl := Option.some.inj hsame
      rw [hatomic] at hatomic'
      cases hatomic'
  | container hbest hatomic hnodes hlabel hsettled ih =>
    have hsame := (Settles.container hbest hatomic hnodes hlabel hsettled).candidate?_eq h' hnode
    cases h' with
    | dropped _ => cases hsame
    | atomic _ hatomic' =>
      obtain rfl := Option.some.inj hsame
      rw [hatomic] at hatomic'
      cases hatomic'
    | container _ _ hnodes' hlabel' hsettled' =>
      obtain rfl := Option.some.inj hsame
      obtain rfl := hnode
      refine congrArg (Outcome.taken _ _)
        (eq_of_labelAt hlabel hlabel' (hnodes.trans hnodes'.symm) ?_)
      intro o ho o' ho' hkind hkind' hnode
      exact ih o ho hkind (hsettled' o' ho' hkind') hnode

/-- What holds of an outcome when it holds of all below it holds of every settled outcome. -/
theorem induct {P : Outcome → Prop} (h : engine.Settles context o)
    (hdropped : ∀ node, P (.dropped node)) (hlabel : ∀ node, P (.label node))
    (hatomic : ∀ node c, c.rule.atomic = true → P (.taken node c []))
    (hcontainer : ∀ node c children, c.rule.atomic = false →
      children.map Outcome.node = node.children →
      (∀ o ∈ children, P o) → P (.taken node c children)) : P o := by
  induction h with
  | dropped hbest => exact hdropped _
  | atomic hbest hrule => exact hatomic _ _ hrule
  | @container context node c children hbest hrule hnodes _ _ ih =>
    refine hcontainer _ _ _ hrule hnodes ?_
    intro o ho
    cases o with
    | label node => exact hlabel node
    | dropped node => exact ih _ ho rfl
    | taken node c children => exact ih _ ho rfl

end Engine.Settles

/-! ## The mapping read off the outcome -/

namespace Outcome

mutual

/-- The nodes of the mapped tree are what the outcomes below come to, in their order. -/
theorem preorderAll_mapped? (config : Config) : (o : Outcome) →
    MappedNode.preorderAll (o.mapped? config).toList = o.preorder.filterMap (mapped? config)
  | dropped _ => rfl
  | label _ => rfl
  | taken node c children => by
    have hchildren := preorderAll_mappedAll config children
    simp [mapped?, preorder, ← hchildren, MappedNode.preorderAll, MappedNode.preorder_eq,
      mappedWith]

theorem preorderAll_mappedAll (config : Config) : (outcomes : List Outcome) →
    MappedNode.preorderAll (mappedAll config outcomes) =
      (preorderAll outcomes).filterMap (mapped? config)
  | [] => rfl
  | o :: rest => by
    rw [mappedAll, preorderAll, List.filterMap_append, MappedNode.preorderAll_append,
      preorderAll_mapped? config o, preorderAll_mappedAll config rest]

end

end Outcome

/-- The warnings about the nodes that are dropped. -/
def Outcome.warnings (outcomes : List Outcome) : List Diagnostic :=
  (outcomes.filterMap Outcome.dropped?).map droppedWarning

theorem Outcome.warnings_append (outcomes outcomes' : List Outcome) :
    warnings (outcomes ++ outcomes') = warnings outcomes ++ warnings outcomes' := by
  unfold warnings
  rw [List.filterMap_append, List.map_append]

namespace Engine

/-- The outcomes of children, and what mapping the children comes to. -/
def SettlesAll (engine : Engine) (context : String) (label : Option Nat) (nodes : List Node)
    (outcomes : List Outcome) : Prop :=
  outcomes.map Outcome.node = nodes ∧ LabelAt label outcomes ∧
    (∀ o ∈ outcomes, o.isLabel = false → engine.Settles (some context) o) ∧
    engine.mapChildren context label nodes =
      (Outcome.mappedAll engine.config outcomes, Outcome.warnings (Outcome.preorderAll outcomes))

theorem settlesAll_nil (engine : Engine) (context : String) (label : Option Nat) :
    engine.SettlesAll context label [] [] :=
  ⟨rfl, labelAt_nil label, by simp, by rw [mapChildren]; rfl⟩

/-- A child that gives its text as a label is passed over. -/
theorem SettlesAll.cons_label {engine : Engine} {context : String} {nodes : List Node}
    {outcomes : List Outcome} (child : Node) (h : engine.SettlesAll context none nodes outcomes) :
    engine.SettlesAll context (some 0) (child :: nodes) (.label child :: outcomes) := by
  obtain ⟨hnodes, hlabel, hsettled, hmap⟩ := h
  refine ⟨by rw [List.map_cons, hnodes]; rfl, hlabel.cons_label child, ?_, ?_⟩
  · intro o ho hnot
    rcases List.mem_cons.1 ho with rfl | ho
    · cases hnot
    · exact hsettled o ho hnot
  · rw [mapChildren, if_pos rfl, hmap]
    rfl

/-- A child that is no label is mapped by itself. -/
theorem SettlesAll.cons {engine : Engine} {context : String} {label : Option Nat}
    {nodes : List Node} {outcomes : List Outcome} {o : Outcome} (hne : label ≠ some 0)
    (ho : engine.Settles (some context) o)
    (hmapped : engine.mapNode (some context) o.node =
      (o.mapped? engine.config).map fun m => (m, Outcome.warnings o.preorder))
    (h : engine.SettlesAll context (label.map (· - 1)) nodes outcomes) :
    engine.SettlesAll context label (o.node :: nodes) (o :: outcomes) := by
  obtain ⟨hnodes, hlabel, hsettled, hmap⟩ := h
  refine ⟨by rw [List.map_cons, hnodes], hlabel.cons hne ho.isLabel_eq_false, ?_, ?_⟩
  · intro o' ho' hnot
    rcases List.mem_cons.1 ho' with rfl | ho'
    · exact ho
    · exact hsettled o' ho' hnot
  · rw [mapChildren, if_neg hne, hmap, hmapped, Outcome.mappedAll, Outcome.preorderAll,
      Outcome.warnings_append]
    cases ho with
    | dropped => rfl
    | atomic => rfl
    | container => rfl

mutual

/-- Every node has an outcome, and mapping the node comes to what the outcome says. -/
theorem exists_settles (engine : Engine) :
    (node : Node) → ∀ context, ∃ o, engine.Settles context o ∧ o.node = node ∧
      engine.mapNode context node =
        (o.mapped? engine.config).map fun m => (m, Outcome.warnings o.preorder)
  | ⟨id, name, kind, layout, styling, content, properties, children⟩, context => by
    rw [mapNode]
    cases hbest : engine.best? ⟨id, name, kind, layout, styling, content, properties, children⟩
      context with
    | none => exact ⟨.dropped _, .dropped hbest, rfl, rfl⟩
    | some c =>
      cases hatomic : c.rule.atomic with
      | true =>
        refine ⟨.taken _ c [], .atomic hbest hatomic, rfl, ?_⟩
        simp only [hatomic]
        rfl
      | false =>
        obtain ⟨outcomes, hnodes, hlabel, hsettled, hmap⟩ := exists_settlesAll engine children
          (contextInside context c.entry.name)
          ((c.rule.labelChild? ⟨id, name, kind, layout, styling, content,
            properties, children⟩).map (·.1))
        refine ⟨.taken _ c outcomes, .container hbest hatomic hnodes hlabel hsettled, rfl, ?_⟩
        simp only [hatomic, hmap]
        rfl

/-- The children of a container have outcomes, and mapping the children comes to what the outcomes
say. -/
theorem exists_settlesAll (engine : Engine) : (nodes : List Node) → ∀ context label,
    ∃ outcomes, engine.SettlesAll context label nodes outcomes
  | [], context, label => ⟨[], engine.settlesAll_nil context label⟩
  | child :: rest, context, label => by
    by_cases hlabel : label = some 0
    · obtain ⟨outcomes, hrest⟩ := exists_settlesAll engine rest context none
      rw [hlabel]
      exact ⟨_, hrest.cons_label child⟩
    · obtain ⟨o, ho, hnode, hmapped⟩ := exists_settles engine child (some context)
      obtain ⟨outcomes, hrest⟩ := exists_settlesAll engine rest context (label.map (· - 1))
      subst hnode
      exact ⟨_, hrest.cons hlabel ho hmapped⟩

end

/-- The mapped tree and its warnings are those of an outcome; a root that is dropped leaves no
warning. -/
theorem exists_mapTree_eq (engine : Engine) (root : Node) :
    ∃ o, engine.Settles none o ∧ o.node = root ∧ engine.mapTree root =
      ⟨o.mapped? engine.config,
        if (o.mapped? engine.config).isSome then Outcome.warnings o.preorder else []⟩ := by
  obtain ⟨o, hsettles, hnode, hmap⟩ := engine.exists_settles root none
  refine ⟨o, hsettles, hnode, ?_⟩
  rw [mapTree, hmap]
  cases o.mapped? engine.config <;> rfl

end Engine

end DesignCompiler.Mapping
