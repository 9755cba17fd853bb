import DesignCompiler.Catalog.Builtin
import DesignCompiler.Proofs.Synthesis.Outputs

/-!
# Trees that are given up

A synthesis gives a tree up for the first node that cannot be written. `Strikes` says what is
wrong with a node by itself and which fault is reported of several, `IsFaulty` that something is
wrong at all; neither speaks of writing. The fault of a draft is that of the first node in order
(`fault_write`), so `synthesize_degrades` can say of every tree when it is given up, for which
fault, and what its source then is.
-/

namespace DesignCompiler.Synthesis

open Mapping (MappedNode MappedTree)
open Markup (Structure)

/-! ## Faults of a node -/

/-- The node cannot be written at its depth. -/
def IsFaulty (options : Options) (depth : Nat) (node : MappedNode) : Prop :=
  options.maxDepth ≤ depth ∨ node.entry = none ∨
    (∃ entry, node.entry = some entry ∧ Catalog.isComponentName entry.name = false) ∨
    ∃ key ∈ node.props.keys, isAttributeName key = false

/-- The fault that is reported of a node. The depth comes before the entry, the entry before its
name, the name before the properties, and these come in the order of their names. -/
inductive Strikes (options : Options) (depth : Nat) (node : MappedNode) : Fault → Prop where
  | tooDeep (hdepth : options.maxDepth ≤ depth) :
      Strikes options depth node (.tooDeep options.maxDepth)
  | missingEntry (hdepth : depth < options.maxDepth) (hentry : node.entry = none) :
      Strikes options depth node (.missingEntry node.component node.nodeId)
  | invalidTag {entry : Catalog.Entry} (hdepth : depth < options.maxDepth)
      (hentry : node.entry = some entry) (hname : Catalog.isComponentName entry.name = false) :
      Strikes options depth node (.invalidTag entry.name)
  | invalidAttribute {entry : Catalog.Entry} {before after : List String} {key : String}
      (hdepth : depth < options.maxDepth) (hentry : node.entry = some entry)
      (hname : Catalog.isComponentName entry.name = true)
      (hkeys : node.props.keys = before ++ key :: after)
      (hbefore : ∀ k ∈ before, isAttributeName k = true) (hkey : isAttributeName key = false) :
      Strikes options depth node (.invalidAttribute entry.name key)

section Node

variable {options : Options} {depth : Nat} {node : MappedNode} {fault : Fault}

theorem Strikes.isFaulty (h : Strikes options depth node fault) :
    IsFaulty options depth node := by
  cases h with
  | tooDeep hdepth => exact .inl hdepth
  | missingEntry _ hentry => exact .inr (.inl hentry)
  | invalidTag _ hentry hname => exact .inr (.inr (.inl ⟨_, hentry, hname⟩))
  | invalidAttribute _ _ _ hkeys _ hkey =>
    refine .inr (.inr (.inr ⟨_, ?_, hkey⟩))
    rw [hkeys]
    exact List.mem_append_right _ List.mem_cons_self

/-- A node that cannot be written has the fault that is reported of it. -/
theorem strikes_of_writableEntry (h : writableEntry options depth node = .error fault) :
    Strikes options depth node fault := by
  unfold writableEntry at h
  split at h
  · rename_i hdepth
    cases h
    exact .tooDeep hdepth
  · rename_i hdepth
    have hdepth : depth < options.maxDepth := Nat.lt_of_not_le hdepth
    split at h
    · rename_i hentry
      cases h
      exact .missingEntry hdepth hentry
    · rename_i entry hentry
      split at h
      · rename_i hname
        split at h
        · rename_i key hfind
          cases h
          obtain ⟨hkey, before, after, hkeys, hbefore⟩ := List.find?_eq_some_iff_append.1 hfind
          refine .invalidAttribute hdepth hentry hname hkeys ?_ (by simpa using hkey)
          intro k hk
          simpa using hbefore k hk
        · cases h
      · rename_i hname
        cases h
        exact .invalidTag hdepth hentry (by simpa using hname)

/-- Nothing is wrong with a node that is not too deep and has all that it needs. -/
theorem not_isFaulty_of_entry {entry : Catalog.Entry} (hdepth : depth < options.maxDepth)
    (hentry : node.entry = some entry) (hname : Catalog.isComponentName entry.name = true)
    (hkeys : ∀ key ∈ node.props.keys, isAttributeName key = true) :
    ¬ IsFaulty options depth node := by
  rintro (hdeep | hnone | ⟨other, hother, hinvalid⟩ | ⟨key, hkey, hinvalid⟩)
  · omega
  · rw [hentry] at hnone
    cases hnone
  · rw [hentry] at hother
    obtain rfl := Option.some.inj hother
    rw [hname] at hinvalid
    cases hinvalid
  · rw [hkeys key hkey] at hinvalid
    cases hinvalid

/-- Nothing is wrong with a node that can be written. -/
theorem not_isFaulty_of_writableEntry {entry : Catalog.Entry}
    (h : writableEntry options depth node = .ok entry) :
    ¬ IsFaulty options depth node := by
  obtain ⟨hdepth, hentry, hname, hkeys⟩ := writableEntry_eq_ok h
  exact not_isFaulty_of_entry hdepth hentry hname hkeys

/-- The fault of a node by itself. -/
def faultAt? (options : Options) (depth : Nat) (node : MappedNode) : Option Fault :=
  match writableEntry options depth node with
  | .error fault => some fault
  | .ok _ => none

theorem strikes_of_faultAt? (h : faultAt? options depth node = some fault) :
    Strikes options depth node fault := by
  unfold faultAt? at h
  cases hentry : writableEntry options depth node with
  | error reason =>
    rw [hentry] at h
    cases h
    exact strikes_of_writableEntry hentry
  | ok entry =>
    rw [hentry] at h
    cases h

theorem faultAt?_eq_none_iff :
    faultAt? options depth node = none ↔ ¬ IsFaulty options depth node := by
  unfold faultAt?
  cases hentry : writableEntry options depth node with
  | error reason =>
    have hfaulty := (strikes_of_writableEntry hentry).isFaulty
    simp [hfaulty]
  | ok entry => simp [not_isFaulty_of_writableEntry hentry]

end Node

/-! ## The first fault -/

section First

variable {options : Options}

/-- The first fault among nodes with the components around them, of which there are as many as the
node is deep. -/
def firstFault? (options : Options) (placed : List (List String × MappedNode)) : Option Fault :=
  placed.findSome? fun p => faultAt? options p.1.length p.2

mutual

/-- The fault of a draft is the first one in the tree. -/
theorem fault_write : (node : MappedNode) → ∀ around : List String,
    (write options around.length node).fault = firstFault? options (node.placed around)
  | ⟨id, name, component, own, confidence, props, style, text, children⟩, around => by
    have hchildren := fault_writeAll children (around ++ [component])
    rw [List.length_append, List.length_singleton] at hchildren
    rw [write, MappedNode.placed, firstFault?, List.findSome?_cons, faultAt?]
    cases hentry : writableEntry options around.length
      ⟨id, name, component, own, confidence, props, style, text, children⟩ with
    | error fault => rfl
    | ok entry =>
      simp only
      rw [← firstFault?, ← hchildren]
      cases children with
      | nil => rfl
      | cons first rest =>
        simp only [Draft.fault_append, Draft.ofText, Option.none_or, Option.or_none]

theorem fault_writeAll : (nodes : List MappedNode) → ∀ around : List String,
    (writeAll options around.length nodes).fault =
      firstFault? options (MappedNode.placedAll around nodes)
  | [], around => by
    rw [writeAll, MappedNode.placedAll]
    rfl
  | node :: rest, around => by
    rw [writeAll, MappedNode.placedAll, Draft.fault_append, fault_write node, fault_writeAll rest,
      firstFault?, firstFault?, firstFault?, List.findSome?_append]

end

theorem firstFault?_eq_some {placed : List (List String × MappedNode)} {fault : Fault}
    (h : firstFault? options placed = some fault) :
    ∃ before p after, placed = before ++ p :: after ∧
      (∀ q ∈ before, ¬ IsFaulty options q.1.length q.2) ∧
      Strikes options p.1.length p.2 fault := by
  obtain ⟨before, p, after, hplaced, hfault, hbefore⟩ := List.findSome?_eq_some_iff.1 h
  exact ⟨before, p, after, hplaced, fun q hq => faultAt?_eq_none_iff.1 (hbefore q hq),
    strikes_of_faultAt? hfault⟩

theorem firstFault?_eq_none_iff {placed : List (List String × MappedNode)} :
    firstFault? options placed = none ↔ ∀ p ∈ placed, ¬ IsFaulty options p.1.length p.2 := by
  unfold firstFault?
  rw [List.findSome?_eq_none_iff]
  exact forall₂_congr fun _ _ => faultAt?_eq_none_iff

end First

/-! ## Outputs of trees that are given up -/

section Outputs

variable {options : Options} {name message : String} {draft : Draft} {fault : Fault}

theorem ofDraft_of_fault (h : draft.fault = some fault) :
    Output.ofDraft options name draft = .assemble options name []
      (some (fallbackText options (faultMessage fault)))
      [.warning .synthesis (faultMessage fault)] := by
  unfold Output.ofDraft
  rw [h]

/-- A draft is given up exactly when it has a fault. -/
theorem diagnostics_ofDraft_ne_nil_iff :
    (Output.ofDraft options name draft).diagnostics ≠ [] ↔ draft.fault ≠ none := by
  cases hfault : draft.fault with
  | none => simp [ofDraft_of_fault_eq_none hfault, Output.assemble]
  | some fault => simp [ofDraft_of_fault hfault, Output.assemble]

/-- The fallback stands in its source as it is. -/
theorem fallbackTag_isInfix (imports : List String) :
    fallbackTag message <:+:
      sourceText options name imports (some (fallbackText options message)) := by
  have hsource : sourceText options name imports (some (fallbackText options message)) = _ :=
    sourceText_some options name imports (fallbackTag message)
  refine ⟨moduleHead options name imports ++ '\x7b' :: returnHead options,
    returnTail options ++ '\x7d' :: moduleTail options name, ?_⟩
  rw [hsource]
  simp

end Outputs

/-- **A synthesis gives a tree up exactly when it must, and cleanly.** Whatever was written
before, and whatever the tree, the name and the options are: the tree is given up exactly when one
of its nodes is too deep, has no entry, has an entry with an invalid name or has a property with
an invalid name; a tree without such a node is written as it is. The fault is that of the first
such node. It is the one warning, React is the only import, and the source is taken apart into a
single element, which shows the text of the fault as an expression. -/
theorem synthesize_degrades {synthesizer : Synthesizer} {tree : MappedTree} {root : MappedNode}
    (hroot : tree.root = some root) (name : String) :
    ((synthesizer.synthesize tree name).2.diagnostics ≠ [] ↔
      ∃ p ∈ root.placed [], IsFaulty synthesizer.options p.1.length p.2) ∧
    ((synthesizer.synthesize tree name).2.diagnostics = [] →
      (synthesizer.synthesize tree name).2 =
        .assemble synthesizer.options (componentIdentifier name)
          (write synthesizer.options 0 root).imports
          (some (write synthesizer.options 0 root).text) []) ∧
    ((synthesizer.synthesize tree name).2.diagnostics ≠ [] →
      ∃ before p after fault s, root.placed [] = before ++ p :: after ∧
        (∀ q ∈ before, ¬ IsFaulty synthesizer.options q.1.length q.2) ∧
        Strikes synthesizer.options p.1.length p.2 fault ∧
        (synthesizer.synthesize tree name).2.diagnostics =
          [.warning .synthesis ("Code generation failed: " ++ fault.message)] ∧
        (synthesizer.synthesize tree name).2.imports = ["import React from 'react';"] ∧
        fallbackTag ("Code generation failed: " ++ fault.message) <:+:
          (synthesizer.synthesize tree name).2.sourceText.toList ∧
        Structure.ofText (synthesizer.synthesize tree name).2.sourceText = .ok s ∧
        (∃ e, s.elements = [e] ∧ e.unplaced = fallbackElement) ∧
        s.unclosed = [] ∧ s.unexpectedClosings = [] ∧ Binds s.imports []) := by
  rw [synthesize_of_root hroot]
  have hfirst : (write synthesizer.options 0 root).fault =
      firstFault? synthesizer.options (root.placed []) :=
    fault_write root []
  have hgiven : (Output.ofDraft synthesizer.options (componentIdentifier name)
      (write synthesizer.options 0 root)).diagnostics ≠ [] ↔
      (write synthesizer.options 0 root).fault ≠ none :=
    diagnostics_ofDraft_ne_nil_iff
  refine ⟨?_, ?_, ?_⟩
  · rw [hgiven, hfirst, Ne, firstFault?_eq_none_iff]
    push Not
    rfl
  · intro hnone
    have hfault : (write synthesizer.options 0 root).fault = none := by
      by_contra hne
      exact hgiven.2 hne hnone
    exact ofDraft_of_fault_eq_none hfault
  · intro hne
    obtain ⟨fault, hfault⟩ := Option.ne_none_iff_exists'.1 (hgiven.1 hne)
    obtain ⟨before, p, after, hplaced, hbefore, hstrikes⟩ :=
      firstFault?_eq_some (hfirst.symm.trans hfault)
    obtain ⟨s, hs, hmade⟩ := exists_isMade_fallback synthesizer.options name (faultMessage fault)
    rw [ofDraft_of_fault hfault]
    refine ⟨before, p, after, fault, s, hplaced, hbefore, hstrikes, rfl, rfl, ?_, hs, ?_,
      hmade.unclosed, hmade.unexpectedClosings, hmade.binds⟩
    · simp only [Output.assemble, String.toList_ofList]
      exact fallbackTag_isInfix _
    · obtain ⟨e, he, hshown⟩ := List.map_eq_singleton_iff.1 hmade.elements
      exact ⟨e, he, hshown⟩

/-- A node whose component is none of the catalog; its name reads like the end of the tree around
it. -/
def stray : MappedNode :=
  { nodeId := "2:1", nodeName := "Stray", component := "</div>\x7b\"", entry := none
    confidence := 100, props := ∅, style := none, text := none, children := [] }

/-- A card around the stray node. -/
def strayCard : MappedNode :=
  { nodeId := "1:1", nodeName := "Card", component := "Card",
    entry := Catalog.builtinSource.entry? "Card"
    confidence := 100, props := ∅, style := none, text := none, children := [stray] }

theorem synthesize_degrades_strayCard :
    ∃ s, Structure.ofText
        ((Synthesizer.ofOptions .default).synthesize ⟨some strayCard, []⟩ "card").2.sourceText =
      .ok s ∧
      (∃ e, s.elements = [e] ∧ e.unplaced = fallbackElement) ∧ s.unclosed = [] ∧
      s.unexpectedClosings = [] := by
  obtain ⟨hwhen, -, hclean⟩ :=
    @synthesize_degrades (Synthesizer.ofOptions .default) ⟨some strayCard, []⟩ strayCard rfl
      "card"
  have hfaulty : IsFaulty (Synthesizer.ofOptions .default).options 1 stray := .inr (.inl rfl)
  obtain ⟨_, _, _, _, s, -, -, -, -, -, -, hs, helement, hunclosed, hclosings, -⟩ :=
    hclean
      (hwhen.2 ⟨(["Card"], stray), by
        simp [MappedNode.placed, MappedNode.placedAll, strayCard, stray], hfaulty⟩)
  exact ⟨s, hs, helement, hunclosed, hclosings⟩

end DesignCompiler.Synthesis
