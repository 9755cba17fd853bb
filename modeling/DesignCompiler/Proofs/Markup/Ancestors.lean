import Mathlib.Data.List.Perm.Subperm
import DesignCompiler.Proofs.Markup.Order

/-!
# Ancestors

The ancestors of an element are the stack of open tags when its own tag is read. `Assembled` says
how findings are put together for a given stack and a given depth: between the opening tag of an
element and its closing tag the stack has its tag on it, while its attribute values are read with
the stack that it finds itself. From this follow, by induction on how the findings are put
together, the depth of the elements (`length_ancestors_lt`), that they form a forest
(`Assembled.isForest`), and whose the unclosed tags are (`Assembled.exists_owners`).

`elements_form_forest` is what it comes to for a whole source.
-/

namespace DesignCompiler.Markup

/-! ## Findings with a stack -/

/-- Findings below the given stack of open tags, with elements nested at most so deep. An element
stands between what its attribute values hold and what its children are. -/
inductive Assembled : Nat → List String → Findings → Prop where
  | none (nesting : Nat) (stack : List String) : Assembled nesting stack .none
  | stray (nesting : Nat) (stack : List String) (tag : String) (line : Nat) :
    Assembled nesting stack (.unexpectedClosing tag line)
  | append {nesting : Nat} {stack : List String} {found later : Findings}
    (hfound : Assembled nesting stack found) (hlater : Assembled nesting stack later) :
    Assembled nesting stack (found ++ later)
  | selfClosing {nesting : Nat} {stack : List String} {values : Findings} (tag : String)
    (attributes : List Attribute) (line : Nat) (hvalues : Assembled nesting stack values) :
    Assembled (nesting + 1) stack (values ++ .element (.bare tag attributes line stack true))
  | opened {nesting : Nat} {stack : List String} {values children : Findings} (tag : String)
    (attributes : List Attribute) (line : Nat) (inside : Inside)
    (hvalues : Assembled nesting stack values)
    (hchildren : Assembled nesting (stack ++ [tag]) children)
    (hchild : inside.hasElement = true → ∃ e ∈ children.elements, e.ancestors = stack ++ [tag]) :
    Assembled (nesting + 1) stack
      (values ++ .element ((Element.bare tag attributes line stack false).filled inside) ++
        children ++ .missingClose inside tag line)

theorem isWay_assembled (nesting : Nat) (stack : List String) :
    IsWay fun _ found _ => Assembled nesting stack found where
  quiet _ := .none nesting stack
  stray _ := .stray nesting stack _ _
  append := .append

/-- An element is found with the stack as its ancestors, and what it finds is put together below
the stack. -/
theorem assembled_scanElement (nesting : Nat) (stack : List String) (c : Cursor)
    {found : Scanned Unit c.rest.tail.length} (h : scanElement nesting stack c = .ok found) :
    Assembled nesting stack found.findings ∧
      ∃ e ∈ found.findings.elements, e.ancestors = stack := by
  induction nesting generalizing stack c with
  | zero => cases h
  | succ nesting ih =>
    have helement (stack : List String) (c : Cursor) (_ : c.rest.head? = some '<') :
        Along (fun _ found _ => Assembled nesting stack found) c (scanElement nesting stack c) :=
      fun inner hinner => (ih stack c hinner).1
    obtain ⟨hname, attributes, hscan, hcases⟩ := scanElementWith_cases h
    have hvalues := along_scanAttributes (isWay_assembled nesting stack) (helement stack) _ _
      hname attributes hscan
    rcases hcases with ⟨rest, -, -, hfindings⟩ | ⟨rest, inside, children, -, hinside, hfindings⟩
    · rw [hfindings]
      exact ⟨.selfClosing _ _ _ hvalues, _,
        List.mem_append_right _ (List.mem_singleton_self _), rfl⟩
    · have hchildren := along_childrenScan (isWay_assembled nesting _) (helement _) hinside
      have hchild (hany : inside.hasElement = true) :
          ∃ e ∈ children.elements, e.ancestors = stack ++ [c.next.tagName] := by
        obtain ⟨child, inner, earlier, later, -, hinner, rfl⟩ := hinside.exists_element hany
        obtain ⟨-, e, he, hancestors⟩ := ih _ child hinner
        exact ⟨e, List.mem_append_left _ (List.mem_append_right _ he), hancestors⟩
      rw [hfindings]
      refine ⟨.opened _ _ _ inside hvalues hchildren hchild,
        (Element.bare c.next.tagName attributes.value c.line stack false).filled inside, ?_, rfl⟩
      simp [Findings.element]

/-! ## Depth -/

/-- An element has fewer ancestors than there are tags on the stack and elements that may be
nested. -/
theorem Assembled.length_ancestors_lt {nesting : Nat} {stack : List String} {found : Findings}
    (h : Assembled nesting stack found) :
    ∀ e ∈ found.elements, e.ancestors.length < stack.length + nesting := by
  induction h with
  | none => exact List.forall_mem_nil _
  | stray => exact List.forall_mem_nil _
  | append _ _ ihfound ihlater => exact List.forall_mem_append.2 ⟨ihfound, ihlater⟩
  | selfClosing tag attributes line _ ih =>
    refine List.forall_mem_append.2 ⟨fun e he => Nat.lt_succ_of_lt (ih e he), ?_⟩
    exact List.forall_mem_singleton.2 (Nat.lt_add_of_pos_right (Nat.succ_pos _))
  | opened tag attributes line inside _ _ _ ihvalues ihchildren =>
    rw [Findings.elements_append, Findings.elements_missingClose, List.append_nil]
    refine List.forall_mem_append.2
      ⟨List.forall_mem_append.2 ⟨fun e he => Nat.lt_succ_of_lt (ihvalues e he), ?_⟩, ?_⟩
    · exact List.forall_mem_singleton.2 (Nat.lt_add_of_pos_right (Nat.succ_pos _))
    · intro e he
      have := ihchildren e he
      rw [List.length_append, List.length_singleton] at this
      omega

/-! ## Parents and children -/

/-- The element has an opening and a closing tag, and the ancestors are those of what stands
between them. -/
structure Element.Encloses (parent : Element) (ancestors : List String) : Prop where
  opens : parent.selfClosing = false
  eq_append : ancestors = parent.ancestors ++ [parent.tag]

/-- Every element has the stack as its ancestors or comes after a parent, and if it is to have a
child, then one comes after it. -/
structure IsForest (stack : List String) (elements : List Element) : Prop where
  parent : ∀ earlier e later, elements = earlier ++ e :: later →
    e.ancestors = stack ∨ ∃ parent ∈ earlier, parent.Encloses e.ancestors
  child : ∀ earlier e later, elements = earlier ++ e :: later → e.hasElementChild = true →
    ∃ child ∈ later, child.ancestors = e.ancestors ++ [e.tag]

section IsForest

variable {stack : List String} {elements later : List Element}

theorem isForest_nil (stack : List String) : IsForest stack [] where
  parent := by simp
  child := by simp

theorem isForest_singleton {e : Element} (hancestors : e.ancestors = stack)
    (hnone : e.hasElementChild = false) :
    IsForest stack [e] where
  parent earlier e' later h := by
    obtain ⟨rfl, hcons⟩ | ⟨_, _, hnil⟩ := List.cons_eq_append_iff.1 h
    · cases hcons
      exact .inl hancestors
    · simp at hnil
  child earlier e' later h hchild := by
    obtain ⟨rfl, hcons⟩ | ⟨_, _, hnil⟩ := List.cons_eq_append_iff.1 h
    · cases hcons
      exact absurd hchild (Bool.eq_false_iff.1 hnone)
    · simp at hnil

theorem IsForest.append (h : IsForest stack elements) (h' : IsForest stack later) :
    IsForest stack (elements ++ later) where
  parent earlier e rest heq := by
    rcases List.append_eq_append_iff.1 heq with ⟨between, rfl, hlater⟩ | ⟨between, rfl, hcons⟩
    · refine (h'.parent between e rest hlater).imp_right ?_
      rintro ⟨parent, hmem, hparent⟩
      exact ⟨parent, List.mem_append_right _ hmem, hparent⟩
    · rcases List.cons_eq_append_iff.1 hcons with ⟨rfl, hlater⟩ | ⟨rest', rfl, -⟩
      · exact (h'.parent [] e rest hlater).imp_right
          fun ⟨_, hmem, _⟩ => absurd hmem List.not_mem_nil
      · exact h.parent earlier e rest' rfl
  child earlier e rest heq hchild := by
    rcases List.append_eq_append_iff.1 heq with ⟨between, rfl, hlater⟩ | ⟨between, rfl, hcons⟩
    · exact h'.child between e rest hlater hchild
    · rcases List.cons_eq_append_iff.1 hcons with ⟨rfl, hlater⟩ | ⟨rest', rfl, rfl⟩
      · exact h'.child [] e rest hlater hchild
      · obtain ⟨child, hmem, hancestors⟩ := h.child earlier e rest' rfl hchild
        exact ⟨child, List.mem_append_left _ hmem, hancestors⟩

/-- An element stands in front of its children. -/
theorem IsForest.cons {e : Element} (hancestors : e.ancestors = stack)
    (hopens : e.selfClosing = false)
    (hchild : e.hasElementChild = true → ∃ child ∈ later, child.ancestors = stack ++ [e.tag])
    (h : IsForest (stack ++ [e.tag]) later) : IsForest stack (e :: later) where
  parent earlier e' rest heq := by
    rcases List.cons_eq_append_iff.1 heq with ⟨rfl, hcons⟩ | ⟨earlier', rfl, hlater⟩
    · cases hcons
      exact .inl hancestors
    · refine .inr ?_
      rcases h.parent earlier' e' rest hlater with hown | ⟨parent, hmem, hparent⟩
      · exact ⟨e, List.mem_cons_self, hopens, by rw [hown, hancestors]⟩
      · exact ⟨parent, List.mem_cons_of_mem _ hmem, hparent⟩
  child earlier e' rest heq hany := by
    rcases List.cons_eq_append_iff.1 heq with ⟨rfl, hcons⟩ | ⟨earlier', rfl, hlater⟩
    · cases hcons
      rw [hancestors]
      exact hchild hany
    · exact h.child earlier' e' rest hlater hany

end IsForest

theorem Assembled.isForest {nesting : Nat} {stack : List String} {found : Findings}
    (h : Assembled nesting stack found) : IsForest stack found.elements := by
  induction h with
  | none nesting stack => exact isForest_nil stack
  | stray nesting stack => exact isForest_nil stack
  | append _ _ ihfound ihlater => exact ihfound.append ihlater
  | selfClosing tag attributes line _ ih => exact ih.append (isForest_singleton rfl rfl)
  | opened tag attributes line inside _ _ hchild ihvalues ihchildren =>
    rw [Findings.elements_append, Findings.elements_missingClose, List.append_nil,
      Findings.elements_append, Findings.elements_append, List.append_assoc]
    exact ihvalues.append (IsForest.cons rfl rfl hchild ihchildren)

/-! ## Owners of unclosed tags -/

/-- The unclosed tags are those of different elements, which do not close themselves. -/
theorem Assembled.exists_owners {nesting : Nat} {stack : List String} {found : Findings}
    (h : Assembled nesting stack found) :
    ∃ owners : List Element, owners.Subperm found.elements ∧
      (∀ e ∈ owners, e.selfClosing = false) ∧ owners.map Element.mark = found.unclosed := by
  induction h with
  | none => exact ⟨[], List.nil_subperm, List.forall_mem_nil _, rfl⟩
  | stray => exact ⟨[], List.nil_subperm, List.forall_mem_nil _, rfl⟩
  | append _ _ ihfound ihlater =>
    obtain ⟨owners, hsub, hopen, hmarks⟩ := ihfound
    obtain ⟨owners', hsub', hopen', hmarks'⟩ := ihlater
    exact ⟨owners ++ owners', hsub.append hsub', List.forall_mem_append.2 ⟨hopen, hopen'⟩,
      by rw [List.map_append, hmarks, hmarks', Findings.unclosed_append]⟩
  | selfClosing tag attributes line _ ih =>
    obtain ⟨owners, hsub, hopen, hmarks⟩ := ih
    refine ⟨owners, hsub.trans (List.sublist_append_left _ _).subperm, hopen, ?_⟩
    rw [hmarks, Findings.unclosed_append]
    exact (List.append_nil _).symm
  | @opened nesting stack values children tag attributes line inside _ _ _ ihvalues ihchildren =>
    obtain ⟨owners, hsub, hopen, hmarks⟩ := ihvalues
    obtain ⟨owners', hsub', hopen', hmarks'⟩ := ihchildren
    have hclosed :
        (values ++ .element ((Element.bare tag attributes line stack false).filled inside) ++
          children).unclosed = owners.map Element.mark ++ owners'.map Element.mark := by
      rw [hmarks, hmarks', Findings.unclosed_append, Findings.unclosed_append]
      exact congrArg (· ++ children.unclosed) (List.append_nil _)
    rw [Findings.elements_append, Findings.elements_missingClose, List.append_nil,
      Findings.elements_append, Findings.elements_append, Findings.unclosed_append, hclosed,
      List.append_assoc, List.append_assoc]
    cases hinside : inside.closed with
    | true =>
      have hown : owners'.Subperm
          ([(Element.bare tag attributes line stack false).filled inside] ++
            children.elements) := hsub'.trans (List.sublist_append_right _ _).subperm
      refine ⟨owners ++ owners', hsub.append hown, List.forall_mem_append.2 ⟨hopen, hopen'⟩, ?_⟩
      simp [Findings.missingClose, hinside, Findings.none]
    | false =>
      -- The element itself is reported behind what is not closed among its children.
      have hown :
          (owners' ++ [(Element.bare tag attributes line stack false).filled inside]).Subperm
            ([(Element.bare tag attributes line stack false).filled inside] ++
              children.elements) :=
        List.perm_append_comm.subperm.trans ((List.Subperm.refl _).append hsub')
      refine ⟨_, hsub.append hown, ?_, ?_⟩
      · exact List.forall_mem_append.2
          ⟨hopen, List.forall_mem_append.2 ⟨hopen', List.forall_mem_singleton.2 rfl⟩⟩
      · simp [Findings.missingClose, hinside, Findings.unclosedTag, Element.mark, Element.filled,
          Element.bare]

/-! ## Whole sources -/

section Sources

variable {text : String} {s : Structure}

theorem exists_assembled (h : Structure.ofText text = .ok s) :
    ∃ found, Assembled maxNesting [] found ∧ s.elements = found.elements ∧
      s.unclosed = found.unclosed := by
  obtain ⟨found, hscan, hfound⟩ := exists_scan h
  have helement (c : Cursor) (_ : c.rest.head? = some '<') :
      Along (fun _ found _ => Assembled maxNesting [] found) c (scanElement maxNesting [] c) :=
    fun inner hinner => (assembled_scanElement maxNesting [] c hinner).1
  exact ⟨found.findings,
    along_scanScript (isWay_assembled maxNesting []) helement .source _ 0 _ found hscan, hfound⟩

/-- No element of a source is nested deeper than is followed. -/
theorem length_ancestors_lt (h : Structure.ofText text = .ok s) :
    ∀ e ∈ s.elements, e.ancestors.length < maxNesting := by
  obtain ⟨found, hfound, helements, -⟩ := exists_assembled h
  rw [helements]
  simpa using hfound.length_ancestors_lt

/-- **Ancestors describe a tree**, for every source that is taken apart.

If an element has ancestors, then an element in front of it has the last of them as its tag and
the others as its own ancestors, and it does not close itself. An element that is said to have an
element between its tags is followed by one whose ancestors are its own and its tag. The unclosed
tags are those of different elements, with their lines, and none of these closes itself. -/
theorem elements_form_forest (h : Structure.ofText text = .ok s) :
    (∀ (i : Nat) (_ : i < s.elements.length) (ancestors : List String) (parent : String),
      s.elements[i].ancestors = ancestors ++ [parent] →
      ∃ (j : Nat) (_ : j < i), s.elements[j].tag = parent ∧ s.elements[j].ancestors = ancestors ∧
        s.elements[j].selfClosing = false) ∧
    (∀ (i : Nat) (_ : i < s.elements.length), s.elements[i].hasElementChild = true →
      ∃ (j : Nat) (_ : j < s.elements.length), i < j ∧
        s.elements[j].ancestors = s.elements[i].ancestors ++ [s.elements[i].tag]) ∧
    ∃ owner : Fin s.unclosed.length → Fin s.elements.length, Function.Injective owner ∧
      ∀ k, s.elements[owner k].selfClosing = false ∧
        (s.elements[owner k].tag, s.elements[owner k].line) = s.unclosed[k] := by
  obtain ⟨found, hfound, helements, hunclosed⟩ := exists_assembled h
  have hforest : IsForest [] s.elements := helements ▸ hfound.isForest
  have hsplit (i : Nat) (hi : i < s.elements.length) :
      s.elements = s.elements.take i ++ s.elements[i] :: s.elements.drop (i + 1) := by
    rw [← List.drop_eq_getElem_cons hi, List.take_append_drop]
  refine ⟨?_, ?_, ?_⟩
  · intro i hi ancestors parent hancestors
    rcases hforest.parent _ _ _ (hsplit i hi) with hnil | ⟨p, hp, hopens, heq⟩
    · rw [hnil] at hancestors
      exact absurd hancestors (by simp)
    · obtain ⟨j, hj, rfl⟩ := List.mem_take_iff_getElem.1 hp
      obtain ⟨hinit, hlast⟩ := List.append_inj' (hancestors.symm.trans heq) rfl
      exact ⟨j, by omega, (List.head_eq_of_cons_eq hlast).symm, hinit.symm, hopens⟩
  · intro i hi hchild
    obtain ⟨child, hmem, hancestors⟩ := hforest.child _ _ _ (hsplit i hi) hchild
    obtain ⟨j, hj, rfl⟩ := List.getElem_of_mem hmem
    rw [List.getElem_drop] at hancestors
    rw [List.length_drop] at hj
    exact ⟨i + 1 + j, by omega, by omega, hancestors⟩
  · obtain ⟨owners, hsub, hopens, hmarks⟩ := hfound.exists_owners
    rw [← helements] at hsub
    rw [← hunclosed] at hmarks
    have hlength : s.unclosed.length = owners.length := by rw [← hmarks, List.length_map]
    refine ⟨fun k => hsub.idxInj (k.cast hlength), ?_, ?_⟩
    · intro k k' hkk'
      have hval : (k.cast hlength : Nat) = k'.cast hlength :=
        Fin.ext_iff.1 (hsub.idxInj_injective hkk')
      exact Fin.ext hval
    · intro k
      have howner : s.elements[hsub.idxInj (k.cast hlength)] = owners[k.cast hlength] :=
        hsub.getElem_idxInj_eq_getElem
      have hmark : owners[k.cast hlength].mark = s.unclosed[k] := by
        simp only [← hmarks, List.getElem_map, Fin.getElem_fin, Fin.val_cast]
      rw [howner]
      exact ⟨hopens _ (List.getElem_mem _), hmark⟩

/-- A box with a card in it that is not closed: the card has an icon in an attribute value and a
heading between its tags. -/
def openCard : String :=
  "const A = () => (<Box>\n<Card icon=\x7b<i/>\x7d><h2>Title</h2></Box>);"

/-- The heading comes after the card, which owns the one unclosed tag. -/
theorem elements_form_forest_openCard :
    ∃ s, Structure.ofText openCard = .ok s ∧
      s.elements.map (fun e => (e.tag, e.ancestors, e.hasElementChild)) =
        [("Box", [], true), ("i", ["Box"], false), ("Card", ["Box"], true),
          ("h2", ["Box", "Card"], false)] ∧
      s.unclosed = [("Card", 2)] ∧
      (∃ (j : Nat) (_ : j < s.elements.length), j < 3 ∧ s.elements[j].tag = "Card" ∧
        s.elements[j].ancestors = ["Box"]) ∧
      ∃ owner : Fin s.unclosed.length → Fin s.elements.length, Function.Injective owner ∧
        ∀ k, s.elements[owner k].selfClosing = false ∧
          (s.elements[owner k].tag, s.elements[owner k].line) = s.unclosed[k] := by
  have hscan : ((Structure.ofText openCard).toOption.map fun s =>
      (s.elements.map (fun e => (e.tag, e.ancestors, e.hasElementChild)), s.unclosed)) =
      some ([("Box", [], true), ("i", ["Box"], false), ("Card", ["Box"], true),
        ("h2", ["Box", "Card"], false)], [("Card", 2)]) := by
    decide +kernel
  cases hs : Structure.ofText openCard with
  | error reason =>
    rw [hs] at hscan
    cases hscan
  | ok s =>
    rw [hs] at hscan
    obtain ⟨helements, hunclosed⟩ := Prod.mk.inj (Option.some.inj hscan)
    obtain ⟨hparent, -, howner⟩ := elements_form_forest hs
    have hlength : s.elements.length = 4 := by
      simpa using congrArg List.length helements
    have hheading : s.elements[3].ancestors = ["Box"] ++ ["Card"] := by
      have := congrArg (fun l => l[3]?.map fun e => e.2.1) helements
      simpa [hlength] using this
    obtain ⟨j, hj, htag, hancestors, -⟩ := hparent 3 (by omega) ["Box"] "Card" hheading
    exact ⟨s, rfl, helements, hunclosed, ⟨j, by omega, hj, htag, hancestors⟩, howner⟩

end Sources

end DesignCompiler.Markup
