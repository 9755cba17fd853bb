import DesignCompiler.Proofs.Synthesis.ImportLines
import DesignCompiler.Proofs.Synthesis.Structures
import DesignCompiler.Proofs.Validation.Reports

/-!
# Names of synthesized components

A component is called after the words of its name, and the gaps between them do not matter.
`HoldsWords` takes a text apart into its words and gaps, `holdsWords_iff` says that every text can
be taken apart in one way only, and `Respaces` is what two texts with the same words have in
common. The identifier of a name is one word that starts with a capital, so it is its own
identifier.

Its declaration is the first one of the source as long as no import line has a line feed in it;
`componentIdentifier_valid_and_stable` puts this together with what the rule on good practice has
to say about the name, which is nothing.
-/

namespace DesignCompiler.Synthesis

open Mapping (MappedNode MappedTree)
open Text (wordsWhere)

/-! ## Words and gaps -/

/-- The text consists of these words, which are made of ASCII letters and digits, with other
characters between them and possibly around them. -/
inductive HoldsWords : List (List Char) → List Char → Prop
  | nil {gap : List Char} (hgap : ∀ c ∈ gap, c.isAlphanum = false) : HoldsWords [] gap
  | cons {gap word rest : List Char} {words : List (List Char)}
      (hgap : ∀ c ∈ gap, c.isAlphanum = false) (hne : word ≠ [])
      (hword : ∀ c ∈ word, c.isAlphanum = true) (hend : ∀ c ∈ rest.head?, c.isAlphanum = false)
      (hrest : HoldsWords words rest) : HoldsWords (word :: words) (gap ++ (word ++ rest))

/-- The texts differ in their gaps only: in what stands between their words and around them. -/
def Respaces (s t : String) : Prop :=
  ∃ words, HoldsWords words s.toList ∧ HoldsWords words t.toList

section Words

variable {s : List Char} {words : List (List Char)}

theorem HoldsWords.wordsWhere_eq (h : HoldsWords words s) :
    wordsWhere (fun c => !c.isAlphanum) s = words := by
  induction h with
  | nil hgap => exact Text.wordsWhere_of_separators fun c hc => by simp [hgap c hc]
  | @cons gap word rest words hgap hne hword hend _ ih =>
    have hsingle : wordsWhere (fun c => !c.isAlphanum) word = [word] :=
      Text.wordsWhere_eq_singleton hne fun c hc => by simp [hword c hc]
    rw [Text.wordsWhere_separators_append fun c hc => by simp [hgap c hc]]
    cases rest with
    | nil => rw [List.append_nil, hsingle, ← ih]; rfl
    | cons c rest =>
      -- the gap in front of the rest parts the word from it, and is no word itself
      have hc : (!c.isAlphanum) = true := by simp [hend c rfl]
      have hlater := Text.wordsWhere_append_cons (p := fun c => !c.isAlphanum) hc [] rest
      rw [List.nil_append] at hlater
      rw [Text.wordsWhere_append_cons (p := fun c => !c.isAlphanum) hc, hsingle, ← ih, hlater]
      rfl

/-- A text can start with a word. -/
theorem HoldsWords.word {word rest : List Char} (hne : word ≠ [])
    (hword : ∀ c ∈ word, c.isAlphanum = true) (hend : ∀ c ∈ rest.head?, c.isAlphanum = false)
    (hrest : HoldsWords words rest) :
    HoldsWords (word :: words) (word ++ rest) :=
  .cons (List.forall_mem_nil _) hne hword hend hrest

/-- Every text consists of words and gaps. -/
theorem exists_holdsWords (s : List Char) : ∃ words, HoldsWords words s := by
  induction s with
  | nil => exact ⟨[], .nil (by simp)⟩
  | cons c s ih =>
    obtain ⟨words, hwords⟩ := ih
    cases hc : c.isAlphanum with
    | false =>
      have hlonger {gap : List Char} (hgap : ∀ d ∈ gap, d.isAlphanum = false) :
          ∀ d ∈ c :: gap, d.isAlphanum = false :=
        List.forall_mem_cons.2 ⟨hc, hgap⟩
      cases hwords with
      | nil hgap => exact ⟨[], .nil (hlonger hgap)⟩
      | cons hgap hne hword hend hrest => exact ⟨_, .cons (hlonger hgap) hne hword hend hrest⟩
    | true =>
      -- the character starts a word of its own, or belongs to the one behind it
      have hsingle : ∀ d ∈ [c], d.isAlphanum = true := by simp [hc]
      cases hwords with
      | nil hgap =>
        exact ⟨[[c]], .word (List.cons_ne_nil c []) hsingle
          (fun d hd => hgap d (List.mem_of_mem_head? hd)) (.nil hgap)⟩
      | @cons gap word rest words hgap hne hword hend hrest =>
        cases gap with
        | nil =>
          exact ⟨(c :: word) :: words,
            .word (List.cons_ne_nil c word) (List.forall_mem_cons.2 ⟨hc, hword⟩) hend hrest⟩
        | cons d gap =>
          exact ⟨[c] :: word :: words, .word (List.cons_ne_nil c []) hsingle
            (by rintro e ⟨⟩; exact hgap d List.mem_cons_self) (.cons hgap hne hword hend hrest)⟩

theorem holdsWords_iff : HoldsWords words s ↔ wordsWhere (fun c => !c.isAlphanum) s = words := by
  refine ⟨HoldsWords.wordsWhere_eq, ?_⟩
  rintro rfl
  obtain ⟨words, hwords⟩ := exists_holdsWords s
  rwa [hwords.wordsWhere_eq]

end Words

/-! ## Identifiers -/

/-- The identifier of words. -/
def identifierOf (words : List (List Char)) : String :=
  match words.flatMap capitalize with
  | [] => defaultComponentName
  | c :: rest =>
    if c.isDigit then String.ofList ("Generated".toList ++ c :: rest)
    else String.ofList (c :: rest)

theorem componentIdentifier_of_holdsWords {name : String} {words : List (List Char)}
    (h : HoldsWords words name.toList) : componentIdentifier name = identifierOf words := by
  rw [← h.wordsWhere_eq]
  rfl

/-- The gaps of a name do not matter. -/
theorem componentIdentifier_respaces {name other : String} (h : Respaces name other) :
    componentIdentifier other = componentIdentifier name := by
  obtain ⟨words, hname, hother⟩ := h
  rw [componentIdentifier_of_holdsWords hname, componentIdentifier_of_holdsWords hother]

theorem toUpper_of_isUpper_of_lt : ∀ n < 128, (Char.ofNat n).isUpper = true →
    (Char.ofNat n).toUpper = Char.ofNat n ∧ (Char.ofNat n).isDigit = false := by
  decide

/-- An identifier that starts with a capital is its own. -/
theorem componentIdentifier_eq_self {name : String}
    (hname : Catalog.isNameSegment name.toList = true) :
    componentIdentifier name = name := by
  obtain ⟨c, rest, hchars, hupper, halnum⟩ := Catalog.isNameSegment_eq_true hname
  have hword : HoldsWords [name.toList] name.toList := by
    have h := HoldsWords.word (by simp [hchars]) halnum (by simp)
      (.nil (List.forall_mem_nil fun c : Char => c.isAlphanum = false))
    rwa [List.append_nil] at h
  have hcapital := toUpper_of_isUpper_of_lt c.toNat
    (Text.toNat_lt_of_isAlphanum (Text.isAlphanum_of_isUpper hupper))
  rw [Char.ofNat_toNat] at hcapital
  obtain ⟨hself, hdigit⟩ := hcapital hupper
  rw [componentIdentifier_of_holdsWords hword]
  simp only [identifierOf, hchars, List.flatMap_cons, List.flatMap_nil, List.append_nil,
    capitalize, hself, hdigit, Bool.false_eq_true, if_false]
  rw [← hchars, String.ofList_toList]

/-! ## Declarations -/

section Declarations

variable {synthesizer : Synthesizer} {tree : MappedTree}

/-- Neither the module of an entry nor its binding breaks the import line. A catalog builds no
entry whose binding does. -/
structure FitsLine (entry : Catalog.Entry) : Prop where
  module : '\n' ∉ entry.module.toList
  binding : (∃ name d, Catalog.Entry.ofDefinition? name d = some entry) ∨
    '\n' ∉ entry.importName.toList

theorem FitsLine.newline_not_mem {entry : Catalog.Entry} (h : FitsLine entry) :
    '\n' ∉ entry.importName.toList := by
  rcases h.binding with ⟨name, d, hentry⟩ | hbinding
  · intro hmem
    have halnum := (importName_of_ofDefinition? hentry).2 _ hmem
    cases halnum
  · exact hbinding

/-- What is imported of entries that fit stands on one line for each module. -/
theorem newline_not_mem_importLines {imports : List (String × String)}
    (himports : ∀ i ∈ imports, '\n' ∉ i.1.toList ∧ '\n' ∉ i.2.toList) :
    ∀ l ∈ importLines imports, '\n' ∉ l.toList := by
  intro l hl
  rcases List.mem_cons.1 hl with rfl | hl
  · decide
  · obtain ⟨module, hmodule, rfl⟩ := List.mem_map.1 hl
    obtain ⟨⟨i, hi, rfl⟩, -⟩ := mem_bindingsOf_of_mem_modules hmodule
    have hbindings : '\n' ∉ (", ".intercalate (bindingsOf imports i.1)).toList := by
      intro hmem
      rcases mem_toList_intercalate hmem with hcomma | hblank | ⟨binding, hbinding, hmem⟩
      · cases hcomma
      · cases hblank
      · exact (himports _ (mem_bindingsOf.1 hbinding)).2 hmem
    rw [toList_importLine]
    generalize ", ".intercalate (bindingsOf imports i.1) = clause at hbindings
    simp [hbindings, (himports i hi).1]

theorem declarationLine_eq (options : Options) (name : String) :
    declarationLine options name =
      Markup.exportedConst options.typed name.toList ++ " \x7b\n".toList := by
  unfold declarationLine Markup.exportedConst Markup.behindName
  cases options.typed <;> simp

/-- The first declaration of a source is that of its component, on the second line behind the
imports. -/
theorem head?_declarationsOf_synthesize (name : String)
    (hentries : ∀ node ∈ tree.nodes, ∀ entry, node.entry = some entry → FitsLine entry) :
    (Markup.declarationsOf (synthesizer.synthesize tree name).2.sourceText.toList).head? =
      some ⟨componentIdentifier name,
        (synthesizer.synthesize tree name).2.imports.length + 2⟩ := by
  obtain ⟨imports, body, diagnostics, houtput, hused⟩ :=
    exists_synthesize_eq_assemble synthesizer tree name
  obtain ⟨rest, hsource⟩ := exists_sourceText_synthesize synthesizer tree name
  have hfit : ∀ i ∈ imports, '\n' ∉ i.1.toList ∧ '\n' ∉ i.2.toList := by
    rintro ⟨module, binding⟩ hi
    obtain ⟨node, hnode, entry, hentry, rfl, rfl⟩ := mem_usedBindings.1 (hused _ hi)
    have h := hentries node hnode entry hentry
    exact ⟨h.module, h.newline_not_mem⟩
  have himports : (synthesizer.synthesize tree name).2.imports = importLines imports := by
    rw [houtput]
    rfl
  obtain ⟨c, more, hchars, hupper, halnum⟩ :=
    Catalog.isNameSegment_eq_true (isNameSegment_componentIdentifier name)
  have hlines : ∀ l ∈ (importLines imports).map String.toList ++ [[]],
      '\n' ∉ l ∧ ∀ d ∈ l.head?, d ∉ ['e', 'd', 'c', 'l', 'f'] := by
    intro l hl
    rcases List.mem_append.1 hl with hl | hl
    · obtain ⟨i, hi, rfl⟩ := List.mem_map.1 hl
      refine ⟨newline_not_mem_importLines hfit i hi, ?_⟩
      rw [head?_importLine hi]
      rintro d ⟨⟩
      decide
    · rw [List.mem_singleton.1 hl]
      simp
  have hfirst := Markup.head?_declarationsOf hlines hupper
    (fun d hd => halnum d (hchars ▸ List.mem_cons_of_mem c hd)) synthesizer.options.typed
    (" \x7b\n".toList ++ rest)
  rw [← hchars, String.ofList_toList] at hfirst
  rw [hsource, himports, declarationLine_eq]
  simpa [List.flatMap_append, List.flatMap_map] using hfirst

/-- The rule on good practice has nothing to say about the name of a component. -/
theorem message_ne_of_mem_practiceRule (name : String) {context : Validation.Context}
    {s : Markup.Structure} {d : Diagnostic}
    (hd : d ∈ (Validation.practiceRule.check context s).diagnostics) :
    d.message ≠ "Component '" ++ componentIdentifier name ++
      "' should start with an uppercase letter" := by
  obtain ⟨c, rest, hchars, hupper, -⟩ :=
    Catalog.isNameSegment_eq_true (isNameSegment_componentIdentifier name)
  rw [Validation.check_eq_of_write_eq (Validation.write_practiceRule context s)] at hd
  obtain ⟨declaration, -, hd⟩ := List.mem_flatMap.1 hd
  unfold Validation.nameFindings at hd
  split at hd
  · rename_i hfound
    rw [List.mem_singleton.1 hd]
    intro hmessage
    have hname : declaration.name = componentIdentifier name := by
      have hchars := congrArg String.toList hmessage
      simp only [Diagnostic.atLine, Diagnostic.warning, String.toList_append,
        List.append_cancel_right_eq, List.append_cancel_left_eq] at hchars
      exact String.toList_injective hchars
    rw [hname, Validation.startsWithCapital, hchars] at hfound
    simp [hupper] at hfound
  · cases hd

end Declarations

/-! ## Names -/

/-- **Component names are valid and stable.** Whatever the name is, its identifier starts with a
capital and has ASCII letters and digits only, it is its own identifier, and other gaps between
the words of the name do not change it. When no entry of a tree breaks an import line, the first
declaration of the source is found under the identifier, on the line behind the imports and the
empty line. The rule on good practice never objects to it. -/
theorem componentIdentifier_valid_and_stable (name : String) :
    (∃ c rest, (componentIdentifier name).toList = c :: rest ∧ c.isUpper = true ∧
        ∀ d ∈ rest, d.isAlphanum = true) ∧
      componentIdentifier (componentIdentifier name) = componentIdentifier name ∧
      (∀ other, Respaces name other → componentIdentifier other = componentIdentifier name) ∧
      (∀ (synthesizer : Synthesizer) (tree : MappedTree),
        (∀ node ∈ tree.nodes, ∀ entry, node.entry = some entry → FitsLine entry) →
          let output := (synthesizer.synthesize tree name).2
          (Markup.declarationsOf output.sourceText.toList).head? =
            some ⟨componentIdentifier name, output.imports.length + 2⟩) ∧
      ∀ context s, ∀ d ∈ (Validation.practiceRule.check context s).diagnostics,
        d.message ≠ "Component '" ++ componentIdentifier name ++
          "' should start with an uppercase letter" := by
  have hname := isNameSegment_componentIdentifier name
  obtain ⟨c, rest, hchars, hupper, halnum⟩ := Catalog.isNameSegment_eq_true hname
  refine ⟨⟨c, rest, hchars, hupper, fun d hd => halnum d (hchars ▸ List.mem_cons_of_mem c hd)⟩,
    componentIdentifier_eq_self hname, fun other h => componentIdentifier_respaces h, ?_, ?_⟩
  · intro synthesizer tree hentries
    exact head?_declarationsOf_synthesize name hentries
  · intro context s d hd
    exact message_ne_of_mem_practiceRule name hd

theorem fitsLine_welcome :
    ∀ node ∈ welcome.nodes, ∀ entry, node.entry = some entry → FitsLine entry := by
  have hlines : ∀ node ∈ welcome.nodes, ∀ entry ∈ node.entry,
      '\n' ∉ entry.module.toList ∧ '\n' ∉ entry.importName.toList := by
    decide
  intro node hnode entry hentry
  obtain ⟨hmodule, hbinding⟩ := hlines node hnode entry hentry
  exact ⟨hmodule, .inr hbinding⟩

/-- Two names of one component, and a source with that name. -/
theorem componentIdentifier_valid_and_stable_welcome :
    componentIdentifier "  welcome→card 2" = componentIdentifier "welcome card - 2!" ∧
      (Markup.declarationsOf
        ((Synthesizer.ofOptions .default).synthesize welcome
          "welcome card - 2!").2.sourceText.toList).head? =
          some ⟨"WelcomeCard2", 5⟩ := by
  obtain ⟨-, -, hrespaced, hdeclared, -⟩ :=
    componentIdentifier_valid_and_stable "welcome card - 2!"
  refine ⟨hrespaced _ ?_, ?_⟩
  · refine ⟨["welcome".toList, "card".toList, "2".toList], ?_, ?_⟩ <;> rw [holdsWords_iff] <;>
      decide
  · have hfirst := hdeclared (.ofOptions .default) welcome fitsLine_welcome
    have himports :
        ((Synthesizer.ofOptions .default).synthesize welcome
          "welcome card - 2!").2.imports.length = 3 := by
      decide
    have hidentifier : componentIdentifier "welcome card - 2!" = "WelcomeCard2" := by decide
    simp only [himports, hidentifier] at hfirst
    exact hfirst

/-- A card whose binding ends a line and starts what reads like a declaration. -/
def brokenCard : MappedTree :=
  ⟨some { nodeOf "Card" "antd" [] with
    entry := (Catalog.Entry.ofDefinition? "Card" ⟨none, none, none, [], []⟩).map fun entry =>
      { entry with importName := "\nconst X = (" } }, []⟩

/-- **A line feed in a binding can hide the declaration,** also when no module has one. -/
theorem not_mem_declarationsOf_brokenCard :
    (∀ node ∈ brokenCard.nodes, ∀ entry, node.entry = some entry → '\n' ∉ entry.module.toList) ∧
      ∀ line, ⟨componentIdentifier "name", line⟩ ∉
        Markup.declarationsOf
          ((Synthesizer.ofOptions .default).synthesize brokenCard
            "name").2.sourceText.toList := by
  refine ⟨by decide, fun line hmem => ?_⟩
  have hnames : (Markup.declarationsOf
      ((Synthesizer.ofOptions .default).synthesize brokenCard "name").2.sourceText.toList).map
      (·.name) = ["X"] := by
    decide +kernel
  have hname : componentIdentifier "name" ∈ ["X"] := hnames ▸ List.mem_map_of_mem hmem
  exact absurd hname (by decide)

end DesignCompiler.Synthesis
