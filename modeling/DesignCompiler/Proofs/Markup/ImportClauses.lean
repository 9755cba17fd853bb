import DesignCompiler.Proofs.Markup.Clauses
import DesignCompiler.Proofs.Markup.Statements

/-!
# Import clauses read back

The clauses that an import can be written with, as syntax: a name, a name and names in braces,
names in braces alone, and a star with a name for all of a module. Names in braces may be renamed,
may stand on lines of their own and may have a comma behind the last of them. `ofClause_text` says
that reading a clause gives what it binds, and `importsOf_written` that imports with such clauses,
and imports for effects, are read back with the lines that they are on.

A name may be any of the words of the syntax, `from`, `as` and `import` among them. The only name
that is left out is the one that would mark an import of types.
-/

namespace DesignCompiler.Markup

open Text (isBlank)

/-! ## Clauses -/

/-- The characters of names in a clause. -/
def isBindingChar (c : Char) : Bool :=
  !isBlank c && c != ',' && c != '\x7b' && c != '\x7d' && c != ';' && !isPlainQuote c

/-- A name in a clause. -/
structure BindingName where
  text : List Char
  ne_nil : text ≠ []
  plain : ∀ c ∈ text, isBindingChar c = true
  unstarred : text.head? ≠ some '*'
  untyped : text ≠ "type".toList

/-- Blanks, also none. -/
abbrev Blanks := { s : List Char // ∀ c ∈ s, isBlank c = true }

/-- A name between braces with the blanks around it, and the name that it is given with the blanks
around `as`. -/
structure ListedName where
  front : Blanks
  imported : BindingName
  rename : Option (Gap × Gap × BindingName)
  back : Blanks

/-- Names between braces; the blanks at the end follow a comma behind the last name, if there are
names. -/
structure NameList where
  names : List ListedName
  rest : Option Blanks

/-- The clause of an import as it may be written. -/
inductive Clause where
  | name (n : BindingName)
  | nameAndList (n : BindingName) (back front : Blanks) (list : NameList)
  | list (list : NameList)
  | star (front : Blanks) (back : Gap) (n : BindingName)

/-- A listed name without the blanks around it. -/
def ListedName.core (n : ListedName) : List Char :=
  n.imported.text ++
    (n.rename.map fun (gap, gap', bound) => gap.1 ++ ("as".toList ++ (gap'.1 ++ bound.text))).getD
      []

def ListedName.text (n : ListedName) : List Char :=
  n.front.1 ++ (n.core ++ n.back.1)

/-- What is between the braces. -/
def NameList.inner (l : NameList) : List Char :=
  Text.joinWith [','] (l.names.map ListedName.text ++ l.rest.toList.map Subtype.val)

def NameList.text (l : NameList) : List Char :=
  '\x7b' :: (l.inner ++ ['\x7d'])

def Clause.text : Clause → List Char
  | .name n => n.text
  | .nameAndList n back front l => n.text ++ (back.1 ++ ',' :: (front.1 ++ l.text))
  | .list l => l.text
  | .star front back n => '*' :: (front.1 ++ ("as".toList ++ (back.1 ++ n.text)))

/-! ## What clauses bind -/

def ListedName.binding (n : ListedName) : NamedImport where
  imported := String.ofList n.imported.text
  bound := String.ofList ((n.rename.map fun (_, _, bound) => bound).getD n.imported).text

def Clause.defaultName : Clause → Option String
  | .name n | .nameAndList n _ _ _ => some (String.ofList n.text)
  | .list _ | .star _ _ _ => none

def Clause.namespaceName : Clause → Option String
  | .star _ _ n => some (String.ofList n.text)
  | .name _ | .nameAndList _ _ _ _ | .list _ => none

def Clause.named : Clause → List NamedImport
  | .nameAndList _ _ _ l | .list l => l.names.map ListedName.binding
  | .name _ | .star _ _ _ => []

/-- The import that a statement declares; one for effects binds nothing. -/
def Statement.declared (st : Statement Clause) (line : Nat) : Import where
  module := String.ofList st.module
  defaultName := st.bindings.bind (·.clause.defaultName)
  namespaceName := st.bindings.bind (·.clause.namespaceName)
  named := (st.bindings.map (·.clause.named)).getD []
  line := line

/-! ## Names -/

section Names

variable {c : Char} (n : BindingName)

theorem isBlank_eq_false_of_isBindingChar (hc : isBindingChar c = true) : isBlank c = false := by
  simp only [isBindingChar, Bool.and_eq_true] at hc
  simpa using hc.1.1.1.1.1

namespace BindingName

theorem isBlank_eq_false (hc : c ∈ n.text) : isBlank c = false :=
  isBlank_eq_false_of_isBindingChar (n.plain c hc)

theorem not_mem (hc : isBindingChar c = false) : c ∉ n.text := by
  intro hmem
  rw [n.plain c hmem] at hc
  cases hc

theorem head : ∃ c ∈ n.text.head?, isBlank c = false :=
  ⟨_, List.head?_eq_some_head n.ne_nil, n.isBlank_eq_false (List.head_mem n.ne_nil)⟩

theorem getLast : ∃ c ∈ n.text.getLast?, isBlank c = false :=
  ⟨_, List.getLast?_eq_some_getLast n.ne_nil, n.isBlank_eq_false (List.getLast_mem n.ne_nil)⟩

theorem words : Text.words n.text = [n.text] :=
  Text.words_of_not_blank n.ne_nil fun _ => n.isBlank_eq_false

end BindingName

end Names

/-! ## Names between braces -/

section Lists

theorem gap_head? (gap : Gap) (s : List Char) : ∀ c ∈ (gap.1 ++ s).head?, isBlank c = true := by
  rw [List.head?_append, List.head?_eq_some_head gap.2.1]
  rintro c ⟨⟩
  exact gap.2.2 _ (List.head_mem gap.2.1)

namespace ListedName

variable (n : ListedName)

theorem core_head : ∃ c ∈ n.core.head?, isBlank c = false := by
  obtain ⟨c, hc, hblank⟩ := n.imported.head
  exact ⟨c, by rw [core, List.head?_append, Option.mem_def.1 hc]; rfl, hblank⟩

theorem core_getLast : ∃ c ∈ n.core.getLast?, isBlank c = false := by
  unfold core
  cases n.rename with
  | none =>
    rw [Option.map_none, Option.getD_none, List.append_nil]
    exact n.imported.getLast
  | some r =>
    obtain ⟨gap, gap', bound⟩ := r
    obtain ⟨c, hc, hblank⟩ := bound.getLast
    refine ⟨c, ?_, hblank⟩
    simp only [Option.map_some, Option.getD_some, List.getLast?_append, Option.mem_def.1 hc]
    rfl

theorem comma_not_mem_core : ',' ∉ n.core := by
  have hgap (gap : Gap) : ',' ∉ gap.1 := fun h => absurd (gap.2.2 _ h) (by decide)
  unfold core
  cases n.rename with
  | none => simpa using n.imported.not_mem (by decide)
  | some r =>
    obtain ⟨gap, gap', bound⟩ := r
    simp only [Option.map_some, Option.getD_some, List.mem_append, not_or]
    exact ⟨n.imported.not_mem (by decide), hgap gap, by decide, hgap gap',
      bound.not_mem (by decide)⟩

/-- The first word of a listed name is the name in the module. -/
theorem takeWhile_core : n.core.takeWhile (!isBlank ·) = n.imported.text := by
  refine Text.takeWhile_append_head (fun c hc => by simp [n.imported.isBlank_eq_false hc]) ?_
  cases n.rename with
  | none => rintro c ⟨⟩
  | some r =>
    intro c hc
    simp [gap_head? r.1 _ c hc]

theorem stripStart_core : Text.stripStart "type ".toList n.core = none := by
  cases hstart : Text.stripStart "type ".toList n.core with
  | none => rfl
  | some rest =>
    have htype := n.takeWhile_core
    rw [Text.eq_append_of_stripStart hstart] at htype
    exact absurd htype.symm n.imported.untyped

/-- A listed name is read with the name that it is given. -/
theorem namedImport_core : namedImport n.core = n.binding := by
  have hwords : Text.words n.core =
      n.imported.text :: (n.rename.map fun (_, _, bound) => ["as".toList, bound.text]).getD
        [] := by
    unfold core
    cases n.rename with
    | none =>
      rw [Option.map_none, Option.getD_none, List.append_nil]
      exact n.imported.words
    | some r =>
      obtain ⟨gap, gap', bound⟩ := r
      have has : Text.words "as".toList = ["as".toList] := by decide
      simp only [Option.map_some, Option.getD_some]
      rw [Text.words_append_gap gap.2.1 gap.2.2, Text.words_append_gap gap'.2.1 gap'.2.2,
        n.imported.words, bound.words, has]
      rfl
  unfold namedImport binding
  rw [stripStart_core]
  simp only [Option.map_none, Option.getD_none, hwords]
  cases n.rename <;> rfl

end ListedName

theorem commaPieces_inner (l : NameList) : commaPieces l.inner = l.names.map ListedName.core := by
  have hname (n : ListedName) : commaPieces n.text = [n.core] :=
    commaPieces_between n.front.1 n.back.1 n.front.2 n.back.2 n.comma_not_mem_core n.core_head
      n.core_getLast
  have hrest : (l.rest.toList.map Subtype.val).flatMap commaPieces = [] := by
    cases l.rest with
    | none => rfl
    | some blanks => simpa using commaPieces_of_blank blanks.2
  unfold NameList.inner
  rw [commaPieces_joinWith, List.flatMap_append, hrest, List.append_nil, List.flatMap_map,
    List.map_eq_flatMap]
  simp only [hname]

theorem named_inner (l : NameList) :
    (commaPieces l.inner).map namedImport = l.names.map ListedName.binding := by
  rw [commaPieces_inner, List.map_map]
  exact List.map_congr_left fun n _ => n.namedImport_core

end Lists

/-! ## Clauses as texts -/

section Texts

/-- The text has no character that ends a clause. -/
abbrev Accepted (s : List Char) : Prop :=
  ∀ c ∈ s, (c != ';' && !isPlainQuote c) = true

variable {s t : List Char}

theorem Accepted.append (hs : Accepted s) (ht : Accepted t) : Accepted (s ++ t) :=
  List.forall_mem_append.2 ⟨hs, ht⟩

theorem Accepted.cons {c : Char} (hc : (c != ';' && !isPlainQuote c) = true) (hs : Accepted s) :
    Accepted (c :: s) :=
  List.forall_mem_cons.2 ⟨hc, hs⟩

theorem accepted_of_blank (hs : ∀ c ∈ s, isBlank c = true) : Accepted s := by
  intro c hc
  have hsemicolon : c ≠ ';' := by
    rintro rfl
    exact absurd (hs _ hc) (by decide)
  simp [hsemicolon, isPlainQuote_eq_false_of_isBlank (hs c hc)]

theorem BindingName.accepted (n : BindingName) : Accepted n.text := by
  intro c hc
  have hplain := n.plain c hc
  simp only [isBindingChar, Bool.and_eq_true] at hplain
  exact Bool.and_eq_true_iff.2 ⟨hplain.1.2, hplain.2⟩

theorem ListedName.accepted (n : ListedName) : Accepted n.text := by
  have hcore : Accepted n.core := by
    unfold core
    cases n.rename with
    | none => simpa using n.imported.accepted
    | some r =>
      exact n.imported.accepted.append <| (accepted_of_blank r.1.2.2).append <|
        Accepted.append (by decide) <| (accepted_of_blank r.2.1.2.2).append r.2.2.accepted
  exact (accepted_of_blank n.front.2).append (hcore.append (accepted_of_blank n.back.2))

theorem NameList.accepted (l : NameList) : Accepted l.text := by
  refine Accepted.cons (by decide) (Accepted.append (fun c hc => ?_) (by decide))
  rcases Text.mem_joinWith hc with hcomma | ⟨piece, hpiece, hmem⟩
  · rw [List.mem_singleton.1 hcomma]
    decide
  · rcases List.mem_append.1 hpiece with hname | hrest
    · obtain ⟨n, -, rfl⟩ := List.mem_map.1 hname
      exact n.accepted c hmem
    · obtain ⟨blanks, -, rfl⟩ := List.mem_map.1 hrest
      exact accepted_of_blank blanks.2 c hmem

theorem NameList.getLast (l : NameList) : l.text.getLast? = some '\x7d' := by
  unfold NameList.text
  rw [← List.cons_append, List.getLast?_concat]

/-- A name in front of a comma is not the word that marks an import of types either. -/
theorem takeWhile_name_comma (n : BindingName) (back : Blanks) :
    (n.text ++ (back.1 ++ ',' :: s)).takeWhile (!isBlank ·) ≠ "type".toList := by
  intro htype
  have hname : ∀ c ∈ n.text, (!isBlank c) = true := fun c hc => by simp [n.isBlank_eq_false hc]
  cases hback : back.1 with
  | nil =>
    have hcomma : ',' ∈ (n.text ++ ([] ++ ',' :: s)).takeWhile (!isBlank ·) := by
      rw [List.takeWhile_append_of_pos hname, List.nil_append,
        List.takeWhile_cons_of_pos (by decide)]
      exact List.mem_append_right _ List.mem_cons_self
    rw [← hback, htype] at hcomma
    exact absurd hcomma (by decide)
  | cons c blanks =>
    have hc := back.2 c (hback ▸ List.mem_cons_self)
    rw [hback, Text.takeWhile_append_head hname (by rintro d ⟨⟩; simp [hc])] at htype
    exact n.untyped htype

theorem Clause.isClauseText (clause : Clause) : IsClauseText clause.text := by
  cases clause with
  | name n =>
    refine ⟨n.accepted, n.head, n.getLast, fun htype => n.untyped ?_⟩
    rwa [Clause.text, List.takeWhile_eq_self_iff.2
      fun c hc => by simp [n.isBlank_eq_false hc]] at htype
  | nameAndList n back front l =>
    refine ⟨?_, ?_, ⟨'\x7d', ?_, by decide⟩, takeWhile_name_comma n back⟩
    · exact n.accepted.append <| (accepted_of_blank back.2).append <| Accepted.cons (by decide) <|
        (accepted_of_blank front.2).append l.accepted
    · obtain ⟨c, hc, hblank⟩ := n.head
      exact ⟨c, by rw [Clause.text, List.head?_append, Option.mem_def.1 hc]; rfl, hblank⟩
    · simp [Clause.text, List.getLast?_append, List.getLast?_cons, l.getLast]
  | list l =>
    refine ⟨l.accepted, ⟨'\x7b', rfl, by decide⟩, ⟨'\x7d', l.getLast, by decide⟩, fun htype => ?_⟩
    cases htype
  | star front back n =>
    obtain ⟨c, hc, hblank⟩ := n.getLast
    refine ⟨?_, ⟨'*', rfl, by decide⟩, ⟨c, ?_, hblank⟩, fun htype => ?_⟩
    · exact Accepted.cons (by decide) <| (accepted_of_blank front.2).append <|
        Accepted.append (by decide) <| (accepted_of_blank back.2.2).append n.accepted
    · simp [Clause.text, List.getLast?_append, List.getLast?_cons, Option.mem_def.1 hc]
    · cases htype

end Texts

/-! ## Clauses read back -/

section Reading

variable {head : List Char}

theorem splitClause_plain (h : '\x7b' ∉ head) : splitClause head = (head, none) := by
  unfold splitClause
  rw [Text.splitFirst_eq_none h]

theorem splitClause_braced (h : '\x7b' ∉ head) (inner : List Char) :
    splitClause (head ++ '\x7b' :: (inner ++ ['\x7d'])) = (head, some inner) := by
  unfold splitClause
  rw [Text.splitFirst_append h]
  simp only [Text.splitLast_append (c := '\x7d') (t := []) (by simp) inner]

theorem addHead_name (i : Import) (n : BindingName) :
    i.addHead n.text = { i with defaultName := some (String.ofList n.text) } := by
  unfold Import.addHead
  split
  · rename_i rest htext
    exact absurd (by rw [htext]; rfl) n.unstarred
  · rfl

theorem commaPieces_binding (n : BindingName) (back : Blanks) :
    commaPieces (n.text ++ back.1) = [n.text] := by
  have hpieces :=
    commaPieces_between [] back.1 (by simp) back.2 (n.not_mem (by decide)) n.head n.getLast
  rwa [List.nil_append] at hpieces

/-- The name behind a star is what is left without the word in front of it. -/
theorem namespaceText_star (front : Blanks) (back : Gap) (n : BindingName) :
    namespaceText (front.1 ++ ("as".toList ++ (back.1 ++ n.text))) = n.text := by
  obtain ⟨c, hlast, hc⟩ := n.getLast
  have hend : ∃ c ∈ ("as".toList ++ (back.1 ++ n.text)).getLast?, isBlank c = false := by
    refine ⟨c, ?_, hc⟩
    simp only [List.getLast?_append, Option.mem_def.1 hlast]
    rfl
  have houter : Text.trim (front.1 ++ ("as".toList ++ (back.1 ++ n.text))) =
      "as".toList ++ (back.1 ++ n.text) := by
    have htrim := Text.trim_between front.1 [] front.2 (by simp) ⟨'a', rfl, by decide⟩ hend
    rwa [List.append_nil] at htrim
  have hstrip : Text.stripRepeated "as".toList ("as".toList ++ (back.1 ++ n.text)) =
      back.1 ++ n.text := by
    -- the blanks behind the word end the repetition
    obtain ⟨b, gap, hgap⟩ := List.exists_cons_of_ne_nil back.2.1
    have hb : 'a' ≠ b := by
      rintro rfl
      exact absurd (back.2.2 'a' (hgap ▸ List.mem_cons_self)) (by decide)
    rw [hgap]
    simp [Text.stripRepeated, Text.stripRepeatedFrom, Text.stripStart, hb]
  have hinner : Text.trim (back.1 ++ n.text) = n.text := by
    have htrim := Text.trim_between back.1 [] back.2.2 (by simp) n.head n.getLast
    rwa [List.append_nil] at htrim
  unfold namespaceText
  rw [houter, hstrip, hinner]

theorem addHead_star (i : Import) (front : Blanks) (back : Gap) (n : BindingName) :
    i.addHead (Clause.star front back n).text =
      { i with namespaceName := some (String.ofList n.text) } := by
  show { i with namespaceName := some (String.ofList (namespaceText _)) } = _
  rw [namespaceText_star]

theorem not_mem_star {c : Char} (hc : isBindingChar c = false) (hblank : isBlank c = false)
    (hword : c ∉ '*' :: "as".toList) (front : Blanks) (back : Gap) (n : BindingName) :
    c ∉ (Clause.star front back n).text := by
  have hgap {s : List Char} (hs : ∀ d ∈ s, isBlank d = true) : c ∉ s := fun h => by
    rw [hs c h] at hblank
    cases hblank
  rw [List.mem_cons, not_or] at hword
  simp only [Clause.text, List.mem_cons, List.mem_append, not_or]
  exact ⟨hword.1, hgap front.2, hword.2, hgap back.2.2, n.not_mem hc⟩

theorem commaPieces_star (front : Blanks) (back : Gap) (n : BindingName) :
    commaPieces (Clause.star front back n).text = [(Clause.star front back n).text] := by
  have hclause := (Clause.star front back n).isClauseText
  have hpieces := commaPieces_between [] [] (by simp) (by simp)
    (not_mem_star (by decide) (by decide) (by decide) front back n) hclause.head hclause.last
  rwa [List.nil_append, List.append_nil] at hpieces

/-- **A clause is read as what it binds.** -/
theorem ofClause_text (clause : Clause) (module : String) (line : Nat) :
    Import.ofClause module line clause.text =
      ⟨module, clause.defaultName, clause.namespaceName, clause.named, line⟩ := by
  have hbrace (n : BindingName) : '\x7b' ∉ n.text := n.not_mem (by decide)
  have hblanks (blanks : Blanks) : '\x7b' ∉ blanks.1 := fun h => absurd (blanks.2 _ h) (by decide)
  unfold Import.ofClause
  cases clause with
  | name n =>
    have hpieces := commaPieces_binding n ⟨[], by simp⟩
    rw [List.append_nil] at hpieces
    rw [Clause.text, splitClause_plain (hbrace n)]
    simp only [hpieces, List.foldl_cons, List.foldl_nil, addHead_name]
    rfl
  | nameAndList n back front l =>
    have hhead : '\x7b' ∉ n.text ++ (back.1 ++ ',' :: front.1) := by
      simp only [List.mem_append, List.mem_cons, not_or]
      exact ⟨hbrace n, hblanks back, by decide, hblanks front⟩
    have htext : (Clause.nameAndList n back front l).text =
        (n.text ++ (back.1 ++ ',' :: front.1)) ++ '\x7b' :: (l.inner ++ ['\x7d']) := by
      simp [Clause.text, NameList.text]
    have hpieces : commaPieces (n.text ++ (back.1 ++ ',' :: front.1)) = [n.text] := by
      rw [← List.append_assoc, commaPieces_append_cons, commaPieces_binding,
        commaPieces_of_blank front.2]
      rfl
    rw [htext, splitClause_braced hhead]
    simp only [hpieces, List.foldl_cons, List.foldl_nil, addHead_name, Option.map_some,
      Option.getD_some, named_inner]
    rfl
  | list l =>
    have hsplit : splitClause ([] ++ '\x7b' :: (l.inner ++ ['\x7d'])) = ([], some l.inner) :=
      splitClause_braced (by simp) l.inner
    rw [List.nil_append] at hsplit
    rw [Clause.text, NameList.text, hsplit]
    simp only [Option.map_some, Option.getD_some, named_inner]
    rfl
  | star front back n =>
    rw [splitClause_plain (not_mem_star (by decide) (by decide) (by decide) front back n)]
    simp only [commaPieces_star, List.foldl_cons, List.foldl_nil, addHead_star]
    rfl

end Reading

/-! ## Imports of a source -/

section Sources

theorem importAt_text (st : Statement Clause) (line : Nat) :
    st.importAt Clause.text line = st.declared line := by
  unfold Statement.importAt Statement.clause Statement.declared
  cases st.bindings with
  | none => rfl
  | some b => exact ofClause_text b.clause _ line

/-- **Written imports are read back**: those at the start of a source, each on a line of its own,
are its imports, in order, with what they bind and with the lines of their keywords, when no later
line starts like one. -/
theorem importsOf_written {stmts : List (Statement Clause)} {tail : List Char}
    (hown : ∀ st ∈ stmts.tail, st.lead ≠ []) (htail : WithoutImports tail) :
    importsOf (stmts.flatMap (Statement.text Clause.text) ++ tail) =
      (placed Clause.text 1 stmts).map fun s => s.1.declared s.2 := by
  rw [importsOf_statements stmts Clause.isClauseText hown htail]
  exact List.map_congr_left fun s _ => importAt_text s.1 s.2

def fromName : BindingName :=
  ⟨"from".toList, by decide, by decide, by decide, by decide⟩

def asName : BindingName :=
  ⟨"as".toList, by decide, by decide, by decide, by decide⟩

def importName : BindingName :=
  ⟨"import".toList, by decide, by decide, by decide, by decide⟩

/-- Imports whose names are words of the syntax, one of them over several lines. -/
def wordImports : List (Statement Clause) :=
  [{ lead := [], indent := [], gap := space
     bindings := some ⟨.nameAndList fromName ⟨[], by decide⟩ ⟨[' '], by decide⟩
      ⟨[⟨⟨['\n'], by decide⟩, importName, some (space, space, fromName), ⟨[], by decide⟩⟩,
        ⟨⟨['\n'], by decide⟩, asName, none, ⟨[], by decide⟩⟩], some ⟨['\n'], by decide⟩⟩, space,
       space⟩
     quote := '"', module := ['m'], semicolon := false
     lead_blank := by decide, lead_ends := by decide, indent_pads := isPad_of_mem_nil,
     quote_plain := by decide
     isModule := ⟨by decide, by decide, by decide⟩ },
   { lead := ['\n'], indent := [], gap := space, bindings := none
     quote := '\x27', module := "import from".toList, semicolon := true
     lead_blank := by decide, lead_ends := by decide, indent_pads := isPad_of_mem_nil
     quote_plain := isPlainQuote_single, isModule := ⟨by decide, by decide, by decide⟩ },
   { lead := ['\n', '\n'], indent := ['\t'], gap := space
     bindings := some ⟨.star ⟨[' '], by decide⟩ space asName, space, space⟩
     quote := '\x27', module := ['n'], semicolon := false
     lead_blank := by decide, lead_ends := by decide, indent_pads := by decide,
     quote_plain := isPlainQuote_single
     isModule := ⟨by decide, by decide, by decide⟩ }]

theorem importsOf_written_words :
    (∀ st ∈ wordImports.tail, st.lead ≠ []) ∧ WithoutImports "\nlet x;".toList ∧
      importsOf
        ("import from, \x7b\nimport as from,\nas,\n\x7d from \"m\"\nimport 'import from';\n\n" ++
          "\timport * as as from 'n'\nlet x;").toList =
        [⟨"m", some "from", none, [⟨"import", "from"⟩, ⟨"as", "as"⟩], 1⟩,
          ⟨"import from", none, none, [], 5⟩, ⟨"n", none, some "as", [], 7⟩] := by
  have hown : ∀ st ∈ wordImports.tail, st.lead ≠ [] := by decide
  have htail : WithoutImports "\nlet x;".toList :=
    Text.Pattern.atLines_line [] (by decide) (by decide)
      (Text.Pattern.atLines_oneLine (by decide) (by decide))
  refine ⟨hown, htail, ?_⟩
  calc
    importsOf _ = importsOf (wordImports.flatMap (Statement.text Clause.text) ++
        "\nlet x;".toList) :=
      congrArg importsOf (by decide +kernel)
    _ = (placed Clause.text 1 wordImports).map fun s => s.1.declared s.2 :=
      importsOf_written hown htail
    _ = _ := by decide +kernel

end Sources

end DesignCompiler.Markup
