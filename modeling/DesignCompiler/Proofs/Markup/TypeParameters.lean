import DesignCompiler.Proofs.Markup.Sources

/-!
# Type parameters

A less-than sign in place of an operand opens an element or the type parameters of an arrow
function. A list of type parameters may have further angle brackets in it, those of generic types,
and arrows, whose greater-than sign closes nothing. `step_typeParameters` says that the scan
passes over the whole list, however the brackets are nested, and `passes_nameComma` and
`passes_nameExtends` say so of the two ways in which a list starts.
-/

namespace DesignCompiler.Markup

open Text (isAlphabetic isBlank isNameChar newlines)

/-! ## Angle brackets that pair -/

/-- The angle brackets of the text pair, the greater-than sign of an arrow being none. The text
does not end in an equals sign, so a bracket behind it is none of an arrow. -/
inductive IsBalanced : List Char → Prop where
  | nil : IsBalanced []
  | plain {c : Char} {s : List Char} (hc : c ∉ ['<', '>', '=']) (hs : IsBalanced s) :
    IsBalanced (c :: s)
  | equals {s : List Char} (hne : s ≠ []) (hs : IsBalanced s) : IsBalanced ('=' :: s)
  | arrow {s : List Char} (hs : IsBalanced s) : IsBalanced ('=' :: '>' :: s)
  | brackets {inner s : List Char} (hinner : IsBalanced inner) (hs : IsBalanced s) :
    IsBalanced ('<' :: (inner ++ '>' :: s))

/-- A text without brackets and equals signs in front of a balanced one. -/
theorem IsBalanced.plain_append {s t : List Char} (hs : ∀ c ∈ s, c ∉ ['<', '>', '='])
    (ht : IsBalanced t) :
    IsBalanced (s ++ t) := by
  induction s with
  | nil => exact ht
  | cons c s ih =>
    exact .plain (hs c List.mem_cons_self) (ih fun d hd => hs d (List.mem_cons_of_mem c hd))

/-- A balanced text starts with no closing bracket. -/
theorem IsBalanced.head?_ne {s : List Char} (hs : IsBalanced s) : s.head? ≠ some '>' := by
  cases hs with
  | plain hc =>
    rintro ⟨⟩
    exact hc (by decide)
  | nil | equals | arrow | brackets => rintro ⟨⟩

theorem not_bracket_of_isNameChar {c : Char} (hc : isNameChar c = true) :
    c ∉ ['<', '>', '='] := by
  intro hmem
  have hnone : ∀ d ∈ ['<', '>', '='], isNameChar d = false := by decide
  rw [hnone c hmem] at hc
  cases hc

/-! ## The end of a list -/

section Ends

variable {previous : Char} {rest : List Char}

/-- What stood in front only matters to a greater-than sign, which may be that of an arrow. -/
theorem typeParametersEnd_previous (h : rest.head? = some '>' → previous ≠ '=') (depth : Nat)
    (before : List Char) (line : Nat) :
    Cursor.typeParametersEnd depth previous before line rest =
      Cursor.typeParametersEnd depth ' ' before line rest := by
  cases rest with
  | nil => rfl
  | cons c rest =>
    by_cases hc : c = '>'
    · have hprevious : previous ≠ '=' := h (congrArg some hc)
      simp [Cursor.typeParametersEnd, hc, hprevious]
    · simp [Cursor.typeParametersEnd, hc]

/-- A balanced text closes none of the brackets that are open in front of it. -/
theorem typeParametersEnd_balanced {s : List Char} (hs : IsBalanced s) {depth : Nat}
    (hdepth : 1 ≤ depth) (hprevious : previous ≠ '=') (before : List Char) (line : Nat)
    (rest : List Char) :
    Cursor.typeParametersEnd depth previous before line (s ++ rest) =
      Cursor.typeParametersEnd depth ' ' (s.reverse ++ before) (line + newlines s) rest := by
  induction hs generalizing depth previous before line rest with
  | nil => exact typeParametersEnd_previous (fun _ => hprevious) depth before line
  | @plain c s hc hs ih =>
    simp only [List.mem_cons, List.not_mem_nil, or_false, not_or] at hc
    obtain ⟨hopen, hclose, hequals⟩ := hc
    rw [List.cons_append, Cursor.typeParametersEnd, if_neg hopen, if_neg fun h => hclose h.1,
      ih hdepth hequals (c :: before) (Cursor.lineAfter line c) rest, lineAfter_eq, Nat.add_assoc,
      ← newlines_append]
    simp
  | @equals s hne hs ih =>
    have hhead : (s ++ rest).head? ≠ some '>' := by
      rw [List.head?_append_of_ne_nil _ hne]
      exact hs.head?_ne
    rw [List.cons_append, Cursor.typeParametersEnd, if_neg (by decide), if_neg (by simp),
      typeParametersEnd_previous (fun h => absurd h hhead), ih hdepth (by decide)]
    simp [Cursor.lineAfter, newlines]
  | @arrow s hs ih =>
    rw [List.cons_append, List.cons_append, Cursor.typeParametersEnd, if_neg (by decide),
      if_neg (by simp), Cursor.typeParametersEnd, if_neg (by decide), if_neg (by decide),
      ih hdepth (by decide)]
    simp [Cursor.lineAfter, newlines]
  | @brackets inner s hinner hs ihinner ihs =>
    have hdeeper : ¬ depth + 1 ≤ 1 := by omega
    have hlines : newlines ('<' :: (inner ++ '>' :: s)) = newlines inner + newlines s := by
      simp [newlines]
    rw [List.cons_append, List.append_assoc, Cursor.typeParametersEnd, if_pos rfl,
      ihinner (Nat.le_add_left 1 depth) (by decide), List.cons_append, Cursor.typeParametersEnd,
      if_neg (by decide), if_pos (by decide), if_neg hdeeper, Nat.add_sub_cancel,
      ihs hdepth (by decide), hlines, Nat.add_assoc]
    simp

/-- A list of type parameters ends at the bracket behind a balanced text. -/
theorem typeParametersEnd_eq {s : List Char} (hs : IsBalanced s) (before : List Char) (line : Nat)
    (rest : List Char) :
    Cursor.typeParametersEnd 1 '<' before line (s ++ '>' :: rest) =
      ⟨'>' :: (s.reverse ++ before), rest, line + newlines s⟩ := by
  rw [typeParametersEnd_balanced hs (Nat.le_refl 1) (by decide), Cursor.typeParametersEnd,
    if_neg (by decide), if_pos (by decide), if_pos (Nat.le_refl 1)]

end Ends

/-! ## Lists that are passed over -/

/-- A list of type parameters: a text in angle brackets. -/
def inAngles (s : List Char) : List Char :=
  '<' :: (s ++ ['>'])

section Lists

variable {c d : Cursor} {name s : List Char}

/-- What reads like type parameters in place of an operand is passed over up to the bracket that
closes it. -/
theorem step_typeParameters (hs : IsBalanced s) (hspans : c.Spans (inAngles s) d)
    (hstart : elementMayStart c.before (s ++ '>' :: d.rest) = true)
    (htype : startsTypeParameters (s ++ '>' :: d.rest) = true) : ∃ h, c.step = .pass d h := by
  obtain ⟨before, rest, line⟩ := c
  obtain ⟨hbefore, hrest, hline⟩ := hspans
  have hlines : newlines (inAngles s) = newlines s := by simp [inAngles, newlines]
  have hend : Cursor.typeParametersEnd 1 '<' ('<' :: before) line (s ++ '>' :: d.rest) = d := by
    rw [typeParametersEnd_eq hs, ← hlines, ← hline]
    obtain ⟨dbefore, drest, dline⟩ := d
    subst hbefore
    simp [inAngles]
  have hcons : rest = '<' :: (s ++ '>' :: d.rest) := by simpa [inAngles] using hrest
  subst hcons
  have hbegins : Begins ⟨before, '<' :: (s ++ '>' :: d.rest), line⟩ _ :=
    .typeParameters hstart htype
  rw [hend] at hbegins
  exact step_pass hbegins

/-- A name with a comma behind it reads like type parameters. -/
theorem startsTypeParameters_comma (hne : name ≠ []) (hname : ∀ ch ∈ name, isNameChar ch = true)
    (rest : List Char) :
    startsTypeParameters (name ++ ',' :: rest) = true := by
  have hend : ∀ ch ∈ (',' :: rest).head?, isNameChar ch = false := by
    rintro ch ⟨⟩
    decide
  unfold startsTypeParameters
  rw [Text.takeWhile_append_head hname hend, Text.dropWhile_append_head hname hend,
    if_neg (by simpa using hne), List.dropWhile_cons, if_neg (by decide)]
  rfl

/-- A name with the word that bounds a type parameter behind it reads like type parameters. -/
theorem startsTypeParameters_extends (hne : name ≠ []) (hname : ∀ ch ∈ name, isNameChar ch = true)
    (rest : List Char) : startsTypeParameters (name ++ (" extends ".toList ++ rest)) = true := by
  have hend : ∀ ch ∈ (" extends ".toList ++ rest).head?, isNameChar ch = false := by
    rintro ch ⟨⟩
    decide
  have hdrop : (" extends ".toList ++ rest).dropWhile isBlank =
      'e' :: ("xtends".toList ++ ' ' :: rest) := rfl
  have hword : ('e' :: ("xtends".toList ++ ' ' :: rest)).takeWhile isNameChar =
      "extends".toList := by
    refine Text.takeWhile_append_head (s := "extends".toList) (by decide) ?_
    rintro ch ⟨⟩
    decide
  unfold startsTypeParameters
  rw [Text.takeWhile_append_head hname hend, Text.dropWhile_append_head hname hend,
    if_neg (by simpa using hne), hdrop]
  show ('e' == 'e' && ('e' :: ("xtends".toList ++ ' ' :: rest)).takeWhile isNameChar ==
    "extends".toList) = true
  rw [hword]
  rfl

theorem step_of_spans_sign (hspans : c.Spans ['<'] d)
    (hstart : elementMayStart c.before d.rest = false) :
    ∃ h, c.step = .pass d h := by
  obtain ⟨before, rest, line⟩ := c
  obtain ⟨dbefore, drest, dline⟩ := d
  obtain ⟨hbefore, hrest, hline⟩ := hspans
  obtain rfl : rest = '<' :: drest := hrest
  obtain rfl : dbefore = '<' :: before := hbefore
  obtain rfl : dline = line := hline
  exact step_sign dline hstart

/-- A type parameter with a comma behind it is passed over wherever it stands. -/
theorem passes_nameComma (hne : name ≠ []) (hname : ∀ ch ∈ name, isNameChar ch = true)
    (hspans : c.Spans (inAngles (name ++ [','])) d) (depth : Nat) : Passes c depth d depth := by
  have hbalanced : IsBalanced (name ++ [',']) :=
    .plain_append (fun ch hch => not_bracket_of_isNameChar (hname ch hch))
      (.plain (by decide) .nil)
  have hshift : name ++ [','] ++ '>' :: d.rest = name ++ ',' :: '>' :: d.rest :=
    List.append_assoc _ _ _
  by_cases hstart : elementMayStart c.before (name ++ [','] ++ '>' :: d.rest) = true
  · have htype := startsTypeParameters_comma hne hname ('>' :: d.rest)
    obtain ⟨_, hstep⟩ := step_typeParameters hbalanced hspans hstart (hshift ▸ htype)
    exact .pass hstep (.refl d depth)
  · -- The sign is passed over alone, and nothing behind it begins anything.
    have hinert : ∀ ch ∈ name ++ [',', '>'], isInert ch = true := by
      intro ch hch
      rcases List.mem_append.1 hch with hch | hch
      · exact isInert_of_class (by decide) (hname ch hch)
      · rcases List.mem_pair.1 hch with rfl | rfl <;> decide
    obtain ⟨n, hsign, hlater⟩ := Cursor.Spans.split (s := ['<']) hspans
    have hrest : n.rest = name ++ [','] ++ '>' :: d.rest := by simpa using hlater.rest
    have hlater' : n.Spans (name ++ [',', '>']) d := by simpa using hlater
    obtain ⟨_, hstep⟩ :=
      step_of_spans_sign hsign (by rw [hrest]; exact Bool.eq_false_iff.2 hstart)
    exact .pass hstep ((passable_of_inert hinert).passes hlater' depth)

/-- A bounded type parameter whose name starts with a letter is passed over in place of an
operand. -/
theorem passes_nameExtends (hname : ∀ ch ∈ name, isNameChar ch = true)
    (hletter : ∃ ch ∈ name.head?, isAlphabetic ch = true) (hs : IsBalanced s)
    (hplace : operandMayFollow c.before = true)
    (hspans : c.Spans (inAngles (name ++ (" extends ".toList ++ s))) d)
    (depth : Nat) : Passes c depth d depth := by
  obtain ⟨ch, hhead, hch⟩ := hletter
  obtain ⟨more, rfl⟩ := List.head?_eq_some_iff.1 hhead
  have hbalanced : IsBalanced (ch :: more ++ (" extends ".toList ++ s)) :=
    .plain_append (fun d hd => not_bracket_of_isNameChar (hname d hd))
      (.plain_append (by decide) hs)
  have hstart : elementMayStart c.before
      (ch :: more ++ (" extends ".toList ++ s) ++ '>' :: d.rest) = true := by
    simp [elementMayStart, hch, hplace]
  have htype := startsTypeParameters_extends (List.cons_ne_nil ch more) hname (s ++ '>' :: d.rest)
  rw [← List.append_assoc, ← List.append_assoc, List.append_assoc (ch :: more)] at htype
  obtain ⟨_, hstep⟩ := step_typeParameters hbalanced hspans hstart htype
  exact .pass hstep (.refl d depth)

end Lists

end DesignCompiler.Markup
