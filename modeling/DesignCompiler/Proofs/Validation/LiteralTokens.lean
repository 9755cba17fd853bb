import DesignCompiler.Catalog.Builtin
import DesignCompiler.Proofs.Markup.Clauses
import DesignCompiler.Validation.Verdict

/-!
# Literals in expressions

Which expressions the rule on values takes for literals. `IsLiteralToken` says what one literal
token is: a numeral, or a string whose first unescaped quote is its last character. The rule looks
at the ends of a text in quotes only, and at the digits of every script; `IsMistaken` says what
else it takes for a literal because of that. `literalOf?_iff` puts the two together.
-/

namespace DesignCompiler.Validation

open Markup (Attribute)
open Text (isDecimalDigit isQuotedBy trim unquote)

/-! ## Numerals -/

/-- At least one character, all of them digits. -/
structure IsDigits (isDigit : Char → Bool) (s : List Char) : Prop where
  ne_nil : s ≠ []
  digits : ∀ c ∈ s, isDigit c = true

/-- Digits, or digits on both sides of a point. -/
inductive IsDecimalText (isDigit : Char → Bool) : List Char → Prop
  | whole {s : List Char} (hs : IsDigits isDigit s) : IsDecimalText isDigit s
  | point {s t : List Char} (hs : IsDigits isDigit s) (ht : IsDigits isDigit t) :
    IsDecimalText isDigit (s ++ '.' :: t)

/-- A decimal, possibly negative. -/
inductive IsNumeral (isDigit : Char → Bool) : List Char → Prop
  | plain {s : List Char} (hs : IsDecimalText isDigit s) : IsNumeral isDigit s
  | negative {s : List Char} (hs : IsDecimalText isDigit s) : IsNumeral isDigit ('-' :: s)

theorem isDecimalDigits_iff {s : List Char} :
    isDecimalDigits s = true ↔ IsDigits isDecimalDigit s := by
  simp only [isDecimalDigits, Bool.and_eq_true, Bool.not_eq_true', List.isEmpty_eq_false_iff,
    List.all_eq_true]
  exact ⟨fun ⟨hne, hs⟩ => ⟨hne, hs⟩, fun ⟨hne, hs⟩ => ⟨hne, hs⟩⟩

theorem isDecimal_iff {s : List Char} : isDecimal s = true ↔ IsDecimalText isDecimalDigit s := by
  have hpoint : isDecimalDigit '.' = false := by decide
  have hmem {s : List Char} (hs : IsDigits isDecimalDigit s) : '.' ∉ s := by
    intro h
    rw [hs.digits _ h] at hpoint
    cases hpoint
  unfold isDecimal
  constructor
  · intro h
    rcases Text.splitFirst_spec '.' s with ⟨-, hsplit⟩ | ⟨a, b, rfl, hsplit⟩
    · rw [hsplit] at h
      exact .whole (isDecimalDigits_iff.1 h)
    · rw [hsplit] at h
      obtain ⟨ha, hb⟩ := Bool.and_eq_true_iff.1 h
      exact .point (isDecimalDigits_iff.1 ha) (isDecimalDigits_iff.1 hb)
  · rintro (hs | ⟨hs, ht⟩)
    · rcases Text.splitFirst_spec '.' s with ⟨-, hsplit⟩ | ⟨a, b, rfl, -⟩
      · rw [hsplit]
        exact isDecimalDigits_iff.2 hs
      · exact absurd (by simp) (hmem hs)
    · rw [Text.splitFirst_append (hmem hs)]
      exact Bool.and_eq_true_iff.2 ⟨isDecimalDigits_iff.2 hs, isDecimalDigits_iff.2 ht⟩

section Numerals

variable {isDigit : Char → Bool} {s : List Char}

/-- A decimal starts with a digit. -/
theorem IsDecimalText.exists_cons (hs : IsDecimalText isDigit s) :
    ∃ c rest, s = c :: rest ∧ isDigit c = true := by
  have hdigits {s : List Char} (hs : IsDigits isDigit s) :
      ∃ c rest, s = c :: rest ∧ isDigit c = true := by
    obtain ⟨c, rest, rfl⟩ := List.exists_cons_of_ne_nil hs.ne_nil
    exact ⟨c, rest, rfl, hs.digits c List.mem_cons_self⟩
  cases hs with
  | whole hs => exact hdigits hs
  | point hs ht =>
    obtain ⟨c, rest, rfl, hc⟩ := hdigits hs
    exact ⟨c, _, rfl, hc⟩

/-- A numeral starts with a sign or a digit. -/
theorem IsNumeral.exists_cons (hs : IsNumeral isDigit s) :
    ∃ c rest, s = c :: rest ∧ (c = '-' ∨ isDigit c = true) := by
  cases hs with
  | plain hs =>
    obtain ⟨c, rest, rfl, hc⟩ := hs.exists_cons
    exact ⟨c, rest, rfl, .inr hc⟩
  | negative hs => exact ⟨'-', _, rfl, .inl rfl⟩

/-- A numeral has digits, points and signs only. -/
theorem IsNumeral.forall_mem (hs : IsNumeral isDigit s) :
    ∀ c ∈ s, isDigit c = true ∨ c = '.' ∨ c = '-' := by
  have hdecimal {s : List Char} (hs : IsDecimalText isDigit s) :
      ∀ c ∈ s, isDigit c = true ∨ c = '.' ∨ c = '-' := by
    intro c hc
    cases hs with
    | whole hs => exact .inl (hs.digits c hc)
    | point hs ht =>
      rcases List.mem_append.1 hc with hc | hc
      · exact .inl (hs.digits c hc)
      · rcases List.mem_cons.1 hc with rfl | hc
        · exact .inr (.inl rfl)
        · exact .inl (ht.digits c hc)
  cases hs with
  | plain hs => exact hdecimal hs
  | negative hs =>
    intro c hc
    rcases List.mem_cons.1 hc with rfl | hc
    · exact .inr (.inr rfl)
    · exact hdecimal hs c hc

/-- A numeral stays one with another class of digits that its digits belong to. -/
theorem IsNumeral.mono {isDigit' : Char → Bool} (hs : IsNumeral isDigit s)
    (h : ∀ c ∈ s, isDigit c = true → isDigit' c = true) : IsNumeral isDigit' s := by
  have hdecimal {s : List Char} (hs : IsDecimalText isDigit s)
      (h : ∀ c ∈ s, isDigit c = true → isDigit' c = true) :
      IsDecimalText isDigit' s := by
    cases hs with
    | whole hs => exact .whole ⟨hs.ne_nil, fun c hc => h c hc (hs.digits c hc)⟩
    | point hs ht =>
      exact .point ⟨hs.ne_nil, fun c hc => h c (List.mem_append_left _ hc) (hs.digits c hc)⟩
        ⟨ht.ne_nil, fun c hc =>
          h c (List.mem_append_right _ (List.mem_cons_of_mem _ hc)) (ht.digits c hc)⟩
  cases hs with
  | plain hs => exact .plain (hdecimal hs h)
  | negative hs => exact .negative (hdecimal hs fun c hc => h c (List.mem_cons_of_mem _ hc))

theorem isNumberLiteral_iff : isNumberLiteral s = true ↔ IsNumeral isDecimalDigit s := by
  have hsign : isDecimalDigit '-' = false := by decide
  unfold isNumberLiteral
  split
  · rename_i rest
    rw [isDecimal_iff]
    refine ⟨.negative, ?_⟩
    rintro (hs | hs)
    · obtain ⟨c, later, hcons, hc⟩ := hs.exists_cons
      rw [← (List.cons.inj hcons).1, hsign] at hc
      cases hc
    · exact hs
  · rename_i hplain
    rw [isDecimal_iff]
    refine ⟨.plain, ?_⟩
    rintro (hs | hs)
    · exact hs
    · exact absurd rfl (hplain _)

end Numerals

/-! ## Strings -/

/-- What can stand in a string with the given quote: the quote only behind a backslash, and no
backslash at the end. Line feeds are let through, unlike in a text that a scan passes over as
`Markup.Enclosed`. -/
inductive StringBody (quote : Char) : List Char → Prop
  | nil : StringBody quote []
  | plain {c : Char} {s : List Char} (hquote : c ≠ quote) (hslash : c ≠ '\\')
      (hs : StringBody quote s) :
      StringBody quote (c :: s)
  | escaped (c : Char) {s : List Char} (hs : StringBody quote s) :
      StringBody quote ('\\' :: c :: s)

theorem stringBody_of_forall {quote : Char} {s : List Char} (hs : ∀ c ∈ s, c ≠ quote ∧ c ≠ '\\') :
    StringBody quote s := by
  induction s with
  | nil => exact .nil
  | cons c s ih =>
    obtain ⟨hquote, hslash⟩ := hs c List.mem_cons_self
    exact .plain hquote hslash (ih fun d hd => hs d (List.mem_cons_of_mem c hd))

theorem stringBody_cons {quote c : Char} {s : List Char} (hslash : c ≠ '\\') :
    StringBody quote (c :: s) ↔ c ≠ quote ∧ StringBody quote s := by
  constructor
  · intro h
    cases h with
    | plain hquote _ hs => exact ⟨hquote, hs⟩
    | escaped d hs => exact absurd rfl hslash
  · rintro ⟨hquote, hs⟩
    exact .plain hquote hslash hs

theorem stringBody_escaped {quote c : Char} {s : List Char} :
    StringBody quote ('\\' :: c :: s) ↔ StringBody quote s := by
  constructor
  · intro h
    cases h with
    | plain _ hslash _ => exact absurd rfl hslash
    | escaped _ hs => exact hs
  · exact .escaped c

/-- What can stand in a string can no longer with the quote behind it, or with a single backslash
at the end. -/
theorem StringBody.not_append {quote d : Char} {s t : List Char} (hquote : quote ≠ '\\')
    (hs : StringBody quote s) (hd : d = quote ∨ d = '\\' ∧ t = []) :
    ¬ StringBody quote (s ++ d :: t) := by
  induction hs with
  | nil =>
    rcases hd with rfl | ⟨rfl, rfl⟩
    · exact fun h => ((stringBody_cons hquote).1 h).1 rfl
    · intro h
      cases h with
      | plain _ hslash _ => exact hslash rfl
  | plain hc hslash _ ih => exact fun h => ih ((stringBody_cons hslash).1 h).2
  | escaped c _ ih => exact fun h => ih (stringBody_escaped.1 h)

/-- A text that cannot stand in a string has an unescaped quote in it, or a single backslash at
its end. -/
theorem exists_of_not_stringBody {quote : Char} : {v : List Char} → ¬ StringBody quote v →
    ∃ s d t, v = s ++ d :: t ∧ StringBody quote s ∧ (d = quote ∨ d = '\\' ∧ t = [])
  | [], h => absurd .nil h
  | c :: v, h => by
    by_cases hslash : c = '\\'
    · subst hslash
      cases v with
      | nil => exact ⟨[], '\\', [], rfl, .nil, .inr ⟨rfl, rfl⟩⟩
      | cons c v =>
        obtain ⟨s, d, t, rfl, hs, hd⟩ :=
          exists_of_not_stringBody fun hv => h (stringBody_escaped.2 hv)
        exact ⟨'\\' :: c :: s, d, t, rfl, .escaped c hs, hd⟩
    · by_cases hquote : c = quote
      · exact ⟨[], c, v, rfl, .nil, .inl hquote⟩
      · obtain ⟨s, d, t, rfl, hs, hd⟩ :=
          exists_of_not_stringBody fun hv => h (.plain hquote hslash hv)
        exact ⟨c :: s, d, t, rfl, .plain hquote hslash hs, hd⟩

/-- The marks that strings stand between. -/
def IsStringQuote (c : Char) : Prop :=
  c = '\x27' ∨ c = '"'

theorem IsStringQuote.ne_slash {c : Char} (hc : IsStringQuote c) : c ≠ '\\' := by
  rcases hc with rfl | rfl <;> decide

theorem isQuotedBy_iff {quote : Char} {s : List Char} :
    isQuotedBy quote s = true ↔ ∃ v, s = quote :: (v ++ [quote]) := by
  simp only [isQuotedBy, Bool.and_eq_true, decide_eq_true_eq, beq_iff_eq]
  constructor
  · rintro ⟨⟨hlength, hhead⟩, hlast⟩
    obtain ⟨start, rfl⟩ := List.getLast?_eq_some_iff.1 hlast
    cases start with
    | nil => simp at hlength
    | cons c v =>
      obtain rfl : c = quote := Option.some.inj hhead
      exact ⟨v, rfl⟩
  · rintro ⟨v, rfl⟩
    exact ⟨⟨by simp, rfl⟩, List.getLast?_eq_some_iff.2 ⟨quote :: v, rfl⟩⟩

theorem unquote_eq (quote : Char) (v : List Char) : unquote (quote :: (v ++ [quote])) = v :=
  List.dropLast_concat

theorem isQuoted_iff {s : List Char} :
    Text.isQuoted s = true ↔ ∃ quote v, IsStringQuote quote ∧ s = quote :: (v ++ [quote]) := by
  simp only [Text.isQuoted, Bool.or_eq_true, isQuotedBy_iff, IsStringQuote]
  constructor
  · rintro (⟨v, hv⟩ | ⟨v, hv⟩)
    · exact ⟨_, v, .inl rfl, hv⟩
    · exact ⟨_, v, .inr rfl, hv⟩
  · rintro ⟨quote, v, rfl | rfl, hv⟩
    · exact .inl ⟨v, hv⟩
    · exact .inr ⟨v, hv⟩

/-! ## Tokens -/

/-- The text is one literal token, and this is the literal: a numeral, or a string with what
stands between its quotes. -/
inductive IsLiteralToken : List Char → List Char → Prop
  | numeral {s : List Char} (hs : IsNumeral Char.isDigit s) : IsLiteralToken s s
  | string {quote : Char} {v : List Char} (hquote : IsStringQuote quote)
      (hv : StringBody quote v) :
      IsLiteralToken (quote :: (v ++ [quote])) v

/-- The text is taken for a literal, though it is no literal token. It starts and ends with the
same quote, but behind the part `s`, which a string can hold, the quote comes too early or the
last one is escaped; or it is a numeral with digits of another script. -/
inductive IsMistaken : List Char → List Char → Prop
  | string {quote d : Char} {s t : List Char} (hquote : IsStringQuote quote)
      (hs : StringBody quote s) (hd : d = quote ∨ d = '\\' ∧ t = []) :
      IsMistaken (quote :: (s ++ d :: t ++ [quote])) (s ++ d :: t)
  | numeral {s : List Char} (hs : IsNumeral isDecimalDigit s)
      (hforeign : ∃ c ∈ s, 128 ≤ c.toNat) : IsMistaken s s

/-- An ASCII digit is a decimal digit, and the other way round. -/
theorem isDecimalDigit_of_lt {c : Char} (hc : c.toNat < 128) : isDecimalDigit c = c.isDigit := by
  unfold isDecimalDigit
  rw [if_pos hc]

theorem toNat_lt_of_isDigit {c : Char} (hc : c.isDigit = true) : c.toNat < 128 := by
  simp only [Char.isDigit, Bool.and_eq_true, decide_eq_true_eq] at hc
  have h := UInt32.le_iff_toNat_le.1 hc.2
  have hnine : '9'.val.toNat = 57 := by decide
  show c.val.toNat < 128
  omega

section Tokens

variable {s v w : List Char}

/-- A quote starts no numeral. -/
theorem IsStringQuote.not_isNumeral {isDigit : Char → Bool} {quote : Char}
    (hquote : IsStringQuote quote) (hdigit : isDigit '\x27' = false ∧ isDigit '"' = false)
    (s : List Char) : ¬ IsNumeral isDigit (quote :: s) := by
  intro hs
  obtain ⟨c, rest, hcons, hc⟩ := hs.exists_cons
  obtain ⟨rfl, -⟩ := List.cons.inj hcons
  rcases hquote with rfl | rfl <;> simp [hdigit] at hc

/-- No literal token is mistaken for one. -/
theorem IsLiteralToken.not_isMistaken (h : IsLiteralToken s v) : ¬ IsMistaken s w := by
  intro hmistaken
  cases h with
  | numeral hs =>
    cases hmistaken with
    | string hquote _ _ => exact hquote.not_isNumeral (by decide) _ hs
    | numeral _ hforeign =>
      obtain ⟨c, hc, hlarge⟩ := hforeign
      rcases hs.forall_mem c hc with hdigit | rfl | rfl
      · have hsmall := toNat_lt_of_isDigit hdigit
        omega
      · exact absurd hlarge (by decide)
      · exact absurd hlarge (by decide)
  | string hquote hv =>
    generalize hs : _ :: _ = s at hmistaken
    cases hmistaken with
    | string hquote' hs' hd =>
      obtain ⟨rfl, hbody⟩ := List.cons.inj hs
      obtain rfl := List.append_cancel_right hbody
      exact hs'.not_append hquote.ne_slash hd hv
    | numeral hs' _ => exact hquote.not_isNumeral (by decide) _ (hs ▸ hs')

/-- The rule takes the text for this literal: it is a numeral with digits of any script, or stands
between two equal quotes. -/
def IsTaken (s v : List Char) : Prop :=
  IsNumeral isDecimalDigit s ∧ v = s ∨ ∃ quote, IsStringQuote quote ∧ s = quote :: (v ++ [quote])

theorem isTaken_iff : IsTaken s v ↔ IsLiteralToken s v ∨ IsMistaken s v := by
  constructor
  · rintro (⟨hs, rfl⟩ | ⟨quote, hquote, rfl⟩)
    · by_cases hforeign : ∃ c ∈ v, 128 ≤ c.toNat
      · exact .inr (.numeral hs hforeign)
      · have hsmall (c : Char) (hc : c ∈ v) : c.toNat < 128 :=
          Nat.lt_of_not_le fun hle => hforeign ⟨c, hc, hle⟩
        exact .inl (.numeral (hs.mono fun c hc => isDecimalDigit_of_lt (hsmall c hc) ▸ id))
    · by_cases hv : StringBody quote v
      · exact .inl (.string hquote hv)
      · obtain ⟨s, d, t, rfl, hs, hd⟩ := exists_of_not_stringBody hv
        exact .inr (.string hquote hs hd)
  · rintro (h | h)
    · cases h with
      | numeral hs =>
        exact .inl
          ⟨hs.mono fun c _ hc => (isDecimalDigit_of_lt (toNat_lt_of_isDigit hc)).trans hc, rfl⟩
      | string hquote _ => exact .inr ⟨_, hquote, rfl⟩
    · cases h with
      | numeral hs _ => exact .inl ⟨hs, rfl⟩
      | string hquote _ _ => exact .inr ⟨_, hquote, rfl⟩

theorem literalOf?_expression_iff (e v : String) :
    literalOf? (.expression e) = some v ↔ IsTaken (trim e.toList) v.toList := by
  have hvalue (s : List Char) : some (String.ofList s) = some v ↔ v.toList = s := by
    constructor
    · rintro ⟨⟩
      exact String.toList_ofList
    · rintro rfl
      rw [String.ofList_toList]
  show (if isNumberLiteral (trim e.toList) then some (String.ofList (trim e.toList)) else
    if Text.isQuoted (trim e.toList) then some (String.ofList (unquote (trim e.toList)))
    else none) = some v ↔ _
  generalize trim e.toList = s
  unfold IsTaken
  split
  · rename_i hnumber
    have hs := isNumberLiteral_iff.1 hnumber
    rw [hvalue]
    refine ⟨fun h => .inl ⟨hs, h⟩, ?_⟩
    rintro (⟨-, h⟩ | ⟨quote, hquote, rfl⟩)
    · exact h
    · exact absurd hs (hquote.not_isNumeral (by decide) _)
  · rename_i hnumber
    have hs : ¬ IsNumeral isDecimalDigit s := fun h => hnumber (isNumberLiteral_iff.2 h)
    split
    · rename_i hquoted
      obtain ⟨quote, body, hquote, rfl⟩ := isQuoted_iff.1 hquoted
      rw [hvalue, unquote_eq]
      constructor
      · rintro rfl
        exact .inr ⟨quote, hquote, rfl⟩
      · rintro (⟨h, -⟩ | ⟨quote', -, hbody⟩)
        · exact absurd h hs
        · obtain ⟨rfl, hbody⟩ := List.cons.inj hbody
          exact (List.append_cancel_right hbody).symm
    · rename_i hquoted
      refine ⟨nofun, ?_⟩
      rintro (⟨h, -⟩ | ⟨quote, hquote, h⟩)
      · exact absurd h hs
      · exact absurd (isQuoted_iff.2 ⟨quote, _, hquote, h⟩) hquoted

/-- **What the rule on values judges.** An expression is taken for a literal if it is one literal
token or is mistaken for one, and for the literal that it is. So only literal tokens are judged
where nothing is mistaken, and an expression that is neither gets no finding. -/
theorem literalOf?_iff (e : String) :
    (∀ v : String, literalOf? (.expression e) = some v ↔
      IsLiteralToken (trim e.toList) v.toList ∨ IsMistaken (trim e.toList) v.toList) ∧
    ((∀ v : String, literalOf? (.expression e) = some v →
      IsLiteralToken (trim e.toList) v.toList) ↔
      ∀ v, ¬ IsMistaken (trim e.toList) v) ∧
    ((∀ v, ¬ IsLiteralToken (trim e.toList) v) → (∀ v, ¬ IsMistaken (trim e.toList) v) →
      ∀ entry tag name line, valueFindings entry tag ⟨name, .expression e, line⟩ = []) := by
  have hiff (v : String) : literalOf? (.expression e) = some v ↔
      IsLiteralToken (trim e.toList) v.toList ∨ IsMistaken (trim e.toList) v.toList :=
    (literalOf?_expression_iff e v).trans isTaken_iff
  refine ⟨hiff, ⟨?_, ?_⟩, ?_⟩
  · intro h v hmistaken
    rw [← String.toList_ofList (l := v)] at hmistaken
    exact (h _ ((hiff _).2 (.inr hmistaken))).not_isMistaken hmistaken
  · intro h v hliteral
    exact ((hiff v).1 hliteral).resolve_right (h _)
  · intro htoken hmistaken entry tag name line
    have hnone : literalOf? (.expression e) = none := by
      cases hliteral : literalOf? (.expression e) with
      | none => rfl
      | some v => exact ((hiff v).1 hliteral).elim (absurd · (htoken _)) (absurd · (hmistaken _))
    unfold valueFindings
    cases entry.property? name with
    | none => rfl
    | some p =>
      rw [hnone]

/-- An expression that starts with a name and ends with a string gets no finding. -/
theorem literalOf?_iff_choice :
    (∀ v, ¬ IsLiteralToken (trim "dense ? 'small' : 'large'".toList) v) ∧
    (∀ v, ¬ IsMistaken (trim "dense ? 'small' : 'large'".toList) v) ∧
    ∀ entry tag name line,
      valueFindings entry tag ⟨name, .expression "dense ? 'small' : 'large'", line⟩ = [] := by
  have hnone : literalOf? (.expression "dense ? 'small' : 'large'") = none := by decide
  have htaken (v : List Char) : ¬ IsTaken (trim "dense ? 'small' : 'large'".toList) v := by
    intro h
    rw [← String.toList_ofList (l := v), ← literalOf?_expression_iff, hnone] at h
    cases h
  have htoken (v : List Char) := fun h => htaken v (isTaken_iff.2 (.inl h))
  have hmistaken (v : List Char) := fun h => htaken v (isTaken_iff.2 (.inr h))
  exact ⟨htoken, hmistaken, (literalOf?_iff "dense ? 'small' : 'large'").2.2 htoken hmistaken⟩

/-- A choice by a comparison that starts and ends with a string is no literal token, but it is
judged as one, and an error is found. -/
theorem literalOf?_comparison :
    literalOf? (.expression "'small' === x ? 'middle' : 'large'") =
      some "small' === x ? 'middle' : 'large" ∧
    (∀ v, ¬ IsLiteralToken (trim "'small' === x ? 'middle' : 'large'".toList) v) ∧
    (validate ⟨.ofSource Catalog.builtinSource, .default⟩
        "const A = () => <Button size=\x7b'small' === x ? 'middle' : 'large'\x7d>Go</Button>;"
      ).diagnostics.filter (·.kind == .property) =
      [(Diagnostic.error .property
        ("Invalid value 'small' === x ? 'middle' : 'large' for prop 'size' on <Button>; " ++
          "expected 'small' | 'middle' | 'large'")).atLine 1] := by
  refine ⟨by decide, ?_, by decide +kernel⟩
  intro v h
  have hsmall : StringBody '\x27' "small".toList := stringBody_of_forall (by decide)
  exact h.not_isMistaken
    (.string (.inl rfl) hsmall (t := " === x ? 'middle' : 'large".toList) (.inl rfl))

end Tokens

end DesignCompiler.Validation
