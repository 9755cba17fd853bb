import DesignCompiler.Proofs.Validation.LiteralTokens
import Mathlib

/-!
# Union types

A type description that is a union of literals is decoded literal by literal, and one with any
other member not at all. The grammar of numerals stands by itself as `IsNumeral`, with both cases
of the letter `e`, where the test works on the text in lower case; `isNumeral_iff` says that the
two agree. From it comes `literal?_trim_eq_some_iff`, which reads one member of a union with the
white space around it, and from that `allowedValues_union` on whole descriptions.
-/

namespace DesignCompiler.Catalog

open Text (isBlank)
open Validation (IsDigits IsStringQuote)

/-! ## Numerals -/

/-- Digits, or digits on both sides of a point, on one of them possibly none. -/
inductive IsMantissa : List Char → Prop
  | whole {s : List Char} (hs : IsDigits Char.isDigit s) : IsMantissa s
  | point {s t : List Char} (hs : ∀ c ∈ s, c.isDigit = true) (ht : ∀ c ∈ t, c.isDigit = true)
      (hdigit : s ≠ [] ∨ t ≠ []) : IsMantissa (s ++ '.' :: t)

/-- The sign of a numeral or of its exponent. -/
def IsSign (c : Char) : Prop :=
  c = '+' ∨ c = '-'

/-- A text of some kind, or one with a sign in front. -/
inductive MaySigned (P : List Char → Prop) : List Char → Prop
  | plain {s : List Char} (hs : P s) : MaySigned P s
  | signed {c : Char} {s : List Char} (hc : IsSign c) (hs : P s) : MaySigned P (c :: s)

/-- A word for infinity or for what is no number, in any case, or a mantissa with or without an
exponent. -/
inductive IsUnsignedNumeral : List Char → Prop
  | word {s : List Char} (hs : s.map Char.toLower ∈ numberWords) : IsUnsignedNumeral s
  | plain {s : List Char} (hs : IsMantissa s) : IsUnsignedNumeral s
  | scaled {c : Char} {s t : List Char} (hs : IsMantissa s) (hc : c = 'e' ∨ c = 'E')
      (ht : MaySigned (IsDigits Char.isDigit) t) : IsUnsignedNumeral (s ++ c :: t)

/-- What is read as a double. -/
def IsNumeral : List Char → Prop :=
  MaySigned IsUnsignedNumeral

theorem isDigits_iff {s : List Char} : isDigits s = true ↔ IsDigits Char.isDigit s := by
  simp only [isDigits, Bool.and_eq_true, Bool.not_eq_true', List.isEmpty_eq_false_iff,
    List.all_eq_true]
  exact ⟨fun ⟨hne, hs⟩ => ⟨hne, hs⟩, fun ⟨hne, hs⟩ => ⟨hne, hs⟩⟩

theorem not_mem_of_isDigit {s : List Char} {c : Char} (hs : ∀ d ∈ s, d.isDigit = true)
    (hc : c.isDigit = false) :
    c ∉ s := by
  intro hmem
  rw [hs c hmem] at hc
  cases hc

theorem isMantissa_iff {s : List Char} : isMantissa s = true ↔ IsMantissa s := by
  have hpoint : Char.isDigit '.' = false := by decide
  have hand {a b : List Char} (hsplit : Text.splitFirst '.' s = some (a, b)) :
      isMantissa s = true ↔
        ((∀ c ∈ a, c.isDigit = true) ∧ ∀ c ∈ b, c.isDigit = true) ∧ (a ≠ [] ∨ b ≠ []) := by
    rw [isMantissa, hsplit]
    simp only [Bool.and_eq_true, List.all_eq_true, Bool.not_eq_true', Bool.and_eq_false_iff,
      List.isEmpty_eq_false_iff]
  constructor
  · intro h
    rcases Text.splitFirst_spec '.' s with ⟨-, hsplit⟩ | ⟨a, b, rfl, hsplit⟩
    · rw [isMantissa, hsplit] at h
      exact .whole (isDigits_iff.1 h)
    · obtain ⟨⟨ha, hb⟩, hdigit⟩ := (hand hsplit).1 h
      exact .point ha hb hdigit
  · rintro (hs | ⟨ha, hb, hdigit⟩)
    · rw [isMantissa, Text.splitFirst_eq_none (not_mem_of_isDigit hs.digits hpoint)]
      exact isDigits_iff.2 hs
    · exact (hand (Text.splitFirst_append (not_mem_of_isDigit ha hpoint) _)).2 ⟨⟨ha, hb⟩, hdigit⟩

/-- A test that looks behind a sign, if there is one. -/
def behindSign (test : List Char → Bool) : List Char → Bool
  | '+' :: rest => test rest
  | '-' :: rest => test rest
  | s => test s

theorem behindSign_iff {test : List Char → Bool} {P : List Char → Prop}
    (htest : ∀ s, test s = true ↔ P s) (hsign : ∀ c s, IsSign c → ¬ P (c :: s)) {s : List Char} :
    behindSign test s = true ↔ MaySigned P s := by
  constructor
  · intro h
    unfold behindSign at h
    split at h
    · exact .signed (.inl rfl) ((htest _).1 h)
    · exact .signed (.inr rfl) ((htest _).1 h)
    · exact .plain ((htest _).1 h)
  · rintro (hs | ⟨rfl | rfl, hs⟩)
    · unfold behindSign
      split
      · exact absurd hs (hsign _ _ (.inl rfl))
      · exact absurd hs (hsign _ _ (.inr rfl))
      · exact (htest _).2 hs
    · exact (htest _).2 hs
    · exact (htest _).2 hs

theorem isExponent_iff {s : List Char} :
    isExponent s = true ↔ MaySigned (IsDigits Char.isDigit) s := by
  refine behindSign_iff (fun _ => isDigits_iff) ?_
  rintro c s hc hs
  refine absurd List.mem_cons_self (not_mem_of_isDigit hs.digits ?_)
  rcases hc with rfl | rfl <;> decide

/-! ## Figures -/

/-- A digit, a point or a sign. -/
def isFigure (c : Char) : Bool :=
  c.isDigit || c == '.' || c == '+' || c == '-'

theorem isFigure_of_isDigit {c : Char} (hc : c.isDigit = true) : isFigure c = true := by
  simp [isFigure, hc]

/-- A mantissa has digits and points only, and at least one of them. -/
theorem IsMantissa.forall_mem {s : List Char} (hs : IsMantissa s) :
    ∀ c ∈ s, c.isDigit = true ∨ c = '.' := by
  intro c hc
  cases hs with
  | whole hs => exact .inl (hs.digits c hc)
  | point hs ht _ =>
    rcases List.mem_append.1 hc with hc | hc
    · exact .inl (hs c hc)
    · rcases List.mem_cons.1 hc with rfl | hc
      · exact .inr rfl
      · exact .inl (ht c hc)

theorem IsMantissa.ne_nil {s : List Char} (hs : IsMantissa s) : s ≠ [] := by
  cases hs with
  | whole hs => exact hs.ne_nil
  | point _ _ _ => simp

theorem IsMantissa.isFigure {s : List Char} (hs : IsMantissa s) : ∀ c ∈ s, isFigure c = true := by
  intro c hc
  rcases hs.forall_mem c hc with hdigit | rfl
  · exact isFigure_of_isDigit hdigit
  · decide

/-- Digits with or without a sign are figures. -/
theorem isFigure_of_maySigned {s : List Char} (hs : MaySigned (IsDigits Char.isDigit) s) :
    ∀ c ∈ s, isFigure c = true := by
  intro c hmem
  rcases hs with hs | ⟨hc, hs⟩
  · exact isFigure_of_isDigit (hs.digits c hmem)
  · rcases List.mem_cons.1 hmem with rfl | hmem
    · rcases hc with rfl | rfl <;> decide
    · exact isFigure_of_isDigit (hs.digits c hmem)

/-! ## Case -/

/-- A capital is no figure, in lower case it is none either, and `e` only if it is `E`. -/
theorem toLower_of_lt : ∀ n < 128, (Char.ofNat n).isUpper = true →
    isFigure (Char.ofNat n) = false ∧ isFigure (Char.ofNat n).toLower = false ∧
      ((Char.ofNat n).toLower = 'e' → Char.ofNat n = 'E') := by
  decide +kernel

theorem toLower_of_isUpper {c : Char} (hc : c.isUpper = true) :
    isFigure c = false ∧ isFigure c.toLower = false ∧ (c.toLower = 'e' → c = 'E') := by
  have hlower :=
    toLower_of_lt c.toNat (Text.toNat_lt_of_isAlphanum (Text.isAlphanum_of_isUpper hc))
  rw [Char.ofNat_toNat] at hlower
  exact hlower hc

theorem toLower_eq_e {c : Char} : c.toLower = 'e' ↔ c = 'e' ∨ c = 'E' := by
  constructor
  · intro h
    cases hc : c.isUpper with
    | true => exact .inr ((toLower_of_isUpper hc).2.2 h)
    | false => exact .inl (Char.toLower_eq_of_not_isUpper (Bool.eq_false_iff.1 hc) ▸ h)
  · rintro (rfl | rfl) <;> decide

/-- Figures have no case. -/
theorem toLower_of_isFigure {c : Char} (hc : isFigure c = true ∨ isFigure c.toLower = true) :
    c.toLower = c := by
  cases hupper : c.isUpper with
  | false => exact Char.toLower_eq_of_not_isUpper (Bool.eq_false_iff.1 hupper)
  | true =>
    obtain ⟨hself, hlower, -⟩ := toLower_of_isUpper hupper
    simp [hself, hlower] at hc

theorem map_toLower_of_isFigure {s : List Char}
    (hs : ∀ c ∈ s, isFigure c = true ∨ isFigure c.toLower = true) :
    s.map Char.toLower = s :=
  (List.map_congr_left fun c hc => toLower_of_isFigure (hs c hc)).trans (List.map_id' s)

/-- A text that has figures only once it is in lower case has none but them. -/
theorem of_map_toLower {P : List Char → Prop} (hfigure : ∀ t, P t → ∀ c ∈ t, isFigure c = true)
    {s : List Char} (hs : P (s.map Char.toLower)) : P s := by
  have hself : s.map Char.toLower = s :=
    map_toLower_of_isFigure fun c hc => .inr (hfigure _ hs _ (List.mem_map_of_mem hc))
  rwa [hself] at hs

theorem isUnsignedNumeral_iff {s : List Char} :
    isUnsignedNumeral s = true ↔ IsUnsignedNumeral s := by
  have hne : isFigure 'e' = false := by decide
  unfold isUnsignedNumeral
  rw [Bool.or_eq_true, List.contains_iff_mem]
  constructor
  · rintro (hword | h)
    · exact .word hword
    · rcases Text.splitFirst_spec 'e' (s.map Char.toLower) with ⟨-, hsplit⟩ | ⟨a, b, hs, hsplit⟩
      · rw [hsplit] at h
        exact .plain (isMantissa_iff.1 h)
      · rw [hsplit] at h
        obtain ⟨ha, hb⟩ := Bool.and_eq_true_iff.1 h
        obtain ⟨m, later, rfl, rfl, hlater⟩ := List.map_eq_append_iff.1 hs
        obtain ⟨c, x, rfl, hc, rfl⟩ := List.map_eq_cons_iff.1 hlater
        exact .scaled (of_map_toLower (fun _ => IsMantissa.isFigure) (isMantissa_iff.1 ha))
          (toLower_eq_e.1 hc) (of_map_toLower (fun _ => isFigure_of_maySigned)
            (isExponent_iff.1 hb))
  · rintro (hword | hs | ⟨hs, hc, ht⟩)
    · exact .inl hword
    · refine .inr ?_
      have hself := map_toLower_of_isFigure fun c hmem => .inl (hs.isFigure c hmem)
      have hnone : 'e' ∉ s := fun hmem => Bool.false_ne_true (hne.symm.trans (hs.isFigure _ hmem))
      rw [hself, Text.splitFirst_eq_none hnone]
      exact isMantissa_iff.2 hs
    · refine .inr ?_
      rename_i c m x
      have hm := map_toLower_of_isFigure fun c hmem => .inl (hs.isFigure c hmem)
      have hx := map_toLower_of_isFigure fun c hmem => .inl (isFigure_of_maySigned ht c hmem)
      have hnone : 'e' ∉ m := fun hmem => Bool.false_ne_true (hne.symm.trans (hs.isFigure _ hmem))
      rw [List.map_append, List.map_cons, hm, hx, toLower_eq_e.2 hc, Text.splitFirst_append hnone]
      exact Bool.and_eq_true_iff.2 ⟨isMantissa_iff.2 hs, isExponent_iff.2 ht⟩

theorem IsSign.isDigit {c : Char} (hc : IsSign c) : c.isDigit = false := by
  rcases hc with rfl | rfl <;> decide

theorem IsSign.not_isMantissa {c : Char} (hc : IsSign c) (s : List Char) :
    ¬ IsMantissa (c :: s) := by
  intro hs
  rcases hs.forall_mem c List.mem_cons_self with hdigit | hpoint
  · rw [hc.isDigit] at hdigit
    cases hdigit
  · rcases hc with rfl | rfl <;> cases hpoint

theorem isNumeral_iff {s : List Char} : isNumeral s = true ↔ IsNumeral s := by
  refine behindSign_iff (fun _ => isUnsignedNumeral_iff) ?_
  intro c s hc hs
  generalize hcons : c :: s = numeral at hs
  cases hs with
  | word hs =>
    subst hcons
    rcases hc with rfl | rfl <;> simp [numberWords] at hs
  | plain hs => exact hc.not_isMantissa s (hcons ▸ hs)
  | scaled hs _ _ =>
    obtain ⟨d, m, rfl⟩ := List.exists_cons_of_ne_nil hs.ne_nil
    obtain ⟨rfl, -⟩ := List.cons.inj hcons
    exact hc.not_isMantissa m hs

/-- Numerals are made of letters, digits, points and signs. -/
theorem IsUnsignedNumeral.forall_mem {s : List Char} (hs : IsUnsignedNumeral s) :
    ∀ c ∈ s, c.isAlphanum = true ∨ isFigure c = true := by
  intro c hc
  cases hs with
  | word hs =>
    have hletters : ∀ w ∈ numberWords, ∀ d ∈ w, d.isAlphanum = true := by decide
    have hlower := hletters _ hs _ (List.mem_map_of_mem hc)
    cases hupper : c.isUpper with
    | true => exact .inl (Text.isAlphanum_of_isUpper hupper)
    | false =>
      rw [Char.toLower_eq_of_not_isUpper (Bool.eq_false_iff.1 hupper)] at hlower
      exact .inl hlower
  | plain hs => exact .inr (hs.isFigure c hc)
  | scaled hs he ht =>
    rcases List.mem_append.1 hc with hc | hc
    · exact .inr (hs.isFigure c hc)
    · rcases List.mem_cons.1 hc with rfl | hc
      · rcases he with rfl | rfl <;> exact .inl (by decide)
      · exact .inr (isFigure_of_maySigned ht c hc)

theorem IsNumeral.forall_mem {s : List Char} (hs : IsNumeral s) :
    ∀ c ∈ s, c.isAlphanum = true ∨ isFigure c = true := by
  intro c hmem
  rcases hs with hs | ⟨hc, hs⟩
  · exact hs.forall_mem c hmem
  · rcases List.mem_cons.1 hmem with rfl | hmem
    · rcases hc with rfl | rfl <;> exact .inr (by decide)
    · exact hs.forall_mem c hmem

theorem IsNumeral.ne_nil {s : List Char} (hs : IsNumeral s) : s ≠ [] := by
  rcases hs with (hs | hs | ⟨hs, -, -⟩) | ⟨-, -⟩
  · rintro rfl
    exact absurd hs (by decide)
  · exact hs.ne_nil
  · simp
  · simp

/-- There is no white space and no bar in a numeral. -/
theorem IsNumeral.solid {s : List Char} (hs : IsNumeral s) :
    ∀ c ∈ s, isBlank c = false ∧ c ≠ '|' := by
  have hword {c : Char} (hc : c.isAlphanum = true) : isBlank c = false ∧ c ≠ '|' := by
    refine ⟨Text.isBlank_eq_false_of_isNameChar (Text.isNameChar_of_isAlphanum hc), ?_⟩
    rintro rfl
    cases hc
  intro c hc
  rcases hs.forall_mem c hc with hc | hc
  · exact hword hc
  · simp only [isFigure, Bool.or_eq_true, beq_iff_eq, or_assoc] at hc
    rcases hc with hdigit | rfl | rfl | rfl
    · exact hword (Bool.or_eq_true_iff.2 (.inr hdigit))
    all_goals decide

/-! ## Members -/

/-- The text is a literal of a union, and this is its value: a text without bars in single or
double quotes, or a numeral. -/
inductive Denotes : List Char → List Char → Prop
  | string {quote : Char} {v : List Char} (hquote : IsStringQuote quote) (hv : '|' ∉ v) :
      Denotes (quote :: (v ++ [quote])) v
  | numeral {s : List Char} (hs : IsNumeral s) : Denotes s s

/-- What stands between two bars is a literal of that value with any white space around it. -/
inductive IsMember : List Char → List Char → Prop
  | intro {before literal after value : List Char} (hbefore : ∀ c ∈ before, isBlank c = true)
      (hliteral : Denotes literal value) (hafter : ∀ c ∈ after, isBlank c = true) :
      IsMember (before ++ (literal ++ after)) value

variable {s v : List Char}

theorem isStringQuote_solid {c : Char} (hc : IsStringQuote c) : isBlank c = false ∧ c ≠ '|' := by
  rcases hc with rfl | rfl <;> decide

theorem Denotes.not_mem_bar (h : Denotes s v) : '|' ∉ s := by
  cases h with
  | string hquote hv =>
    have hbar := (isStringQuote_solid hquote).2.symm
    simp [hbar, hv]
  | numeral hs => exact fun hmem => (hs.solid _ hmem).2 rfl

/-- A literal neither starts nor ends with white space. -/
theorem Denotes.ends (h : Denotes s v) :
    (∃ c ∈ s.head?, isBlank c = false) ∧ ∃ c ∈ s.getLast?, isBlank c = false := by
  cases h with
  | @string quote _ hquote _ =>
    have hblank := (isStringQuote_solid hquote).1
    refine ⟨⟨quote, rfl, hblank⟩, quote, ?_, hblank⟩
    rw [← List.cons_append, List.getLast?_concat]
    rfl
  | numeral hs =>
    have hhead := List.head_mem hs.ne_nil
    have hlast := List.getLast_mem hs.ne_nil
    exact ⟨⟨_, List.head?_eq_some_head hs.ne_nil, (hs.solid _ hhead).1⟩,
      _, List.getLast?_eq_some_getLast hs.ne_nil, (hs.solid _ hlast).1⟩

/-- There is no quote in a numeral. -/
theorem IsNumeral.not_isQuoted (hs : IsNumeral s) : ¬ Text.isQuoted s = true := by
  intro hquoted
  obtain ⟨quote, w, hquote, rfl⟩ := Validation.isQuoted_iff.1 hquoted
  have hmem := hs.forall_mem quote List.mem_cons_self
  rcases hquote with rfl | rfl <;> exact absurd hmem (by decide)

theorem literal?_of_denotes (h : Denotes s v) : literal? s = some v := by
  cases h with
  | @string quote _ hquote _ =>
    rw [literal?, if_pos (Validation.isQuoted_iff.2 ⟨quote, v, hquote, rfl⟩),
      Validation.unquote_eq]
  | numeral hs =>
    rw [literal?, if_neg hs.not_isQuoted, if_pos (isNumeral_iff.2 hs)]

theorem denotes_of_literal? (hbar : '|' ∉ s) (h : literal? s = some v) : Denotes s v := by
  unfold literal? at h
  split at h
  · rename_i hquoted
    obtain ⟨quote, w, hquote, rfl⟩ := Validation.isQuoted_iff.1 hquoted
    rw [Validation.unquote_eq] at h
    obtain rfl := Option.some.inj h
    exact .string hquote fun hmem => hbar (by simp [hmem])
  · split at h
    · rename_i hnumeral
      obtain rfl := Option.some.inj h
      exact .numeral (isNumeral_iff.1 hnumeral)
    · cases h

/-- The member of a union between two bars is read as the literal that it is. -/
theorem literal?_trim_eq_some_iff (hbar : '|' ∉ s) :
    literal? (Text.trim s) = some v ↔ IsMember s v := by
  constructor
  · intro h
    obtain ⟨before, after, hs, hbefore, hafter⟩ := Text.exists_blanks_around_trim s
    have hliteral := denotes_of_literal? (fun hmem => hbar (by rw [hs]; simp [hmem])) h
    rw [hs]
    exact .intro hbefore hliteral hafter
  · rintro ⟨hbefore, hliteral, hafter⟩
    rw [Text.trim_between _ _ hbefore hafter hliteral.ends.1 hliteral.ends.2]
    exact literal?_of_denotes hliteral

theorem IsMember.not_mem_bar (h : IsMember s v) : '|' ∉ s := by
  have hblank : isBlank '|' = false := by decide
  obtain ⟨hbefore, hliteral, hafter⟩ := h
  have hgap {gap : List Char} (hgap : ∀ c ∈ gap, isBlank c = true) : '|' ∉ gap :=
    fun hmem => Bool.false_ne_true (hblank.symm.trans (hgap _ hmem))
  simp [hgap hbefore, hliteral.not_mem_bar, hgap hafter]

/-! ## Unions -/

/-- A list is mapped by a partial function if each of its items is. -/
theorem mapM_eq_some_iff {α β : Type} {f : α → Option β} {xs : List α} {ys : List β} :
    xs.mapM f = some ys ↔ List.Forall₂ (fun x y => f x = some y) xs ys := by
  induction xs generalizing ys with
  | nil => simp [eq_comm]
  | cons x xs ih =>
    rw [List.mapM_cons, List.forall₂_cons_left_iff]
    constructor
    · intro h
      obtain ⟨y, hy, h⟩ := Option.bind_eq_some_iff.1 h
      obtain ⟨later, hlater, h⟩ := Option.bind_eq_some_iff.1 h
      exact ⟨y, later, hy, ih.1 hlater, (Option.some.inj h).symm⟩
    · rintro ⟨y, later, hy, hlater, rfl⟩
      rw [hy, ih.2 hlater]
      rfl

theorem unionLiterals_of_mapM {description : String} {literals : List (List Char)}
    (h : (Text.splitAt '|' description.toList).mapM (literal? ∘ Text.trim) = some literals) :
    unionLiterals description = literals.map String.ofList := by
  unfold unionLiterals
  rw [List.mapM_map, h]

theorem unionLiterals_of_mapM_none {description : String}
    (h : (Text.splitAt '|' description.toList).mapM (literal? ∘ Text.trim) = none) :
    unionLiterals description = [] := by
  unfold unionLiterals
  rw [List.mapM_map, h]

/-- **Union types are read as a whole or not at all.** A description that joins literals with
bars, any white space around each of them, gives their values in the same order. If what stands
between two bars of a description is no literal, the description gives no values. -/
theorem allowedValues_union (p : Property) :
    (∀ pieces values, pieces ≠ [] → List.Forall₂ IsMember pieces values →
        p.typeDescription.toList = Text.joinWith ['|'] pieces →
        p.allowedValues = values.map String.ofList) ∧
      ((∃ piece ∈ Text.splitAt '|' p.typeDescription.toList, ∀ value, ¬ IsMember piece value) →
        p.allowedValues = []) := by
  constructor
  · intro pieces values hne hmembers hdescription
    have hall := hmembers.imp fun piece value (h : IsMember piece value) =>
      And.intro h.not_mem_bar (show (literal? ∘ Text.trim) piece = some value from
        (literal?_trim_eq_some_iff h.not_mem_bar).2 h)
    obtain ⟨hbar, hvalues⟩ := (List.forall₂_and_left pieces values).1 hall
    refine unionLiterals_of_mapM ?_
    rw [hdescription, Text.splitAt_joinWith hne hbar, mapM_eq_some_iff.2 hvalues]
  · rintro ⟨piece, hpiece, hother⟩
    have hbar : '|' ∉ piece := fun hmem => by simpa using Text.not_of_mem_splitWhere hpiece hmem
    refine unionLiterals_of_mapM_none ?_
    cases hmap : (Text.splitAt '|' p.typeDescription.toList).mapM (literal? ∘ Text.trim) with
    | none => rfl
    | some values =>
      have hall :=
        (mapM_eq_some_iff.1 hmap).imp fun _ value h => And.intro (Exists.intro value h) h
      obtain ⟨value, hvalue⟩ := ((List.forall₂_and_left _ values).1 hall).1 piece hpiece
      exact absurd ((literal?_trim_eq_some_iff hbar).1 hvalue) (hother value)

/-- A property whose type is described so. -/
def propertyOfType (typeDescription : String) : Property :=
  { name := "size", typeDescription := typeDescription, required := false, defaultValue := none }

/-- Strings with blanks, a quote and nothing in them, and numerals in several spellings; and a
union with a type name in it. -/
theorem allowedValues_union_sizes :
    (propertyOfType "'extra large' | \"it's\"|''\t|  +1.5E3 | .5|-Infinity").allowedValues =
        ["extra large", "it's", "", "+1.5E3", ".5", "-Infinity"] ∧
      (propertyOfType "'small' | number").allowedValues = [] := by
  have hmember (piece value : String)
      (h : '|' ∉ piece.toList ∧ literal? (Text.trim piece.toList) = some value.toList) :
      IsMember piece.toList value.toList :=
    (literal?_trim_eq_some_iff h.1).1 h.2
  refine ⟨?_, ?_⟩
  · refine (allowedValues_union _).1
      (["'extra large' ", " \"it's\"", "''\t", "  +1.5E3 ", " .5", "-Infinity"].map String.toList)
      (["extra large", "it's", "", "+1.5E3", ".5", "-Infinity"].map String.toList) (by simp) ?_
      (by decide)
    exact .cons (hmember _ _ (by decide)) <| .cons (hmember _ _ (by decide)) <|
      .cons (hmember _ _ (by decide)) <|
      .cons (hmember _ _ (by decide)) <| .cons (hmember _ _ (by decide)) <|
      .cons (hmember _ _ (by decide)) .nil
  · refine (allowedValues_union _).2 ⟨" number".toList, by decide, ?_⟩
    intro value h
    have hnone := (literal?_trim_eq_some_iff (by decide)).2 h
    rw [show literal? (Text.trim " number".toList) = none by decide] at hnone
    cases hnone

end DesignCompiler.Catalog
