import DesignCompiler.Json.Printer
import DesignCompiler.Proofs.Markup.Passing

/-!
# JSON text as script text

The compact text of a value stands on one line and is passed over by a scan of script text: its
numerals are inert, its strings end where they should, and its braces pair.
-/

namespace DesignCompiler

open Markup (Passable Enclosed isInert)

/-! ## Numerals -/

namespace Decimal

/-- The characters of numerals. -/
def isNumeralChar (c : Char) : Bool :=
  c.isDigit || c == '-' || c == '.' || c == 'e'

theorem all_digitsOf (n : Nat) : (digitsOf n).all isNumeralChar = true := by
  rw [List.all_eq_true]
  intro c hc
  have hdigit : c.isDigit = true := Nat.isDigit_of_mem_toDigits (by omega) (by omega) hc
  unfold isNumeralChar
  rw [hdigit]
  rfl

theorem all_integer (n : Int) : (integer n).all isNumeralChar = true := by
  cases n with
  | ofNat k => exact all_digitsOf k
  | negSucc k =>
    rw [integer, List.all_cons, all_digitsOf]
    decide

theorem all_zeros (n : Nat) : (List.replicate n '0').all isNumeralChar = true := by
  rw [List.all_replicate]
  split
  · rfl
  · decide

theorem all_withPoint {ds : List Char} (hds : ds.all isNumeralChar = true) (places : Nat) :
    (withPoint ds places).all isNumeralChar = true := by
  have hpadded : (List.replicate (places + 1 - ds.length) '0' ++ ds).all isNumeralChar =
      true := by
    rw [List.all_append, all_zeros, hds]
    rfl
  rw [List.all_eq_true] at hpadded
  unfold withPoint
  rw [List.all_append, List.all_cons, Bool.and_eq_true, Bool.and_eq_true, List.all_eq_true,
    List.all_eq_true]
  exact ⟨fun c hc => hpadded c (List.mem_of_mem_take hc), by decide,
    fun c hc => hpadded c (List.mem_of_mem_drop hc)⟩

theorem all_positional (d : Digits) : (d.positional ['.', '0']).all isNumeralChar = true := by
  unfold Digits.positional
  split
  · rw [List.all_append, List.all_append, all_digitsOf, all_zeros]
    decide
  · exact all_withPoint (all_digitsOf d.digits) _

theorem all_withExponent (d : Digits) : d.withExponent.all isNumeralChar = true := by
  have hdigits := all_digitsOf d.digits
  have hexponent : ('e' :: integer (d.exponent + (digitsOf d.digits).length - 1)).all
      isNumeralChar = true := by
    rw [List.all_cons, all_integer]
    decide
  unfold Digits.withExponent
  generalize digitsOf d.digits = ds at hdigits hexponent
  match ds with
  | [] => exact hexponent
  | [first] =>
    rw [List.all_cons, Bool.and_eq_true] at hdigits
    show (first :: 'e' :: integer _).all isNumeralChar = true
    rw [List.all_cons, hdigits.1, hexponent]
    rfl
  | first :: second :: more =>
    rw [List.all_cons, Bool.and_eq_true] at hdigits
    show (first :: '.' :: (second :: more ++ 'e' :: integer _)).all isNumeralChar = true
    rw [List.all_cons, List.all_cons, List.all_append, hdigits.1, hdigits.2, hexponent]
    decide

theorem all_scientific (x : Float) : (scientific x).all isNumeralChar = true := by
  have hsign : (signText x).all isNumeralChar = true := by
    unfold signText
    split <;> decide
  unfold scientific
  rw [List.all_append, hsign]
  split
  · exact all_positional _
  · exact all_withExponent _

theorem isInert_of_isNumeralChar {c : Char} (hc : isNumeralChar c = true) : isInert c = true := by
  simp only [isNumeralChar, Bool.or_eq_true, beq_iff_eq] at hc
  rcases hc with ((hdigit | rfl) | rfl) | rfl
  · exact Markup.isInert_of_isAlphanum (by unfold Char.isAlphanum; rw [hdigit, Bool.or_true])
  · decide
  · decide
  · decide

end Decimal

/-! ## Values -/

namespace Json

theorem hexDigit_ne : ∀ n < 16, hexDigit n ≠ '"' ∧ hexDigit n ≠ '\\' ∧ hexDigit n ≠ '\n' := by
  decide

theorem enclosed_quoteChar (c : Char) : Enclosed '"' (quoteChar c) := by
  unfold quoteChar
  split
  · exact .escaped _ .nil
  · exact .escaped _ .nil
  · exact .escaped _ .nil
  · exact .escaped _ .nil
  · exact .escaped _ .nil
  · exact .escaped _ .nil
  · exact .escaped _ .nil
  · rename_i hquote hslash hbreak _ _ _ _
    split
    · have hhigh := hexDigit_ne (c.toNat / 16) (by omega)
      have hlow := hexDigit_ne (c.toNat % 16) (by omega)
      refine .escaped 'u' (.plain (by decide) (by decide) (by decide)
        (.plain (by decide) (by decide) (by decide) ?_))
      exact .plain hhigh.1 hhigh.2.1 hhigh.2.2 (.plain hlow.1 hlow.2.1 hlow.2.2 .nil)
    · exact .plain hquote hslash hbreak .nil

/-- A quoted text is passed over. -/
theorem passable_quote (s : String) : Passable (quote s) :=
  Markup.passable_quoted (by decide) (Markup.enclosed_flatMap enclosed_quoteChar s.toList)

theorem passable_scalar (v : Json) : Passable (scalar v) := by
  have hinert {s : List Char} (hs : s.all Decimal.isNumeralChar = true) : Passable s :=
    Markup.passable_of_inert
      fun c hc => Decimal.isInert_of_isNumeralChar (List.all_eq_true.1 hs c hc)
  cases v with
  | null => exact Markup.passable_of_inert (by decide)
  | bool b => cases b <;> exact Markup.passable_of_inert (by decide)
  | int n => exact hinert (Decimal.all_integer n)
  | float x =>
    show Passable (if x.isFinite then Decimal.scientific x else "null".toList)
    split
    · exact hinert (Decimal.all_scientific x)
    · exact Markup.passable_of_inert (by decide)
  | str s => exact passable_quote s
  | arr items => exact Markup.passable_nil
  | obj fields => exact Markup.passable_nil

mutual

/-- The compact text of a value is passed over. -/
theorem passable_compact : (v : Json) → Passable (compact v)
  | .null => passable_scalar .null
  | .bool b => passable_scalar (.bool b)
  | .int n => passable_scalar (.int n)
  | .float x => passable_scalar (.float x)
  | .str s => passable_scalar (.str s)
  | .arr items =>
    Markup.passable_cons (by decide)
      ((passable_compactItems items).append (Markup.passable_of_inert (by decide)))
  | .obj fields => (passable_compactFields fields).braces

theorem passable_compactItems : (items : List Json) → Passable (compactItems items)
  | [] => Markup.passable_nil
  | [v] => passable_compact v
  | v :: w :: rest =>
    (passable_compact v).append
      (Markup.passable_cons (by decide) (passable_compactItems (w :: rest)))

theorem passable_compactFields : (fields : List (String × Json)) → Passable (compactFields fields)
  | [] => Markup.passable_nil
  | [(k, v)] => (passable_quote k).append (Markup.passable_cons (by decide) (passable_compact v))
  | (k, v) :: f :: rest =>
    (passable_quote k).append (Markup.passable_cons (by decide)
      ((passable_compact v).append
        (Markup.passable_cons (by decide) (passable_compactFields (f :: rest)))))

end

/-! ## One line -/

theorem newline_not_mem_quoteChar (c : Char) : '\n' ∉ quoteChar c := by
  unfold quoteChar
  split
  iterate 7 decide
  · rename_i _ _ hbreak _ _ _ _
    split
    · have hhigh := hexDigit_ne (c.toNat / 16) (by omega)
      have hlow := hexDigit_ne (c.toNat % 16) (by omega)
      simp [hhigh.2.2.symm, hlow.2.2.symm]
    · simpa using Ne.symm hbreak

theorem newline_not_mem_quote (s : String) : '\n' ∉ quote s := by
  unfold quote
  simp [newline_not_mem_quoteChar]

theorem newline_not_mem_scalar (v : Json) : '\n' ∉ scalar v := by
  have hnumeral {s : List Char} (hs : s.all Decimal.isNumeralChar = true) : '\n' ∉ s :=
    fun hmem => absurd (List.all_eq_true.1 hs _ hmem) (by decide)
  cases v with
  | null => decide
  | bool b => cases b <;> decide
  | int n => exact hnumeral (Decimal.all_integer n)
  | float x =>
    show '\n' ∉ if x.isFinite then Decimal.scientific x else "null".toList
    split
    · exact hnumeral (Decimal.all_scientific x)
    · decide
  | str s => exact newline_not_mem_quote s
  | arr items => exact List.not_mem_nil
  | obj fields => exact List.not_mem_nil

mutual

/-- The compact text of a value has no line break in it. -/
theorem newline_not_mem_compact : (v : Json) → '\n' ∉ compact v
  | .null => newline_not_mem_scalar .null
  | .bool b => newline_not_mem_scalar (.bool b)
  | .int n => newline_not_mem_scalar (.int n)
  | .float x => newline_not_mem_scalar (.float x)
  | .str s => newline_not_mem_scalar (.str s)
  | .arr items => by
    have hitems := newline_not_mem_compactItems items
    simpa [compact] using hitems
  | .obj fields => by
    have hfields := newline_not_mem_compactFields fields
    simpa [compact] using hfields

theorem newline_not_mem_compactItems : (items : List Json) → '\n' ∉ compactItems items
  | [] => List.not_mem_nil
  | [v] => newline_not_mem_compact v
  | v :: w :: rest => by
    have hfirst := newline_not_mem_compact v
    have hlater := newline_not_mem_compactItems (w :: rest)
    simp [compactItems, hfirst, hlater]

theorem newline_not_mem_compactFields :
    (fields : List (String × Json)) → '\n' ∉ compactFields fields
  | [] => List.not_mem_nil
  | [(k, v)] => by
    have hvalue := newline_not_mem_compact v
    simp [compactFields, newline_not_mem_quote, hvalue]
  | (k, v) :: f :: rest => by
    have hvalue := newline_not_mem_compact v
    have hlater := newline_not_mem_compactFields (f :: rest)
    simp [compactFields, newline_not_mem_quote, hvalue, hlater]

end

end Json

end DesignCompiler
