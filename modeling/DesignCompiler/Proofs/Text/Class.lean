import DesignCompiler.Text.Class

/-!
# How the classes of characters lie to each other

White space is a list of code points, so that it shares no character with the names is settled by
looking each of them up in the tables. Everything else here is about ASCII.
-/

namespace DesignCompiler.Text

/-- What holds of the characters of a text is decided along the text, not over all characters
there are. -/
instance (priority := high) decidableForallMemText {p : Char → Prop} [DecidablePred p]
    (s : List Char) :
    Decidable (∀ c ∈ s, p c) :=
  List.decidableBAll p s

instance (priority := high) decidableForallMemHead {p : Char → Prop} [DecidablePred p]
    (c? : Option Char) :
    Decidable (∀ c ∈ c?, p c) :=
  Option.decidableForallMem c?

/-- The code points of white space. -/
def blankCodes : List Nat :=
  [9, 10, 11, 12, 13, 32, 0x85, 0xA0, 0x1680, 0x2000, 0x2001, 0x2002, 0x2003, 0x2004, 0x2005,
    0x2006, 0x2007, 0x2008, 0x2009, 0x200A, 0x2028, 0x2029, 0x202F, 0x205F, 0x3000]

theorem toNat_mem_blankCodes {c : Char} (hc : isBlank c = true) : c.toNat ∈ blankCodes := by
  simp only [isBlank, Bool.or_eq_true, Bool.and_eq_true, decide_eq_true_eq, beq_iff_eq] at hc
  simp only [blankCodes, List.mem_cons, List.not_mem_nil, or_false]
  omega

theorem not_isNameChar_of_mem_blankCodes :
    ∀ n ∈ blankCodes, isNameChar (Char.ofNat n) = false := by
  decide +kernel

/-- White space is no part of a name. -/
theorem isNameChar_eq_false_of_isBlank {c : Char} (hc : isBlank c = true) :
    isNameChar c = false := by
  have hcode := not_isNameChar_of_mem_blankCodes c.toNat (toNat_mem_blankCodes hc)
  rwa [Char.ofNat_toNat] at hcode

theorem isBlank_eq_false_of_isNameChar {c : Char} (hc : isNameChar c = true) :
    isBlank c = false := by
  cases hblank : isBlank c with
  | false => rfl
  | true =>
    rw [isNameChar_eq_false_of_isBlank hblank] at hc
    cases hc

/-- The letters and digits of the core library are ASCII characters. -/
theorem toNat_lt_of_isAlphanum {c : Char} (hc : c.isAlphanum = true) : c.toNat < 128 := by
  have hupper (h : c.isUpper = true) : c.toNat ≤ 90 := (of_decide_eq_true h).2
  have hlower (h : c.isLower = true) : c.toNat ≤ 122 :=
    of_decide_eq_true (Bool.and_eq_true_iff.1 h).2
  have hdigit (h : c.isDigit = true) : c.toNat ≤ 57 :=
    of_decide_eq_true (Bool.and_eq_true_iff.1 h).2
  rcases Bool.or_eq_true_iff.1 hc with hletter | hc
  · rcases Bool.or_eq_true_iff.1 hletter with hc | hc
    · have hle := hupper hc
      omega
    · have hle := hlower hc
      omega
  · have hle := hdigit hc
    omega

theorem isAlpha_of_isUpper {c : Char} (hc : c.isUpper = true) : c.isAlpha = true := by
  show (c.isUpper || c.isLower) = true
  rw [hc, Bool.true_or]

theorem isAlphanum_of_isAlpha {c : Char} (hc : c.isAlpha = true) : c.isAlphanum = true := by
  unfold Char.isAlphanum
  rw [hc, Bool.true_or]

theorem isAlphanum_of_isUpper {c : Char} (hc : c.isUpper = true) : c.isAlphanum = true :=
  isAlphanum_of_isAlpha (isAlpha_of_isUpper hc)

theorem toUpper_of_lt : ∀ n < 128, (Char.ofNat n).isAlphanum = true →
    (Char.ofNat n).toUpper.isAlphanum = true ∧
      ((Char.ofNat n).toUpper.isDigit = false → (Char.ofNat n).toUpper.isUpper = true) := by
  decide +kernel

/-- An ASCII letter or digit in upper case is one too, and a capital unless it is a digit. -/
theorem toUpper_of_isAlphanum {c : Char} (hc : c.isAlphanum = true) :
    c.toUpper.isAlphanum = true ∧ (c.toUpper.isDigit = false → c.toUpper.isUpper = true) := by
  have hupper := toUpper_of_lt c.toNat (toNat_lt_of_isAlphanum hc)
  rw [Char.ofNat_toNat] at hupper
  exact hupper hc

/-- ASCII letters and digits belong to names. -/
theorem isNameChar_of_isAlphanum {c : Char} (hc : c.isAlphanum = true) : isNameChar c = true := by
  have hascii := toNat_lt_of_isAlphanum hc
  unfold isNameChar isAlphanumeric
  simp [hascii, hc]

theorem isAlphabetic_of_isAlpha {c : Char} (hc : c.isAlpha = true) : isAlphabetic c = true := by
  have hascii := toNat_lt_of_isAlphanum (isAlphanum_of_isAlpha hc)
  unfold isAlphabetic
  simp [hascii, hc]

end DesignCompiler.Text
