import Mathlib.Data.List.Basic
import Mathlib.Tactic.SplitIfs

/-!
# Order of texts by bytes

Texts are compared character by character, and characters by their code points.
`bytes_lt_bytes_iff` says that this is the order of their bytes in UTF-8:

* a character that takes more bytes starts with a greater byte than one that takes fewer of them;
* characters with the same number of bytes are compared like their code points in base 64
  (`utf8EncodeChar_append_lt`).
-/

namespace DesignCompiler.Text

/-- The bytes of a text in UTF-8. -/
def bytes (text : String) : List UInt8 :=
  text.toUTF8.data.toList

theorem bytes_eq (text : String) : bytes text = text.toList.flatMap String.utf8EncodeChar := by
  have hencoded : text.toUTF8 = (text.toList.flatMap String.utf8EncodeChar).toByteArray :=
    String.utf8Encode_toList.symm
  rw [bytes, hencoded, List.data_toByteArray]

theorem ofNat_cons_lt_iff {m n : Nat} (hm : m < 256) (hn : n < 256) {s t : List UInt8} :
    UInt8.ofNat m :: s < UInt8.ofNat n :: t ↔ m < n ∨ m = n ∧ s < t := by
  rw [List.cons_lt_cons_iff, UInt8.lt_iff_toNat_lt, ← UInt8.toNat_inj,
    UInt8.toNat_ofNat_of_lt' hm, UInt8.toNat_ofNat_of_lt' hn]

/-- The end of Unicode; the first of four bytes has no room for more. -/
theorem toNat_val_lt (c : Char) : c.val.toNat < 1114112 := by
  rcases c.valid with hbelow | ⟨-, habove⟩
  · exact Nat.lt_trans hbelow (by decide)
  · exact habove

/-- Characters are told apart by their bytes, whatever comes behind them. -/
theorem utf8EncodeChar_append_lt {c d : Char} (h : c < d) (s t : List UInt8) :
    String.utf8EncodeChar c ++ s < String.utf8EncodeChar d ++ t := by
  have hcode : c.val.toNat < d.val.toNat := h
  have hlimit := toNat_val_lt d
  -- Only nested divisions by 64 show how one digit follows from the other ones.
  have htwice (v : Nat) : v / 4096 = v / 64 / 64 := (Nat.div_div_eq_div_mul v 64 64).symm
  have hthrice (v : Nat) : v / 262144 = v / 64 / 64 / 64 := by
    rw [← htwice, Nat.div_div_eq_div_mul]
  unfold String.utf8EncodeChar
  dsimp only
  rw [htwice, htwice, hthrice, hthrice]
  -- One case for each number of bytes of the two characters.
  split_ifs <;> simp (disch := omega) only [List.cons_append, List.nil_append,
    ofNat_cons_lt_iff] <;> omega

theorem flatMap_utf8EncodeChar_lt {s t : List Char} (h : s < t) :
    s.flatMap String.utf8EncodeChar < t.flatMap String.utf8EncodeChar := by
  induction s generalizing t with
  | nil =>
    cases t with
    | nil => exact absurd h (List.lt_irrefl [])
    | cons d t =>
      obtain ⟨byte, rest, hbytes⟩ :=
        List.exists_cons_of_ne_nil (String.utf8EncodeChar_ne_nil (c := d))
      rw [List.flatMap_cons, hbytes]
      exact List.nil_lt_cons _ _
  | cons c s ih =>
    cases t with
    | nil => exact absurd h (List.not_lt_nil _)
    | cons d t =>
      rw [List.flatMap_cons, List.flatMap_cons]
      rcases List.cons_lt_cons_iff.1 h with hlt | ⟨rfl, hlt⟩
      · exact utf8EncodeChar_append_lt hlt _ _
      · exact List.append_left_lt (ih hlt)

/-- The order of texts is the order of their bytes. -/
theorem bytes_lt_bytes_iff {a b : String} : bytes a < bytes b ↔ a < b := by
  rw [bytes_eq, bytes_eq, String.lt_iff]
  constructor
  · intro h
    by_contra hnot
    rcases List.le_iff_lt_or_eq.1 (List.not_lt.1 hnot) with hlt | heq
    · exact List.lt_asymm h (flatMap_utf8EncodeChar_lt hlt)
    · rw [heq] at h
      exact List.lt_irrefl _ h
  · exact flatMap_utf8EncodeChar_lt

/-- The texts are in the order of their bytes, and none is there twice. -/
def Ascending (texts : List String) : Prop :=
  texts.Pairwise fun a b => bytes a < bytes b

theorem ascending_of_pairwise {texts : List String} (h : texts.Pairwise (· < ·)) :
    Ascending texts :=
  h.imp bytes_lt_bytes_iff.2

end DesignCompiler.Text
