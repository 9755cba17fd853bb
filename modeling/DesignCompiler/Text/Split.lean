import DesignCompiler.Text.Class

/-!
# Cutting and searching texts

Trimming, splitting, searching and replacing on texts given as lists of characters. Pieces are
kept even when they are empty, unless a definition says otherwise.
-/

namespace DesignCompiler.Text

/-- The text without white space at its start. -/
def trimStart (s : List Char) : List Char :=
  s.dropWhile isBlank

/-- The text without white space at its end. -/
def trimEnd (s : List Char) : List Char :=
  (s.reverse.dropWhile isBlank).reverse

/-- The text without white space at either end. -/
def trim (s : List Char) : List Char :=
  trimEnd (trimStart s)

/-- The pieces between the characters of a class; `n` such characters make `n + 1` pieces. -/
def splitWhere (isSeparator : Char → Bool) : List Char → List (List Char)
  | [] => [[]]
  | c :: rest =>
    if isSeparator c then [] :: splitWhere isSeparator rest
    else match splitWhere isSeparator rest with
      | [] => [[c]]
      | piece :: pieces => (c :: piece) :: pieces

/-- The pieces between the occurrences of one character. -/
def splitAt (separator : Char) (s : List Char) : List (List Char) :=
  splitWhere (· == separator) s

/-- The words of a text: its longest pieces without white space. -/
def words (s : List Char) : List (List Char) :=
  (splitWhere isBlank s).filter (!·.isEmpty)

/-- The pieces with a separator between neighbours. -/
def joinWith (separator : List Char) : List (List Char) → List Char
  | [] => []
  | [piece] => piece
  | piece :: pieces => piece ++ separator ++ joinWith separator pieces

/-- The parts before and after the first occurrence of a character. -/
def splitFirst (separator : Char) : List Char → Option (List Char × List Char)
  | [] => none
  | c :: rest =>
    if c == separator then some ([], rest)
    else (splitFirst separator rest).map fun (a, b) => (c :: a, b)

/-- The parts before and after the last occurrence of a character. -/
def splitLast (separator : Char) : List Char → Option (List Char × List Char)
  | [] => none
  | c :: rest =>
    match splitLast separator rest with
    | some (a, b) => some (c :: a, b)
    | none => if c == separator then some ([], rest) else none

/-- What follows the given start, if the text starts so. -/
def stripStart : List Char → List Char → Option (List Char)
  | [], s => some s
  | _ :: _, [] => none
  | p :: ps, c :: cs => if p == c then stripStart ps cs else none

/-- What precedes the given end, if the text ends so. -/
def stripEnd (ending s : List Char) : Option (List Char) :=
  (stripStart ending.reverse s.reverse).map List.reverse

/-- Whether the text starts with the given characters. -/
def startsWith (start s : List Char) : Bool :=
  (stripStart start s).isSome

/-- Whether the text ends with the given characters. -/
def endsWith (ending s : List Char) : Bool :=
  (stripEnd ending s).isSome

/-- Whether the given characters occur in the text next to each other. -/
def contains (part : List Char) : List Char → Bool
  | [] => part.isEmpty
  | c :: rest => startsWith part (c :: rest) || contains part rest

/-- Replaces the occurrences of `old`, taken from the left without overlap. The first `skip`
characters belong to an occurrence that was replaced already. -/
def replaceFrom (old new : List Char) : Nat → List Char → List Char
  | _, [] => []
  | skip + 1, _ :: rest => replaceFrom old new skip rest
  | 0, c :: rest =>
    if startsWith old (c :: rest) then new ++ replaceFrom old new (old.length - 1) rest
    else c :: replaceFrom old new 0 rest

/-- Replaces the occurrences of a non-empty text, taken from the left without overlap. -/
def replace (old new s : List Char) : List Char :=
  replaceFrom old new 0 s

/-- Removes the given start as often as the text begins with it; `fuel` bounds the number of
times. -/
def stripRepeatedFrom (start : List Char) : Nat → List Char → List Char
  | 0, s => s
  | fuel + 1, s =>
    match stripStart start s with
    | some rest => stripRepeatedFrom start fuel rest
    | none => s

/-- Removes a non-empty start as often as the text begins with it. -/
def stripRepeated (start s : List Char) : List Char :=
  stripRepeatedFrom start s.length s

/-- The number of line feeds. -/
def newlines (s : List Char) : Nat :=
  s.count '\n'

/-- The number of lines; a line feed ends a line and the last line may go without one. -/
def lineCount (s : List Char) : Nat :=
  match s.getLast? with
  | none => 0
  | some c => if c == '\n' then newlines s else newlines s + 1

@[simp] theorem splitWhere_ne_nil (p : Char → Bool) (s : List Char) : splitWhere p s ≠ [] := by
  cases s with
  | nil => simp [splitWhere]
  | cons c rest => simp only [splitWhere]; split <;> (try split) <;> simp

/-- Joining the pieces with the separator gives the text back. -/
theorem joinWith_splitAt (separator : Char) (s : List Char) :
    joinWith [separator] (splitAt separator s) = s := by
  induction s with
  | nil => rfl
  | cons c rest ih =>
    simp only [splitAt, splitWhere] at ih ⊢
    by_cases h : c = separator
    · subst h
      simp only [BEq.rfl, if_true]
      cases hr : splitWhere (· == c) rest with
      | nil => simp at hr
      | cons piece pieces =>
        rw [hr] at ih
        simpa [joinWith] using ih
    · simp only [beq_iff_eq, h, if_false]
      cases hr : splitWhere (· == separator) rest with
      | nil => simp at hr
      | cons piece pieces =>
        rw [hr] at ih
        cases pieces with
        | nil => simpa [joinWith] using ih
        | cons next more => simpa [joinWith] using ih

/-- A stripped start stood in front of what is left. -/
theorem eq_append_of_stripStart {start s rest : List Char} (h : stripStart start s = some rest) :
    s = start ++ rest := by
  induction start generalizing s with
  | nil => simpa [stripStart] using h
  | cons p ps ih =>
    cases s with
    | nil => simp [stripStart] at h
    | cons c cs =>
      simp only [stripStart] at h
      split at h
      · rename_i hpc
        rw [ih h, beq_iff_eq.1 hpc, List.cons_append]
      · simp at h

end DesignCompiler.Text
