import DesignCompiler.Text.Class

/-!
# Cursors

A place in a source text, with the line that it is on. A cursor never reads past the end, and
every movement here leaves at most as much to read as there was.
-/

namespace DesignCompiler.Markup

/-- A place in a source: what stands before it, nearest character first, what follows, and the
line, from one. -/
structure Cursor where
  before : List Char
  rest : List Char
  line : Nat
deriving DecidableEq, Repr, Inhabited

namespace Cursor

/-- The start of a text. -/
def start (text : List Char) : Cursor :=
  ⟨[], text, 1⟩

/-- The line after a character on the given line. -/
def lineAfter (line : Nat) (c : Char) : Nat :=
  if c = '\n' then line + 1 else line

/-- The place behind the next character. -/
def next (c : Cursor) : Cursor :=
  match c.rest with
  | [] => c
  | ch :: rest => ⟨ch :: c.before, rest, lineAfter c.line ch⟩

/-- The place behind the characters of a class. -/
def skipFrom (accepts : Char → Bool) (before : List Char) (line : Nat) : List Char → Cursor
  | [] => ⟨before, [], line⟩
  | ch :: rest =>
    if accepts ch then skipFrom accepts (ch :: before) (lineAfter line ch) rest
    else ⟨before, ch :: rest, line⟩

/-- The place behind the characters of a class. -/
def skipWhile (accepts : Char → Bool) (c : Cursor) : Cursor :=
  skipFrom accepts c.before c.line c.rest

/-- The place behind white space. -/
def skipBlanks (c : Cursor) : Cursor :=
  c.skipWhile Text.isBlank

/-- The text between a place and a later one. -/
def textUntil (c stop : Cursor) : List Char :=
  c.rest.take (c.rest.length - stop.rest.length)

@[simp] theorem rest_next (c : Cursor) : c.next.rest = c.rest.tail := by
  unfold next; split <;> simp_all

theorem rest_skipFrom (accepts : Char → Bool) (before : List Char) (line : Nat)
    (rest : List Char) :
    (skipFrom accepts before line rest).rest = rest.dropWhile accepts := by
  induction rest generalizing before line with
  | nil => rfl
  | cons ch rest ih => by_cases h : accepts ch <;> simp [skipFrom, h, ih]

@[simp] theorem rest_skipWhile (accepts : Char → Bool) (c : Cursor) :
    (c.skipWhile accepts).rest = c.rest.dropWhile accepts :=
  rest_skipFrom accepts c.before c.line c.rest

@[simp] theorem rest_skipBlanks (c : Cursor) :
    c.skipBlanks.rest = c.rest.dropWhile Text.isBlank :=
  rest_skipWhile Text.isBlank c

theorem skipWhile_le (accepts : Char → Bool) (c : Cursor) :
    (c.skipWhile accepts).rest.length ≤ c.rest.length :=
  rest_skipWhile accepts c ▸ (List.dropWhile_suffix accepts).length_le

theorem skipBlanks_le (c : Cursor) : c.skipBlanks.rest.length ≤ c.rest.length :=
  skipWhile_le Text.isBlank c

theorem next_le (c : Cursor) : c.next.rest.length ≤ c.rest.length := by
  simp

/-- What is at most the text behind the next character is less than the text at the cursor. -/
theorem lt_of_le_next {c : Cursor} {ch : Char} {rest : List Char} {n : Nat}
    (hrest : c.rest = ch :: rest) (hn : n ≤ c.next.rest.length) : n < c.rest.length := by
  rw [rest_next, hrest, List.tail_cons] at hn
  rw [hrest, List.length_cons]
  omega

/-- Passing over the next character leaves less to read. -/
theorem next_lt {c : Cursor} {ch : Char} {rest : List Char} (hrest : c.rest = ch :: rest) :
    c.next.rest.length < c.rest.length :=
  lt_of_le_next hrest (Nat.le_refl _)

/-- Passing over a run of characters leaves less to read if the first of them belongs to it. -/
theorem skipWhile_lt {accepts : Char → Bool} {c : Cursor} {ch : Char} {rest : List Char}
    (hrest : c.rest = ch :: rest) (hch : accepts ch = true) :
    (c.skipWhile accepts).rest.length < c.rest.length := by
  have hsuffix : (rest.dropWhile accepts).length ≤ rest.length :=
    (List.dropWhile_suffix accepts).length_le
  simp only [rest_skipWhile, hrest, List.dropWhile_cons, hch, if_true, List.length_cons]
  omega

end Cursor

end DesignCompiler.Markup
