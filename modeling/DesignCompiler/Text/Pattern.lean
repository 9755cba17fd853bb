import DesignCompiler.Text.Class

/-!
# Patterns

Patterns over texts, with named parts. A pattern is read as the list of all the ways in which it
can match at a place, in order of preference: an earlier alternative before a later one, and a
long run before a short one unless the run is reluctant. The preferred match is the head of that
list. Repetition exists only over classes of single characters, so every definition here is a
structural recursion.
-/

namespace DesignCompiler.Text

/-- A place in a text: the characters before it, nearest first, and the characters after it. -/
structure Site where
  before : List Char
  rest : List Char
deriving DecidableEq, Repr

/-- Shapes of text; the parts that a match reports carry keys of type `κ`. -/
inductive Pattern (κ : Type) where
  /-- The empty text. -/
  | nothing
  /-- One character of a class. -/
  | one (accepts : Char → Bool)
  /-- At least so many characters of a class, preferably many. -/
  | run (accepts : Char → Bool) (atLeast : Nat)
  /-- At least so many characters of a class, preferably few. -/
  | fewest (accepts : Char → Bool) (atLeast : Nat)
  | seq (first second : Pattern κ)
  /-- The first shape, else the second. -/
  | either (first second : Pattern κ)
  /-- A shape whose text is reported under a key. -/
  | part (key : κ) (inner : Pattern κ)
  | lineStart
  | textStart
  | textEnd
  /-- A place with a word character on exactly one side. -/
  | wordEdge

/-- A reported part of a match: its key, what stands before it (nearest first), and its text. -/
structure Capture (κ : Type) where
  key : κ
  before : List Char
  text : List Char

/-- A match: the place where it ends and the parts that it reports. -/
structure Match (κ : Type) where
  stop : Site
  parts : List (Capture κ)

namespace Pattern

variable {κ : Type}

/-- The characters of a literal, one after the other. -/
def literalChars : List Char → Pattern κ
  | [] => .nothing
  | [c] => .one (· == c)
  | c :: rest => .seq (.one (· == c)) (literalChars rest)

/-- The given text itself. -/
def literal (s : String) : Pattern κ :=
  literalChars s.toList

/-- The shape if it is there. -/
def optional (p : Pattern κ) : Pattern κ :=
  .either p .nothing

/-- The shapes one after the other. -/
def sequence : List (Pattern κ) → Pattern κ
  | [] => .nothing
  | [p] => p
  | p :: ps => .seq p (sequence ps)

/-- The places reached from a place by reading no, one, two, … characters of a class. -/
def reach (accepts : Char → Bool) (before : List Char) : List Char → List Site
  | [] => [⟨before, []⟩]
  | c :: rest => ⟨before, c :: rest⟩ :: if accepts c then reach accepts (c :: before) rest else []

/-- Whether a list starts with a character of words. -/
def startsWithWord : List Char → Bool
  | c :: _ => isWordChar c
  | [] => false

/-- Every way to match at a place, preferred ways first. -/
def ways : Pattern κ → Site → List (Match κ)
  | .nothing, s => [⟨s, []⟩]
  | .one accepts, s =>
    match s.rest with
    | c :: rest => if accepts c then [⟨⟨c :: s.before, rest⟩, []⟩] else []
    | [] => []
  | .run accepts n, s => ((reach accepts s.before s.rest).drop n).reverse.map fun t => ⟨t, []⟩
  | .fewest accepts n, s => ((reach accepts s.before s.rest).drop n).map fun t => ⟨t, []⟩
  | .seq p q, s =>
    (p.ways s).flatMap fun m => (q.ways m.stop).map fun m' => ⟨m'.stop, m.parts ++ m'.parts⟩
  | .either p q, s => p.ways s ++ q.ways s
  | .part key p, s => (p.ways s).map fun m =>
    ⟨m.stop, ⟨key, s.before, s.rest.take (s.rest.length - m.stop.rest.length)⟩ :: m.parts⟩
  | .lineStart, s =>
    match s.before with
    | [] => [⟨s, []⟩]
    | c :: _ => if c == '\n' then [⟨s, []⟩] else []
  | .textStart, s => if s.before.isEmpty then [⟨s, []⟩] else []
  | .textEnd, s => if s.rest.isEmpty then [⟨s, []⟩] else []
  | .wordEdge, s => if startsWithWord s.before != startsWithWord s.rest then [⟨s, []⟩] else []

/-- The preferred match at the first place, from the given one on, where there is any. -/
def firstMatchFrom (p : Pattern κ) (before : List Char) : List Char → Option (Match κ)
  | [] => (p.ways ⟨before, []⟩).head?
  | c :: rest =>
    match (p.ways ⟨before, c :: rest⟩).head? with
    | some m => some m
    | none => firstMatchFrom p (c :: before) rest

/-- The matches from a place on, each searched from the end of the one before; an empty match ends
the search. -/
def matchesFrom (p : Pattern κ) (s : Site) : List (Match κ) :=
  match p.firstMatchFrom s.before s.rest with
  | none => []
  | some m => if m.stop.rest.length < s.rest.length then m :: p.matchesFrom m.stop else [m]
termination_by s.rest.length

/-- The matches in a text, from left to right without overlap. -/
def allMatches (p : Pattern κ) (text : List Char) : List (Match κ) :=
  p.matchesFrom ⟨[], text⟩

end Pattern

/-- The first part that a match reports under a key. -/
def Match.part? {κ : Type} [BEq κ] (m : Match κ) (key : κ) : Option (Capture κ) :=
  m.parts.find? fun p => p.key == key

end DesignCompiler.Text
