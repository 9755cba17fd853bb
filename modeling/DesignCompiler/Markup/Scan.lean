import DesignCompiler.Markup.Element
import DesignCompiler.Markup.Script

/-!
# Scanning elements

Elements, their attributes and their children. Script text, attributes and children are loops over
the text that is left; each takes the scanner for the elements inside it as an argument. Elements
themselves recurse on the nesting that is still allowed, so `scanElement 0` only says that the
nesting is too deep.

A result carries the proof that it ends within a bound. An element takes at least its less-than
sign, which is why its bound is the length of the text behind the first character.

A closing tag that belongs to an element further out ends the children of the elements inside
without being consumed: the cursor stays before it, and every element up to its own finds it
again.
-/

namespace DesignCompiler.Markup

open Text (isNameChar)

/-- The result of a scan: a value, the findings on the way, and the place where it ended, with at
most `bound` characters left. -/
structure Scanned (α : Type) (bound : Nat) where
  value : α
  findings : Findings
  stop : Cursor
  within : stop.rest.length ≤ bound

namespace Scanned

variable {α β : Type} {bound : Nat}

/-- The result of a scan that found nothing on its way. -/
def quiet (value : α) (stop : Cursor) (within : stop.rest.length ≤ bound) : Scanned α bound :=
  ⟨value, Findings.none, stop, within⟩

/-- The result with another value, preceded by earlier findings. -/
def after (earlier : Findings) (f : α → β) (s : Scanned α bound) : Scanned β bound :=
  ⟨f s.value, earlier ++ s.findings, s.stop, s.within⟩

end Scanned

/-- A scanner for the element at a cursor, given the tags around it, outermost first. -/
abbrev ElementScanner :=
  (stack : List String) → (c : Cursor) → Except Anomaly (Scanned Unit c.rest.tail.length)

/-- The characters of tags and attribute names. -/
def isTagChar (c : Char) : Bool :=
  isNameChar c || c == '.' || c == '-' || c == ':'

/-- The name at a cursor. -/
def Cursor.tagName (c : Cursor) : String :=
  String.ofList (c.rest.takeWhile isTagChar)

/-- The place behind the name at a cursor. -/
def Cursor.skipTagName (c : Cursor) : Cursor :=
  c.skipWhile isTagChar

theorem Cursor.skipTagName_le (c : Cursor) : c.skipTagName.rest.length ≤ c.rest.length :=
  Cursor.skipWhile_le isTagChar c

theorem Cursor.skipTagName_next_le (c : Cursor) :
    c.next.skipTagName.rest.length ≤ c.rest.tail.length :=
  c.rest_next ▸ skipTagName_le c.next

/-- A length below another one that is within a bound is within the bound. -/
theorem within_of_lt {n m bound : Nat} (hn : n < m) (hm : m ≤ bound) : n ≤ bound :=
  Nat.le_trans (Nat.le_of_lt hn) hm

/-- An element leaves less to read than there was at its less-than sign. -/
theorem Scanned.lt_of_ne_nil {α : Type} {c : Cursor} (found : Scanned α c.rest.tail.length)
    (hrest : c.rest ≠ []) :
    found.stop.rest.length < c.rest.length := by
  have := found.within
  have := List.length_pos_iff.2 hrest
  have : c.rest.tail.length = c.rest.length - 1 := List.length_tail
  omega

/-! ## Script text -/

/-- Where the scan of script text ends. -/
inductive Extent where
  /-- At the end of the source. -/
  | source
  /-- Behind the brace that closes an expression, which starts on the given line. -/
  | expression (line : Nat)
deriving DecidableEq, Repr

/-- Scans script text; `depth` braces are open. -/
def scanScript (element : ElementScanner) (stack : List String) (extent : Extent)
    (bound depth : Nat) (c : Cursor) (hc : c.rest.length ≤ bound) :
    Except Anomaly (Scanned Unit bound) :=
  match c.step with
  | .atEnd =>
    match extent with
    | .source => .ok (.quiet () c hc)
    | .expression line => .error (.unterminatedExpression line)
  | .pass stop hstop => scanScript element stack extent bound depth stop (within_of_lt hstop hc)
  | .openBrace stop hstop =>
    scanScript element stack extent bound (depth + 1) stop (within_of_lt hstop hc)
  | .closeBrace stop hstop =>
    match depth, extent with
    | 0, .expression _ => .ok (.quiet () stop (within_of_lt hstop hc))
    | 0, .source => .error (.unbalancedBrace stop.line)
    | depth + 1, extent =>
      scanScript element stack extent bound depth stop (within_of_lt hstop hc)
  | .element =>
    if hrest : c.rest = [] then .error (.unterminatedTag "" c.line)
    else
      match element stack c with
      | .error reason => .error reason
      | .ok found =>
        have hstop : found.stop.rest.length < c.rest.length := found.lt_of_ne_nil hrest
        match scanScript element stack extent bound depth found.stop (within_of_lt hstop hc) with
        | .error reason => .error reason
        | .ok later => .ok (later.after found.findings id)
  | .broken reason => .error reason
termination_by c.rest.length
decreasing_by all_goals assumption

/-- Scans the expression behind an opening brace and gives the text before its closing brace. An
expression without an end is blamed on the attribute that it is the value of. -/
def scanExpression (element : ElementScanner) (stack : List String) (tag name : String)
    (line : Nat) (c : Cursor) :
    Except Anomaly (Scanned (List Char) c.rest.length) :=
  match scanScript element stack (.expression c.line) c.rest.length 0 c (Nat.le_refl _) with
  | .error (.unterminatedExpression _) => .error (.unterminatedAttribute tag name line)
  | .error reason => .error reason
  | .ok found => .ok ⟨(c.textUntil found.stop).dropLast, found.findings, found.stop, found.within⟩

/-! ## Attributes -/

/-- The place behind the quote that closes an attribute value, and the text before it. -/
def Cursor.quotedEnd? (quote : Char) (before : List Char) (line : Nat) :
    List Char → Option (List Char × Cursor)
  | [] => none
  | ch :: rest =>
    if ch = quote then some ([], ⟨ch :: before, rest, Cursor.lineAfter line ch⟩)
    else (quotedEnd? quote (ch :: before) (Cursor.lineAfter line ch) rest).map
      fun (text, stop) => (ch :: text, stop)

theorem Cursor.quotedEnd?_lt {quote : Char} {before : List Char} {line : Nat}
    {rest text : List Char} {stop : Cursor}
    (h : Cursor.quotedEnd? quote before line rest = some (text, stop)) :
    stop.rest.length < rest.length := by
  induction rest generalizing before line text with
  | nil => simp [Cursor.quotedEnd?] at h
  | cons ch rest ih =>
    simp only [Cursor.quotedEnd?] at h
    split at h
    · cases h; simp
    · obtain ⟨⟨text', stop'⟩, hrest, hpair⟩ := Option.map_eq_some_iff.1 h
      obtain ⟨-, rfl⟩ := Prod.mk.inj hpair
      exact Nat.lt_succ_of_lt (ih hrest)

/-- Scans the value behind an equals sign. -/
def scanValue (element : ElementScanner) (stack : List String) (tag name : String) (line : Nat)
    (c : Cursor) :
    Except Anomaly (Scanned Value c.rest.length) :=
  match h : c.rest with
  | [] => .error (.unterminatedAttribute tag name line)
  | ch :: rest =>
    if ch = '"' ∨ ch = '\x27' then
      match hq : Cursor.quotedEnd? ch (ch :: c.before) c.line rest with
      | some (text, stop) =>
        .ok (.quiet (.text (String.ofList text)) stop
          (Nat.le_succ_of_le (Nat.le_of_lt (Cursor.quotedEnd?_lt hq))))
      | none => .error (.unterminatedAttribute tag name line)
    else if ch = '\x7b' then
      match scanExpression element stack tag name line c.next with
      | .error reason => .error reason
      | .ok found =>
        .ok ⟨.expression (String.ofList found.value), found.findings, found.stop,
          h ▸ Nat.le_of_lt (Cursor.lt_of_le_next h found.within)⟩
    else .error (.unterminatedAttribute tag name line)

/-- Blanks, an equals sign and blanks behind it are no more than the text at a cursor. -/
theorem Cursor.skipEquals_le (c : Cursor) :
    c.skipBlanks.next.skipBlanks.rest.length ≤ c.rest.length :=
  Nat.le_trans (Cursor.skipBlanks_le _) (Nat.le_trans (Cursor.next_le _) (Cursor.skipBlanks_le c))

/-- Scans one attribute after its name was read; without an equals sign it is a flag. -/
def scanNamed (element : ElementScanner) (stack : List String) (tag name : String) (line : Nat)
    (c : Cursor) :
    Except Anomaly (Scanned Value c.rest.length) :=
  if c.skipBlanks.rest.head? = some '=' then
    match scanValue element stack tag name line c.skipBlanks.next.skipBlanks with
    | .error reason => .error reason
    | .ok found =>
      .ok ⟨found.value, found.findings, found.stop,
        Nat.le_trans found.within (Cursor.skipEquals_le c)⟩
  else .ok (.quiet .flag c.skipBlanks (Cursor.skipBlanks_le c))

/-- The text of a spread without its dots. -/
def spreadText (expression : List Char) : List Char :=
  Text.stripRepeated Attribute.spreadName.toList (Text.trim expression)

/-- The characters of names belong to tags. -/
theorem isTagChar_of_isNameChar {ch : Char} (hch : isNameChar ch = true) :
    isTagChar ch = true := by
  simp [isTagChar, hch]

/-- Scans attributes up to the end of the opening tag, which starts on the line `tagLine`. -/
def scanAttributes (element : ElementScanner) (stack : List String) (tag : String)
    (tagLine bound : Nat) (c : Cursor) (hc : c.rest.length ≤ bound) :
    Except Anomaly (Scanned (List Attribute) bound) :=
  let c' := c.skipBlanks
  have hblanks : c'.rest.length ≤ c.rest.length := Cursor.skipBlanks_le c
  match h : c'.rest with
  | [] => .error (.unterminatedTag tag tagLine)
  | ch :: rest =>
    if ch = '>' ∨ ch = '/' then .ok (.quiet [] c' (Nat.le_trans hblanks hc))
    else if ch = '\x7b' then
      match scanExpression element stack tag Attribute.spreadName c'.line c'.next with
      | .error reason => .error reason
      | .ok found =>
        have hstop : found.stop.rest.length < c.rest.length :=
          Nat.lt_of_lt_of_le (Cursor.lt_of_le_next h found.within) hblanks
        let here : Attribute :=
          ⟨Attribute.spreadName, .expression (String.ofList (spreadText found.value)), c'.line⟩
        match scanAttributes element stack tag tagLine bound found.stop
          (within_of_lt hstop hc) with
        | .error reason => .error reason
        | .ok later => .ok (later.after found.findings (here :: ·))
    else if hch : isNameChar ch then
      match scanNamed element stack tag c'.tagName c'.line c'.skipTagName with
      | .error reason => .error reason
      | .ok found =>
        have hstop : found.stop.rest.length < c.rest.length :=
          Nat.lt_of_lt_of_le
            (Nat.lt_of_le_of_lt found.within
              (Cursor.skipWhile_lt h (isTagChar_of_isNameChar hch))) hblanks
        let here : Attribute := ⟨c'.tagName, found.value, c'.line⟩
        match scanAttributes element stack tag tagLine bound found.stop
          (within_of_lt hstop hc) with
        | .error reason => .error reason
        | .ok later => .ok (later.after found.findings (here :: ·))
    else .error (.malformedTag tag ch c'.line)
termination_by c.rest.length
decreasing_by all_goals assumption

/-! ## Children -/

/-- What stands between the tags of an element, and whether its own closing tag ended it. -/
structure Inside where
  closed : Bool
  text : List Char
  hasExpression : Bool
  hasElement : Bool
deriving DecidableEq, Repr, Inhabited

/-- Whether an expression between tags shows anything; an empty one and a comment do not. -/
def showsSomething (expression : List Char) : Bool :=
  let e := Text.trim expression
  !e.isEmpty && !(Text.startsWith "/*".toList e && Text.endsWith "*/".toList e)

/-- The name in the closing tag at a cursor. -/
def Cursor.closingName (c : Cursor) : String :=
  c.next.next.skipBlanks.tagName

/-- The place of the greater-than sign of the closing tag at a cursor. -/
def Cursor.closingEnd (c : Cursor) : Cursor :=
  c.next.next.skipBlanks.skipTagName.skipBlanks

/-- Text between tags that is neither a tag nor an expression. -/
def isPlain (c : Char) : Bool :=
  c != '<' && c != '\x7b'

theorem Cursor.closingEnd_le (c : Cursor) : c.closingEnd.rest.length ≤ c.rest.length := by
  have h1 := Cursor.skipBlanks_le c.next.next.skipBlanks.skipTagName
  have h2 := Cursor.skipTagName_le c.next.next.skipBlanks
  have h3 := Cursor.skipBlanks_le c.next.next
  have h4 := Cursor.next_le c.next
  have h5 := Cursor.next_le c
  unfold Cursor.closingEnd
  omega

theorem Cursor.closingEnd_next_lt {c : Cursor} {ch : Char} {rest : List Char}
    (hend : c.closingEnd.rest = ch :: rest) :
    c.closingEnd.next.rest.length < c.rest.length :=
  Nat.lt_of_lt_of_le (Cursor.next_lt hend) (Cursor.closingEnd_le c)

theorem isPlain_of_ne {ch : Char} (hsign : ch ≠ '<') (hbrace : ch ≠ '\x7b') :
    isPlain ch = true := by
  simp [isPlain, hsign, hbrace]

/-- Scans the children of an open element; its tag is the last one on the stack. -/
def scanChildren (element : ElementScanner) (stack : List String) (tag : String) (bound : Nat)
    (c : Cursor) (hc : c.rest.length ≤ bound) : Except Anomaly (Scanned Inside bound) :=
  match h : c.rest with
  | [] => .ok (.quiet ⟨false, [], false, false⟩ c hc)
  | ch :: rest =>
    if hsign : ch = '<' then
      if rest.head? = some '/' then
        match hend : c.closingEnd.rest with
        | '>' :: _ =>
          have hstop : c.closingEnd.next.rest.length < c.rest.length :=
            Cursor.closingEnd_next_lt hend
          if c.closingName = tag then
            .ok (.quiet ⟨true, [], false, false⟩ c.closingEnd.next (within_of_lt hstop hc))
          else if stack.contains c.closingName then
            .ok (.quiet ⟨false, [], false, false⟩ c hc)
          else
            match scanChildren element stack tag bound c.closingEnd.next
              (within_of_lt hstop hc) with
            | .error reason => .error reason
            | .ok later => .ok (later.after (.unexpectedClosing c.closingName c.line) id)
        | _ => .error (.unterminatedTag c.closingName c.line)
      else
        match element stack c with
        | .error reason => .error reason
        | .ok found =>
          have hstop : found.stop.rest.length < c.rest.length :=
            found.lt_of_ne_nil (h ▸ List.cons_ne_nil ch rest)
          match scanChildren element stack tag bound found.stop (within_of_lt hstop hc) with
          | .error reason => .error reason
          | .ok later => .ok (later.after found.findings fun i => { i with hasElement := true })
    else if hbrace : ch = '\x7b' then
      match scanExpression element stack tag "children" c.line c.next with
      | .error reason => .error reason
      | .ok found =>
        have hstop : found.stop.rest.length < c.rest.length := Cursor.lt_of_le_next h found.within
        match scanChildren element stack tag bound found.stop (within_of_lt hstop hc) with
        | .error reason => .error reason
        | .ok later => .ok (later.after found.findings fun i =>
            { i with hasExpression := showsSomething found.value || i.hasExpression })
    else
      have hstop : (c.skipWhile isPlain).rest.length < c.rest.length :=
        Cursor.skipWhile_lt h (isPlain_of_ne hsign hbrace)
      match scanChildren element stack tag bound (c.skipWhile isPlain)
        (within_of_lt hstop hc) with
      | .error reason => .error reason
      | .ok later =>
        .ok (later.after Findings.none
          fun i => { i with text := c.rest.takeWhile isPlain ++ i.text })
termination_by c.rest.length
decreasing_by all_goals assumption

/-! ## Elements -/

/-- The words of a text, one space apart. -/
def collapse (text : List Char) : String :=
  String.ofList (Text.joinWith [' '] (Text.words text))

/-- The cursor, or the place behind the slash at it if there is one. -/
def Cursor.skipSlash (c : Cursor) (isSlash : Bool) : Cursor :=
  if isSlash then c.next else c

theorem Cursor.next_skipSlash_le (c : Cursor) (isSlash : Bool) :
    (c.skipSlash isSlash).next.rest.length ≤ c.rest.length := by
  cases isSlash with
  | false => exact Cursor.next_le c
  | true => exact Nat.le_trans (Cursor.next_le c.next) (Cursor.next_le c)

/-- Scans the element at a cursor with a scanner for the elements inside it. Elements inside the
attribute values come before it among the findings, its children after it. -/
def scanElementWith (element : ElementScanner) : ElementScanner := fun stack c =>
  let tag := c.next.tagName
  have hname : c.next.skipTagName.rest.length ≤ c.rest.tail.length :=
    c.rest_next ▸ Cursor.skipTagName_le c.next
  match scanAttributes element stack tag c.line c.rest.tail.length c.next.skipTagName hname with
  | .error reason => .error reason
  | .ok attributes =>
    let selfClosing := attributes.stop.rest.head? == some '/'
    let last := attributes.stop.skipSlash selfClosing
    have hlast : last.next.rest.length ≤ c.rest.tail.length :=
      Nat.le_trans (Cursor.next_skipSlash_le attributes.stop selfClosing) attributes.within
    if last.rest.head? = some '>' then
      let e : Element :=
        { tag, attributes := attributes.value, line := c.line, ancestors := stack, text := ""
          hasExpressionChild := false, hasElementChild := false, selfClosing }
      if selfClosing then
        .ok ⟨(), attributes.findings ++ Findings.element e, last.next, hlast⟩
      else
        match scanChildren element (stack ++ [tag]) tag c.rest.tail.length last.next hlast with
        | .error reason => .error reason
        | .ok inside =>
          let e := { e with
            text := collapse inside.value.text
            hasExpressionChild := inside.value.hasExpression
            hasElementChild := inside.value.hasElement }
          let missing :=
            if inside.value.closed then Findings.none else Findings.unclosedTag tag c.line
          .ok ⟨(), attributes.findings ++ Findings.element e ++ inside.findings ++ missing,
            inside.stop, inside.within⟩
    else .error (.unterminatedTag tag c.line)

/-- Scans the element at a cursor when so much nesting is still allowed. -/
def scanElement : Nat → ElementScanner
  | 0 => fun _ c => .error (.tooDeep c.line)
  | nesting + 1 => scanElementWith (scanElement nesting)

/-- Scans a whole source. -/
def scanSource (text : List Char) : Except Anomaly Findings :=
  (scanScript (scanElement maxNesting) [] .source text.length 0 (.start text) (Nat.le_refl _)).map
    (·.findings)

end DesignCompiler.Markup
