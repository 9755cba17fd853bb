import DesignCompiler.Proofs.Markup.Clauses
import DesignCompiler.Proofs.Synthesis.Literals

/-!
# Styles taken apart

A decoder for the object that a style is written as, and the proof that it gives the declarations
back. `fieldPieces` cuts the inside of the object at the commas between its declarations. A text
is `Solid` if it stays in one piece wherever it stands; as with passable texts, this is closed
under `++` and holds of strings, of brackets around solid texts, and so of JSON text.
`decodeStyle?_styleBody` is the result.
-/

namespace DesignCompiler.Synthesis

open Markup (Enclosed isQuote)

/-! ## Strings in single quotes -/

/-- The character that is meant by the given one behind a backslash. -/
def unescaped? : Char → Option Char
  | '\\' => some '\\'
  | '\x27' => some '\x27'
  | 'n' => some '\n'
  | _ => none

/-- The text of a string in single quotes, which is read behind its opening quote, and what
follows the string. -/
def readString? : List Char → Option (List Char × List Char)
  | [] => none
  | '\\' :: [] => none
  | '\\' :: c :: rest =>
    (unescaped? c).bind fun d => (readString? rest).map fun (s, later) => (d :: s, later)
  | c :: rest =>
    if c = '\x27' then some ([], rest)
    else (readString? rest).map fun (s, later) => (c :: s, later)

/-- A character within quotes is read back. -/
theorem readString?_quoteStyleChar (c : Char) (rest : List Char) :
    readString? (quoteStyleChar c ++ rest) =
      (readString? rest).map fun (s, later) => (c :: s, later) := by
  unfold quoteStyleChar
  split
  · rfl
  · rfl
  · rfl
  · rename_i hslash hquote _
    rw [List.singleton_append, readString?.eq_4 _ _ (by rintro rfl; exact absurd rfl hslash)
      (by rintro _ _ rfl; exact absurd rfl hslash), if_neg hquote]

/-- A quoted text is read back. -/
theorem readString?_flatMap (s rest : List Char) :
    readString? (s.flatMap quoteStyleChar ++ '\x27' :: rest) = some (s, rest) := by
  induction s with
  | nil => simp [readString?]
  | cons c s ih =>
    rw [List.flatMap_cons, List.append_assoc, readString?_quoteStyleChar, ih]
    rfl

/-! ## Cutting between declarations -/

/-- The pieces with a text in front of the first one. -/
def glue (s : List Char) : List (List Char) → List (List Char)
  | [] => [s]
  | piece :: pieces => (s ++ piece) :: pieces

theorem glue_glue (s t : List Char) (pieces : List (List Char)) :
    glue s (glue t pieces) = glue (s ++ t) pieces := by
  cases pieces with
  | nil => rfl
  | cons piece pieces => exact congrArg (· :: pieces) (List.append_assoc s t piece).symm

/-- The number of open brackets behind a character that stands outside of strings. -/
def bracketsBehind (depth : Nat) (c : Char) : Nat :=
  if c = '[' ∨ c = '\x7b' then depth + 1 else if c = ']' ∨ c = '\x7d' then depth - 1 else depth

/-- The pieces between the commas outside of strings and brackets, without the blanks there. The
text may start in a string with the given quote, and behind so many open brackets. -/
def fieldPieces : Option Char → Nat → List Char → List (List Char)
  | _, _, [] => [[]]
  | some quote, depth, '\\' :: c :: rest => glue ['\\', c] (fieldPieces (some quote) depth rest)
  | some quote, depth, c :: rest =>
    glue [c] (fieldPieces (if c = quote then none else some quote) depth rest)
  | none, depth, c :: rest =>
    if depth = 0 ∧ c = ',' then [] :: fieldPieces none 0 rest
    else if depth = 0 ∧ c = ' ' then fieldPieces none 0 rest
    else glue [c] (fieldPieces (if isQuote c then some c else none) (bracketsBehind depth c) rest)

theorem fieldPieces_nil (depth : Nat) : fieldPieces none depth [] = [[]] := by
  rw [fieldPieces]

/-- A character outside of strings. -/
theorem fieldPieces_cons (depth : Nat) (c : Char) (rest : List Char) :
    fieldPieces none depth (c :: rest) =
      if depth = 0 ∧ c = ',' then [] :: fieldPieces none 0 rest
      else if depth = 0 ∧ c = ' ' then fieldPieces none 0 rest
      else glue [c] (fieldPieces (if isQuote c then some c else none) (bracketsBehind depth c)
        rest) := by
  rw [fieldPieces]

theorem fieldPieces_comma (s : List Char) :
    fieldPieces none 0 (',' :: s) = [] :: fieldPieces none 0 s := by
  rw [fieldPieces_cons]
  simp

theorem fieldPieces_blank (s : List Char) :
    fieldPieces none 0 (' ' :: s) = fieldPieces none 0 s := by
  rw [fieldPieces_cons]
  simp

theorem fieldPieces_ne_nil (depth : Nat) (s : List Char) : fieldPieces none depth s ≠ [] := by
  induction s generalizing depth with
  | nil => simp [fieldPieces_nil]
  | cons c s ih =>
    rw [fieldPieces_cons]
    split
    · exact List.cons_ne_nil _ _
    · split
      · exact ih 0
      · unfold glue
        split <;> exact List.cons_ne_nil _ _

/-- An open string stays in one piece up to its end. -/
theorem fieldPieces_enclosed {quote : Char} {s : List Char} (hs : Enclosed quote s)
    (hquote : quote ≠ '\\') (depth : Nat) (rest : List Char) :
    fieldPieces (some quote) depth (s ++ quote :: rest) =
      glue (s ++ [quote]) (fieldPieces none depth rest) := by
  induction hs with
  | nil =>
    rw [List.nil_append, fieldPieces.eq_3 _ _ _ _ (by simp [hquote]), if_pos rfl]
    rfl
  | @plain c s hc hslash _ _ ih =>
    rw [List.cons_append, fieldPieces.eq_3 _ _ _ _ (by simp [hslash]), if_neg hc, ih, glue_glue]
    rfl
  | @escaped c s _ ih =>
    rw [List.cons_append, List.cons_append, fieldPieces, ih, glue_glue]
    rfl

/-- The text stays in one piece wherever it stands, behind at least so many open brackets. -/
def Solid (least : Nat) (s : List Char) : Prop :=
  ∀ depth rest, least ≤ depth →
    fieldPieces none depth (s ++ rest) = glue s (fieldPieces none depth rest)

section Solid

variable {least : Nat} {s t : List Char}

theorem solid_nil : Solid least [] := by
  intro depth rest _
  rw [List.nil_append]
  cases hpieces : fieldPieces none depth rest with
  | nil => exact absurd hpieces (fieldPieces_ne_nil depth rest)
  | cons piece pieces => rfl

theorem Solid.append (hs : Solid least s) (ht : Solid least t) : Solid least (s ++ t) := by
  intro depth rest hdepth
  rw [List.append_assoc, hs depth _ hdepth, ht depth _ hdepth, glue_glue]

theorem Solid.inside (hs : Solid 0 s) : Solid 1 s :=
  fun depth rest _ => hs depth rest (Nat.zero_le depth)

/-- An inert character that is no comma, blank or square bracket. -/
def isSolid (c : Char) : Bool :=
  Markup.isInert c && c != ',' && c != ' ' && c != '[' && c != ']'

/-- A class of characters without any that part or enclose is solid. -/
theorem isSolid_of_class {accepts : Char → Bool}
    (hactive : ∀ d ∈ Markup.activeChars ++ [',', ' ', '[', ']'], accepts d = false) {c : Char}
    (hc : accepts c = true) : isSolid c = true := by
  have hinert := Markup.isInert_of_class (fun d hd => hactive d (List.mem_append_left _ hd)) hc
  have hne (d : Char) (hd : d ∈ [',', ' ', '[', ']']) : c ≠ d := by
    rintro rfl
    rw [hactive c (List.mem_append_right _ hd)] at hc
    cases hc
  simp [isSolid, hinert, hne ',' (by decide), hne ' ' (by decide), hne '[' (by decide),
    hne ']' (by decide)]

theorem solid_of_all (hs : ∀ c ∈ s, isSolid c = true) : Solid least s := by
  induction s with
  | nil => exact solid_nil
  | cons c s ih =>
    intro depth rest hdepth
    have hc := hs c List.mem_cons_self
    simp only [isSolid, Markup.isInert, Bool.and_eq_true, Bool.not_eq_true', bne_iff_ne,
      ne_eq] at hc
    obtain ⟨⟨⟨⟨⟨⟨⟨⟨hquote, -⟩, hopen'⟩, hclose'⟩, -⟩, hcomma⟩, hblank⟩, hopen⟩, hclose⟩ := hc
    have hlater := ih (fun d hd => hs d (List.mem_cons_of_mem c hd)) depth rest hdepth
    rw [List.cons_append, fieldPieces_cons]
    simp [hquote, hcomma, hblank, bracketsBehind, hopen, hclose, hopen', hclose', hlater,
      glue_glue]

/-- Inside of brackets commas part nothing. -/
theorem solid_comma : Solid 1 [','] := by
  intro depth rest hdepth
  have hdepth : depth ≠ 0 := by omega
  rw [List.singleton_append, fieldPieces_cons]
  simp [hdepth, isQuote, bracketsBehind]

/-- Brackets around a text that is solid in them. -/
theorem Solid.brackets {opening closing : Char}
    (hpair : opening = '[' ∧ closing = ']' ∨ opening = '\x7b' ∧ closing = '\x7d')
    (hs : Solid 1 s) :
    Solid 0 (opening :: (s ++ [closing])) := by
  intro depth rest _
  have hinner := hs (depth + 1) (closing :: rest) (by omega)
  have hclose : fieldPieces none (depth + 1) (closing :: rest) =
      glue [closing] (fieldPieces none depth rest) := by
    rw [fieldPieces_cons]
    rcases hpair with ⟨-, rfl⟩ | ⟨-, rfl⟩ <;> simp [isQuote, bracketsBehind]
  have hopen : fieldPieces none depth (opening :: (s ++ closing :: rest)) =
      glue [opening] (fieldPieces none (depth + 1) (s ++ closing :: rest)) := by
    rw [fieldPieces_cons]
    rcases hpair with ⟨rfl, -⟩ | ⟨rfl, -⟩ <;> simp [isQuote, bracketsBehind]
  rw [List.cons_append, List.append_assoc, List.singleton_append, hopen, hinner, hclose,
    glue_glue, glue_glue]
  rfl

/-- A string stays in one piece. -/
theorem solid_quoted {quote : Char} (hquote : isQuote quote = true) (hs : Enclosed quote s) :
    Solid 0 (quote :: (s ++ [quote])) := by
  intro depth rest _
  have hne (c : Char) (hc : isQuote c = false) : quote ≠ c := by
    rintro rfl
    rw [hquote] at hc
    cases hc
  rw [List.cons_append, List.append_assoc, List.singleton_append, fieldPieces_cons]
  simp only [hne ',' (by decide), hne ' ' (by decide), and_false, if_false, hquote, if_true,
    bracketsBehind, hne '[' (by decide), hne ']' (by decide), hne '\x7b' (by decide),
    hne '\x7d' (by decide), or_self]
  rw [fieldPieces_enclosed hs (hne '\\' (by decide)), glue_glue]
  rfl

end Solid

/-! ## JSON text -/

section Json

open Json (compact compactItems compactFields scalar)

theorem solid_quote (s : String) : Solid 0 (Json.quote s) :=
  solid_quoted (by decide) (Markup.enclosed_flatMap Json.enclosed_quoteChar s.toList)

theorem solid_scalar (v : Json) : Solid 0 (scalar v) := by
  have hnumeral {s : List Char} (hs : s.all Decimal.isNumeralChar = true) : Solid 0 s :=
    solid_of_all fun c hc => isSolid_of_class (by decide) (List.all_eq_true.1 hs c hc)
  cases v with
  | null => exact solid_of_all (by decide)
  | bool b => cases b <;> exact solid_of_all (by decide)
  | int n => exact hnumeral (Decimal.all_integer n)
  | float x =>
    show Solid 0 (if x.isFinite then Decimal.scientific x else "null".toList)
    split
    · exact hnumeral (Decimal.all_scientific x)
    · exact solid_of_all (by decide)
  | str s => exact solid_quote s
  | arr items => exact solid_nil
  | obj fields => exact solid_nil

mutual

/-- The compact text of a value stays in one piece. -/
theorem solid_compact : (v : Json) → Solid 0 (compact v)
  | .null => solid_scalar .null
  | .bool b => solid_scalar (.bool b)
  | .int n => solid_scalar (.int n)
  | .float x => solid_scalar (.float x)
  | .str s => solid_scalar (.str s)
  | .arr items => (solid_compactItems items).brackets (.inl ⟨rfl, rfl⟩)
  | .obj fields => (solid_compactFields fields).brackets (.inr ⟨rfl, rfl⟩)

theorem solid_compactItems : (items : List Json) → Solid 1 (compactItems items)
  | [] => solid_nil
  | [v] => (solid_compact v).inside
  | v :: w :: rest =>
    (solid_compact v).inside.append (solid_comma.append (solid_compactItems (w :: rest)))

theorem solid_compactFields : (fields : List (String × Json)) → Solid 1 (compactFields fields)
  | [] => solid_nil
  | [(k, v)] =>
    (solid_quote k).inside.append
      ((solid_of_all (s := [':']) (by decide)).append (solid_compact v).inside)
  | (k, v) :: f :: rest =>
    (solid_quote k).inside.append ((solid_of_all (s := [':']) (by decide)).append
      ((solid_compact v).inside.append (solid_comma.append (solid_compactFields (f :: rest)))))

end

end Json

/-! ## Declarations -/

/-- A value as it stands in a style: a text, whose quotes and escapes are undone, or JSON text. -/
inductive StyleLiteral where
  | text (s : String)
  | json (s : String)
deriving DecidableEq, Repr

namespace StyleLiteral

/-- How a value is written. -/
def ofJson : Json → StyleLiteral
  | .str s => .text s
  | v => .json v.toText

/-- The value that is meant, given a reader of JSON text. -/
def value? (readJson : String → Option Json) : StyleLiteral → Option Json
  | .text s => some (.str s)
  | .json s => readJson s

/-- A reader that reads the text of a value back gives the value. -/
theorem value?_ofJson {readJson : String → Option Json} {v : Json}
    (hread : (∃ s, v = .str s) ∨ readJson v.toText = some v) :
    (ofJson v).value? readJson = some v := by
  cases v with
  | str s => rfl
  | null | bool | int | float | arr | obj =>
    rcases hread with ⟨s, hs⟩ | hread
    · cases hs
    · exact hread

end StyleLiteral

/-- The key of a declaration without blanks, and the text of its value. -/
def readKey? : List Char → Option (List Char × List Char)
  | '\x27' :: rest =>
    match readString? rest with
    | some (key, ':' :: value) => some (key, value)
    | _ => none
  | s => Text.splitFirst ':' s

/-- The literal that a text is. -/
def readLiteral? : List Char → Option StyleLiteral
  | '\x27' :: rest =>
    match readString? rest with
    | some (s, []) => some (.text (String.ofList s))
    | _ => none
  | s => some (.json (String.ofList s))

/-- The key and the value of a declaration. -/
def readField? (piece : List Char) : Option (String × StyleLiteral) :=
  (readKey? piece).bind fun (key, value) =>
    (readLiteral? value).map fun literal => (String.ofList key, literal)

/-- The declarations inside of an object. -/
def decodeStyle? (body : List Char) : Option (List (String × StyleLiteral)) :=
  (fieldPieces none 0 body).mapM readField?

/-- The key of a declaration as it is written. -/
def styleKey (name : String) : List Char :=
  if isFieldName name then name.toList else quoteStyle name

/-- A declaration without blanks. -/
def tightField (field : String × Json) : List Char :=
  styleKey field.1 ++ ':' :: styleValue field.2

section Fields

theorem solid_quoteStyle (s : String) : Solid 0 (quoteStyle s) :=
  solid_quoted (by decide) (Markup.enclosed_flatMap enclosed_quoteStyleChar s.toList)

theorem solid_styleKey (name : String) : Solid 0 (styleKey name) := by
  unfold styleKey
  split
  · rename_i h
    exact solid_of_all fun c hc => isSolid_of_class (by decide) (isFieldChar_of_mem h hc)
  · exact solid_quoteStyle name

theorem solid_styleValue (v : Json) : Solid 0 (styleValue v) := by
  unfold styleValue
  split
  · exact solid_quoteStyle _
  · exact solid_compact v

/-- A declaration stays in one piece, which loses its blank. -/
theorem fieldPieces_styleField (field : String × Json) (rest : List Char) :
    fieldPieces none 0 (styleField field ++ rest) =
      glue (tightField field) (fieldPieces none 0 rest) := by
  have hcolon : Solid 0 [':'] := solid_of_all (by decide)
  have hwritten : styleField field ++ rest =
      styleKey field.1 ++ ([':'] ++ (' ' :: (styleValue field.2 ++ rest))) := by
    simp [styleField, styleKey]
  rw [hwritten, solid_styleKey field.1 0 _ le_rfl, hcolon 0 _ le_rfl, fieldPieces_blank,
    solid_styleValue field.2 0 _ le_rfl, glue_glue, glue_glue, tightField, List.append_assoc,
    List.singleton_append]

/-- The inside of an object is cut into its declarations. -/
theorem fieldPieces_fields {fields : List (String × Json)} (hne : fields ≠ []) :
    fieldPieces none 0 (' ' :: (Text.joinWith [',', ' '] (fields.map styleField) ++ [' '])) =
      fields.map tightField := by
  -- The blank in front of the first declaration stands for the one behind the comma in front of
  -- each later one.
  induction fields with
  | nil => exact absurd rfl hne
  | cons field fields ih =>
    rw [fieldPieces_blank]
    cases fields with
    | nil =>
      rw [List.map_singleton, Text.joinWith, fieldPieces_styleField, fieldPieces_blank,
        fieldPieces_nil, glue, List.append_nil]
      rfl
    | cons next more =>
      have hlater := ih (List.cons_ne_nil next more)
      rw [List.map_cons] at hlater ⊢
      rw [List.map_cons, Text.joinWith, List.append_assoc, List.append_assoc,
        fieldPieces_styleField, List.cons_append, fieldPieces_comma, List.singleton_append,
        hlater, glue, List.append_nil]
      · rfl
      · exact fun h => List.cons_ne_nil _ _ h

/-- The JSON text of a value that is no text is not quoted. -/
theorem head?_compact_ne {v : Json} (hv : ∀ s, v ≠ .str s) : v.compact.head? ≠ some '\x27' := by
  have hnumeral {s : List Char} (hs : s.all Decimal.isNumeralChar = true) :
      s.head? ≠ some '\x27' := by
    intro hhead
    exact absurd (List.all_eq_true.1 hs _ (List.mem_of_head? hhead)) (by decide)
  cases v with
  | null => decide
  | bool b => cases b <;> decide
  | int n => exact hnumeral (Decimal.all_integer n)
  | float x =>
    show (if x.isFinite then Decimal.scientific x else "null".toList).head? ≠ _
    split
    · exact hnumeral (Decimal.all_scientific x)
    · decide
  | str s => exact absurd rfl (hv s)
  | arr items =>
    rintro ⟨⟩
  | obj fields =>
    rintro ⟨⟩

theorem readLiteral?_styleValue (v : Json) : readLiteral? (styleValue v) = some (.ofJson v) := by
  unfold styleValue
  split
  · rename_i s
    show (match readString? (s.toList.flatMap quoteStyleChar ++ ['\x27']) with
      | some (s, []) => some (StyleLiteral.text (String.ofList s))
      | _ => none) = _
    rw [readString?_flatMap]
    exact congrArg (fun s => some (StyleLiteral.text s)) String.ofList_toList
  · rename_i hv
    have hhead := head?_compact_ne (v := v) fun s hs => hv s hs
    unfold readLiteral?
    split
    · rename_i hquote
      rw [hquote] at hhead
      exact absurd rfl hhead
    · cases v with
      | str s => exact absurd rfl (hv s)
      | null | bool | int | float | arr | obj => rfl

theorem readKey?_tightField (field : String × Json) :
    readKey? (tightField field) = some (field.1.toList, styleValue field.2) := by
  unfold tightField styleKey
  split
  · rename_i h
    have hsplit := Text.splitFirst_append (c := ':') (s := field.1.toList)
      (fun hmem => absurd (isFieldChar_of_mem h hmem) (by decide)) (styleValue field.2)
    unfold readKey?
    split
    · rename_i rest hquote
      obtain ⟨c, more, hname⟩ := List.exists_cons_of_ne_nil (fieldName_ne_nil h)
      rw [hname] at hquote
      obtain rfl : c = '\x27' := (List.cons.inj hquote).1
      exact absurd (isFieldChar_of_mem h (hname ▸ List.mem_cons_self)) (by decide)
    · exact hsplit
  · show (match readString?
      (field.1.toList.flatMap quoteStyleChar ++ ['\x27'] ++ ':' :: styleValue field.2) with
      | some (key, ':' :: value) => some (key, value)
      | _ => none) = _
    rw [List.append_assoc, List.singleton_append, readString?_flatMap]
    rfl

theorem readField?_tightField (field : String × Json) :
    readField? (tightField field) = some (field.1, .ofJson field.2) := by
  unfold readField?
  rw [readKey?_tightField, Option.bind_some]
  show (readLiteral? (styleValue field.2)).map _ = _
  rw [readLiteral?_styleValue, Option.map_some, String.ofList_toList]

end Fields

/-! ## Styles -/

/-- What stands between the braces of the object of a style. -/
def styleBody (style : KeyMap Json) : List Char :=
  ' ' :: (Text.joinWith [',', ' '] (style.entries.map styleField) ++ [' '])

/-- **The declarations of a style are read back** from the object that it is written as: keys and
texts as they were, and other values as their JSON text. -/
theorem decodeStyle?_styleBody {style : KeyMap Json} (hne : style.entries ≠ []) :
    decodeStyle? (styleBody style) =
      some (style.entries.map fun field => (field.1, StyleLiteral.ofJson field.2)) := by
  unfold decodeStyle? styleBody
  rw [fieldPieces_fields hne]
  induction style.entries with
  | nil => rfl
  | cons field fields ih =>
    rw [List.map_cons, List.mapM_cons, readField?_tightField, ih]
    rfl

/-- The declarations inside of an object with the values that are meant, given a reader of JSON
text. -/
def readStyle? (readJson : String → Option Json) (body : List Char) :
    Option (List (String × Json)) :=
  (decodeStyle? body).bind
    fun fields => fields.mapM fun field => (field.2.value? readJson).map fun v => (field.1, v)

/-- With a reader that reads the JSON text of its values back, a style is read back. -/
theorem readStyle?_styleBody {style : KeyMap Json} (hne : style.entries ≠ [])
    {readJson : String → Option Json}
    (hread : ∀ field ∈ style.entries,
      (∃ s, field.2 = .str s) ∨ readJson field.2.toText = some field.2) :
    readStyle? readJson (styleBody style) = some style.entries := by
  unfold readStyle?
  rw [decodeStyle?_styleBody hne, Option.bind_some]
  generalize style.entries = fields at hread
  induction fields with
  | nil => rfl
  | cons field fields ih =>
    have hfield := StyleLiteral.value?_ofJson (hread field List.mem_cons_self)
    rw [List.map_cons, List.mapM_cons, hfield,
      ih fun later hlater => hread later (List.mem_cons_of_mem field hlater)]
    rfl

/-- The object that is read from the attribute of a style. -/
theorem objectLiteral?_styleObject (style : KeyMap Json) (line : Nat) :
    (Markup.Attribute.mk "style" (.expression (String.ofList (styleObject style)))
      line).objectLiteral? =
      some (styleBody style) := by
  have htrim : Text.trim (styleObject style) = styleObject style :=
    Text.trim_of_ends (by decide) (by decide) _
  show ((Text.stripStart ['\x7b'] (Text.trim (String.ofList (styleObject style)).toList)).bind
    _) = _
  rw [String.toList_ofList, htrim]
  show Text.stripEnd ['\x7d'] (styleBody style ++ ['\x7d']) = _
  unfold Text.stripEnd
  rw [List.reverse_append, List.reverse_singleton, List.singleton_append]
  simp [Text.stripStart]

end DesignCompiler.Synthesis
