import DesignCompiler.Proofs.Synthesis.Styles

/-!
# Attributes read back

Every attribute that is written for a property, and the one that is written for a style, is read
back by a scan with the value that was meant, and the scan goes on behind it. What may stand
behind an attribute is what is written there: the end of the tag, or further attributes.
-/

namespace DesignCompiler.Synthesis

open Markup (Attribute Cursor ElementScanner Scanned SpelledAttribute Spelling Value isTagChar
  scanAttributes)
open Text (isBlank)

/-! ## Attributes and what stands behind them -/

/-- What can stand behind a written attribute. -/
inductive FollowsAttribute : List Char → Prop
  | close (rest : List Char) : FollowsAttribute ('>' :: rest)
  | selfClose (rest : List Char) : FollowsAttribute (' ' :: '/' :: '>' :: rest)
  | property {name : String} {v : Json} {text : List Char} (hname : isAttributeName name = true)
      (htext : attributeText name v = some text) (rest : List Char) :
      FollowsAttribute (' ' :: (text ++ rest))
  | style (style : KeyMap Json) (rest : List Char) :
      FollowsAttribute (' ' :: ("style=".toList ++ styleText style ++ rest))

/-- The text of an attribute begins with its name. -/
theorem exists_eq_of_attributeText {name : String} {v : Json} {text : List Char}
    (htext : attributeText name v = some text) : ∃ later, text = name.toList ++ later := by
  rw [attributeText_eq, Option.map_eq_some_iff] at htext
  obtain ⟨spelling, -, rfl⟩ := htext
  exact ⟨spelling.text, rfl⟩

/-- No name goes on with what follows an attribute. -/
theorem FollowsAttribute.not_isTagChar_head {s : List Char} (hs : FollowsAttribute s) :
    ∀ c ∈ s.head?, isTagChar c = false := by
  cases hs <;> rintro c ⟨⟩ <;> decide

/-- What follows an attribute is no value for it. -/
theorem FollowsAttribute.head?_dropWhile_ne {s : List Char} (hs : FollowsAttribute s) :
    (s.dropWhile isBlank).head? ≠ some '=' := by
  have hblank (s : List Char) : (' ' :: s).dropWhile isBlank = s.dropWhile isBlank := rfl
  cases hs with
  | close rest => rintro ⟨⟩
  | selfClose rest => rintro ⟨⟩
  | property hname htext rest =>
    obtain ⟨later, rfl⟩ := exists_eq_of_attributeText htext
    have htag := (isTag_of_isAttributeName hname).1
    rw [hblank, List.append_assoc, Markup.dropWhile_isBlank_of_tag htag]
    exact Markup.head?_tag_ne htag (by decide)
  | style style rest => rintro ⟨⟩

/-- A scan that comes to the text, with something behind it that can stand there, reads one
attribute with the name and the value and goes on behind it. -/
def ReadsAs (text : List Char) (name : String) (value : Value) : Prop :=
  ∀ (element : ElementScanner) (stack : List String) (tag : String) (tagLine bound : Nat)
    (c d : Cursor) (hc : c.rest.length ≤ bound), c.Spans text d → FollowsAttribute d.rest →
      ∃ hd, scanAttributes element stack tag tagLine bound c hc =
        (scanAttributes element stack tag tagLine bound d hd).map
          (Scanned.after .none (⟨name, value, c.line⟩ :: ·))

theorem readsAs_spelled {a : SpelledAttribute} (ha : a.Readable) :
    ReadsAs a.text a.name a.spelling.value :=
  fun element stack tag tagLine _ _ _ hc hspans hfollows =>
    Markup.scanAttributes_spelled element stack ha hspans hfollows.not_isTagChar_head
      hfollows.head?_dropWhile_ne tag tagLine hc

/-- A blank in front of an attribute changes nothing. -/
theorem ReadsAs.blank {text : List Char} {name : String} {value : Value}
    (h : ReadsAs text name value) :
    ReadsAs (' ' :: text) name value := by
  intro element stack tag tagLine bound c d hc hspans hfollows
  obtain ⟨n, hblank, htext⟩ := Cursor.Spans.split (s := [' ']) hspans
  have hline : n.line = c.line := hblank.line
  have hn : n.rest.length ≤ bound := by
    rw [hblank.rest, List.length_append] at hc
    omega
  have hskip : c.skipBlanks = n.skipBlanks := by
    refine (Cursor.leads_skipBlanks c).unique (.trans ⟨_, hblank⟩ (Cursor.leads_skipBlanks n)) ?_
    rw [Cursor.rest_skipBlanks, Cursor.rest_skipBlanks, hblank.rest]
    rfl
  obtain ⟨hd, hscan⟩ := h element stack tag tagLine bound n d hn htext hfollows
  rw [hline] at hscan
  exact ⟨hd, (Markup.scanAttributes_congr hskip hc hn).trans hscan⟩

/-! ## Values -/

/-- The value as which a property is read back: a set flag for true, the text itself if it has
none of the characters that cannot stand between quotes, and an expression of its JSON text for
everything else that is not null. -/
inductive ShownAs : Json → Value → Prop
  | flag : ShownAs (.bool true) .flag
  | text {s : String} (hs : ∀ c ∈ ['"', '\\', '\n', '\x7b', '\x7d'], c ∉ s.toList) :
      ShownAs (.str s) (.text s)
  | expression {v : Json} (hnull : v ≠ .null) (hflag : v ≠ .bool true)
      (htext : ∀ s, v = .str s → ∃ c ∈ ['"', '\\', '\n', '\x7b', '\x7d'], c ∈ s.toList) :
      ShownAs v (.expression v.toText)

theorem isPlainValue_iff {s : List Char} :
    isPlainValue s = true ↔ ∀ c ∈ ['"', '\\', '\n', '\x7b', '\x7d'], c ∉ s := by
  unfold isPlainValue
  simp only [List.all_eq_true, Bool.and_eq_true, bne_iff_ne]
  constructor
  · rintro h c hc hmem
    have hne := h c hmem
    simp at hc
    tauto
  · intro h c hmem
    refine ⟨⟨⟨⟨?_, ?_⟩, ?_⟩, ?_⟩, ?_⟩ <;> rintro rfl <;> exact h _ (by simp) hmem

theorem exists_spellingOf {v : Json} (hv : v ≠ .null) :
    ∃ spelling, spellingOf v = some spelling := by
  cases v with
  | null => exact absurd rfl hv
  | bool b => cases b <;> exact ⟨_, rfl⟩
  | int | float | str | arr | obj => exact ⟨_, rfl⟩

/-- The spelling of a property stands for the value as which it is read back. -/
theorem shownAs_spellingOf {v : Json} {spelling : Spelling} (h : spellingOf v = some spelling) :
    ShownAs v spelling.value := by
  cases v with
  | null => cases h
  | bool b =>
    cases b with
    | true =>
      cases h
      exact .flag
    | false =>
      cases h
      exact .expression (by rintro ⟨⟩) (by rintro ⟨⟩) (by rintro s ⟨⟩)
  | str s =>
    by_cases hplain : isPlainValue s.toList = true
    · simp only [spellingOf, hplain, if_true, Option.some.injEq] at h
      subst h
      show ShownAs (.str s) (.text (String.ofList s.toList))
      rw [String.ofList_toList]
      exact .text (isPlainValue_iff.1 hplain)
    · simp only [spellingOf, hplain, Option.some.injEq] at h
      subst h
      refine .expression (by rintro ⟨⟩) (by rintro ⟨⟩) ?_
      rintro _ ⟨⟩
      by_contra hnone
      push Not at hnone
      exact hplain (isPlainValue_iff.2 hnone)
  | int | float | arr | obj =>
    cases h
    exact .expression (by rintro ⟨⟩) (by rintro ⟨⟩) (by rintro s ⟨⟩)

/-- The attribute of a style is read as the object of the style. -/
theorem readsAs_style (style : KeyMap Json) :
    ReadsAs ("style=".toList ++ styleText style) "style"
      (.expression (String.ofList (styleObject style))) := by
  have hname : isAttributeName "style" = true := by decide
  obtain ⟨htag, hhead⟩ := isTag_of_isAttributeName hname
  have hspelled : "style=".toList ++ styleText style =
      (SpelledAttribute.mk "style" (.braces (styleObject style))).text := by
    simp [SpelledAttribute.text, Spelling.text, styleText, styleObject, inBraces]
  rw [hspelled]
  exact readsAs_spelled ⟨htag, hhead, passable_styleObject style⟩

/-- **Written attributes are read back.** The attribute of a property that is not null is read
with its name and its value as that is shown, and the attribute of a style with an object. The
declarations inside of the object are those of the style, keys and texts as they were and other
values as their JSON text; so with a reader of that text the style is read back. -/
theorem written_attributes_readBack :
    (∀ (name : String) (v : Json), isAttributeName name = true → v ≠ .null → ∃ text value,
      attributeText name v = some text ∧ ShownAs v value ∧ ReadsAs text name value) ∧
    ∀ style : KeyMap Json, style.isEmpty = false → ∃ object body,
      ReadsAs (' ' :: ("style=".toList ++ styleText style)) "style" (.expression object) ∧
      (∀ line, (Attribute.mk "style" (.expression object) line).objectLiteral? = some body) ∧
      decodeStyle? body = some (style.entries.map fun field => (field.1, .ofJson field.2)) ∧
      ∀ readJson : String → Option Json,
        (∀ field ∈ style.entries,
          (∃ s, field.2 = .str s) ∨ readJson field.2.toText = some field.2) →
          readStyle? readJson body = some style.entries := by
  constructor
  · intro name v hname hv
    obtain ⟨spelling, hspelling⟩ := exists_spellingOf hv
    obtain ⟨htag, hhead⟩ := isTag_of_isAttributeName hname
    refine ⟨_, spelling.value, by rw [attributeText_eq, hspelling, Option.map_some],
      shownAs_spellingOf hspelling, ?_⟩
    exact readsAs_spelled (a := ⟨name, spelling⟩) ⟨htag, hhead, readable_spellingOf hspelling⟩
  · intro style hstyle
    have hne : style.entries ≠ [] := by
      intro hnil
      simp [KeyMap.isEmpty, hnil] at hstyle
    exact ⟨String.ofList (styleObject style), styleBody style, (readsAs_style style).blank,
      objectLiteral?_styleObject style, decodeStyle?_styleBody hne,
      fun _ hread => readStyle?_styleBody hne hread⟩

/-- A style with a text that has a quote in it, and a number. -/
def noteStyle : KeyMap Json :=
  .ofList [("content", .str "it's"), ("fontSize", .int 12)]

/-- A title of two braces is scanned as its JSON text up to the end of its tag, and the
declarations of the style are read back by a reader that knows the number. -/
theorem written_attributes_readBack_note :
    (isAttributeName "title" = true ∧ Json.str "\x7b\x7d" ≠ .null ∧
      ∀ element : ElementScanner, ∃ hd,
      scanAttributes element [] "Card" 1 13 ⟨[], "title=\x7b\"\x7b\x7d\"\x7d>".toList, 1⟩
        (by decide) =
        (scanAttributes element [] "Card" 1 13
          ⟨"title=\x7b\"\x7b\x7d\"\x7d".toList.reverse, ['>'], 1⟩ hd).map
          (Scanned.after .none (⟨"title", .expression "\"\x7b\x7d\"", 1⟩ :: ·))) ∧
    noteStyle.isEmpty = false ∧ ∃ body,
      decodeStyle? body = some [("content", .text "it's"), ("fontSize", .json "12")] ∧
      readStyle? (fun s => if s = "12" then some (.int 12) else none) body =
        some [("content", .str "it's"), ("fontSize", .int 12)] := by
  obtain ⟨hattributes, hstyles⟩ := written_attributes_readBack
  refine ⟨⟨by decide, nofun, ?_⟩, by decide, ?_⟩
  · intro element
    obtain ⟨text, value, htext, hshown, hreads⟩ :=
      hattributes "title" (.str "\x7b\x7d") (by decide) nofun
    cases htext
    cases hshown with
    | text hs => exact absurd (by decide) (hs '\x7b' (by decide))
    | expression =>
      exact hreads element [] "Card" 1 13 _ _ (by decide) ⟨rfl, rfl, rfl⟩ (.close [])
  · obtain ⟨object, body, -, -, hdecode, hread⟩ := hstyles noteStyle (by decide)
    refine ⟨body, hdecode.trans (by decide), (hread _ ?_).trans rfl⟩
    intro field hfield
    rcases List.mem_pair.1 hfield with rfl | rfl
    · exact .inl ⟨_, rfl⟩
    · exact .inr rfl

end DesignCompiler.Synthesis
