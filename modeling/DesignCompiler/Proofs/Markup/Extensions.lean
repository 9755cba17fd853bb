import DesignCompiler.Proofs.Markup.Shifts
import DesignCompiler.Proofs.Text.Words

/-!
# Places in longer texts

`Cursor.extend` puts a text behind what is left to read. Whatever ends in front of that text ends
in the same place of the longer text, as long as it does not go on across the seam: a name does
not in front of a slash or a space, and what has an end of its own, such as a string or a comment,
does not if it has that end in the shorter text. What has none there takes some of the text behind
with it.
-/

namespace DesignCompiler.Markup

open Text (isBlank isNameChar takeWhile_append_of_end)

/-- A slash or a space stands here: what goes on across it is no name, no tag and no arrow. -/
def Separates (later : List Char) : Prop :=
  later.head? = some '/' ∨ later.head? = some ' '

theorem Separates.head {later : List Char} (h : Separates later) {accepts : Char → Bool}
    (hslash : accepts '/' = false) (hspace : accepts ' ' = false) :
    ∀ ch ∈ later.head?, accepts ch = false := by
  rintro ch hch
  rcases h with h | h <;> rw [h] at hch <;> cases hch <;> assumption

namespace Cursor

/-- The place with more text behind what is left. -/
def extend (later : List Char) (c : Cursor) : Cursor :=
  ⟨c.before, c.rest ++ later, c.line⟩

section Extend

variable {later : List Char} {c : Cursor}

@[simp] theorem before_extend (later : List Char) (c : Cursor) :
    (c.extend later).before = c.before := rfl

@[simp] theorem rest_extend (later : List Char) (c : Cursor) :
    (c.extend later).rest = c.rest ++ later := rfl

@[simp] theorem line_extend (later : List Char) (c : Cursor) :
    (c.extend later).line = c.line := rfl

theorem isShift_extend (later : List Char) : IsShift (extend later) where
  line _ := rfl
  textUntil c d := by
    have hlength : (c.rest ++ later).length - (d.rest ++ later).length =
        c.rest.length - d.rest.length := by
      simp only [List.length_append]
      omega
    show (c.rest ++ later).take ((c.rest ++ later).length - (d.rest ++ later).length) = _
    rw [hlength, List.take_append_of_le_length (Nat.sub_le _ _)]
    rfl

theorem head?_extend (later : List Char) (hrest : c.rest ≠ []) :
    (c.extend later).rest.head? = c.rest.head? := by
  obtain ⟨ch, rest, hcons⟩ := List.exists_cons_of_ne_nil hrest
  rw [rest_extend, hcons]
  rfl

theorem next_extend (later : List Char) (hrest : c.rest ≠ []) :
    (c.extend later).next = c.next.extend later := by
  obtain ⟨before, rest, line⟩ := c
  cases rest with
  | nil => exact absurd rfl hrest
  | cons ch rest => rfl

theorem next_extend_of_rest (later : List Char) {ch : Char} {rest : List Char}
    (hrest : c.rest = ch :: rest) :
    (c.extend later).next = c.next.extend later :=
  next_extend later (by rw [hrest]; exact List.cons_ne_nil ch rest)

/-- A run of characters that ends in the text, or does not go on behind it, is passed over in the
same way. -/
theorem skipWhile_extend {accepts : Char → Bool}
    (hend : (c.skipWhile accepts).rest = [] → ∀ ch ∈ later.head?, accepts ch = false) :
    (c.extend later).skipWhile accepts = (c.skipWhile accepts).extend later := by
  obtain ⟨before, rest, line⟩ := c
  rw [rest_skipWhile] at hend
  show skipFrom accepts before line (rest ++ later) =
    (skipFrom accepts before line rest).extend later
  induction rest generalizing before line with
  | nil =>
    cases later with
    | nil => rfl
    | cons ch later =>
      have hch := hend rfl ch rfl
      simp [skipFrom, hch, extend]
  | cons ch rest ih =>
    rw [List.cons_append, skipFrom, skipFrom]
    split
    · rename_i hch
      rw [List.dropWhile_cons_of_pos hch] at hend
      exact ih (ch :: before) _ hend
    · rfl

/-- A run of characters that does not end in the text ends behind it. -/
theorem rest_skipWhile_extend {accepts : Char → Bool} (hend : (c.skipWhile accepts).rest = [])
    (later : List Char) :
    ((c.extend later).skipWhile accepts).rest = later.dropWhile accepts := by
  rw [rest_skipWhile] at hend ⊢
  rw [rest_extend, List.dropWhile_append, if_pos (by simp [hend])]

theorem skipSlash_extend (later : List Char) (hrest : c.rest ≠ []) (isSlash : Bool) :
    (c.extend later).skipSlash isSlash = (c.skipSlash isSlash).extend later := by
  cases isSlash with
  | false => rfl
  | true => exact next_extend later hrest

theorem skipBlanks_extend (later : List Char) (hend : c.skipBlanks.rest ≠ []) :
    (c.extend later).skipBlanks = c.skipBlanks.extend later :=
  skipWhile_extend fun hnil => absurd hnil hend

theorem skipTagName_extend (hlater : Separates later) (c : Cursor) :
    (c.extend later).skipTagName = c.skipTagName.extend later :=
  skipWhile_extend fun _ => hlater.head (by decide) (by decide)

theorem tagName_extend (hlater : Separates later) (c : Cursor) :
    (c.extend later).tagName = c.tagName :=
  congrArg String.ofList (takeWhile_append_of_end fun _ => hlater.head (by decide) (by decide))

/-- A character is no backslash if it neither stands alone behind one nor with another one. -/
theorem ne_backslash {ch : Char} {rest : List Char} (halone : ch = '\\' → rest = [] → False)
    (hpair : ∀ (d : Char) (more : List Char), ch = '\\' → rest = d :: more → False) :
    ch ≠ '\\' := by
  intro hch
  cases rest with
  | nil => exact halone hch rfl
  | cons d more => exact hpair d more hch rfl

theorem stringEnd?_cons {ch : Char} (hch : ch ≠ '\\') (quote : Char) (before : List Char)
    (line : Nat) (rest : List Char) :
    stringEnd? quote before line (ch :: rest) =
      if ch = '\n' ∧ quote.toNat ≠ 96 then none
      else if ch = quote then some ⟨ch :: before, rest, lineAfter line ch⟩
      else stringEnd? quote (ch :: before) (lineAfter line ch) rest :=
  stringEnd?.eq_4 quote before line ch rest (fun h => absurd h hch) fun _ _ h => absurd h hch

theorem regexEnd?_cons {ch : Char} (hch : ch ≠ '\\') (inClass : Bool) (before : List Char)
    (line : Nat) (rest : List Char) :
    regexEnd? inClass before line (ch :: rest) =
      if ch = '\n' then none
      else if ch = '/' ∧ !inClass then some ⟨ch :: before, rest, line⟩
      else regexEnd? (if ch = '[' then true else if ch = ']' then false else inClass)
        (ch :: before) line rest :=
  regexEnd?.eq_4 inClass before line ch rest (fun h => absurd h hch) fun _ _ h => absurd h hch

theorem stringEnd?_extend {quote : Char} {before rest : List Char} {line : Nat} {stop : Cursor}
    (hend : stringEnd? quote before line rest = some stop) (later : List Char) :
    stringEnd? quote before line (rest ++ later) = some (stop.extend later) := by
  fun_induction stringEnd? quote before line rest with
  | case1 => cases hend
  | case2 => cases hend
  | case3 before line ch rest ih => exact ih hend
  | case4 => cases hend
  | case5 =>
    rename_i halone hpair hbreak
    cases hend
    rw [List.cons_append, stringEnd?_cons (ne_backslash halone hpair), if_neg hbreak, if_pos rfl]
    rfl
  | case6 =>
    rename_i halone hpair hbreak hquote ih
    rw [List.cons_append, stringEnd?_cons (ne_backslash halone hpair), if_neg hbreak,
      if_neg hquote]
    exact ih hend

/-- A string that does not end in a text takes some of what is behind it with it. -/
theorem stringEnd?_beyond {quote : Char} {before rest : List Char} {line : Nat} {stop : Cursor}
    (hend : stringEnd? quote before line rest = none)
    (hstop : stringEnd? quote before line (rest ++ later) = some stop) :
    stop.rest.length < later.length := by
  fun_induction stringEnd? quote before line rest with
  | case1 => exact stringEnd?_lt hstop
  | case2 =>
    cases later with
    | nil => cases hstop
    | cons ch later => exact Nat.lt_succ_of_lt (stringEnd?_lt hstop)
  | case3 before line ch rest ih => exact ih hend hstop
  | case4 =>
    rename_i halone hpair hbreak
    rw [List.cons_append, stringEnd?_cons (ne_backslash halone hpair), if_pos hbreak] at hstop
    cases hstop
  | case5 => cases hend
  | case6 =>
    rename_i halone hpair hbreak hquote ih
    rw [List.cons_append, stringEnd?_cons (ne_backslash halone hpair), if_neg hbreak,
      if_neg hquote] at hstop
    exact ih hend hstop

theorem regexEnd?_extend {inClass : Bool} {before rest : List Char} {line : Nat} {stop : Cursor}
    (hend : regexEnd? inClass before line rest = some stop) (later : List Char) :
    regexEnd? inClass before line (rest ++ later) = some (stop.extend later) := by
  fun_induction regexEnd? inClass before line rest with
  | case1 => cases hend
  | case2 => cases hend
  | case3 inClass before line ch rest ih => exact ih hend
  | case4 => cases hend
  | case5 =>
    rename_i halone hpair hbreak hslash
    cases hend
    rw [List.cons_append, regexEnd?_cons (ne_backslash halone hpair), if_neg hbreak,
      if_pos hslash]
    rfl
  | case6 =>
    rename_i halone hpair hbreak hslash ih
    rw [List.cons_append, regexEnd?_cons (ne_backslash halone hpair), if_neg hbreak,
      if_neg hslash]
    exact ih hend

/-- A regular expression that does not end in a text takes some of what is behind it with it. -/
theorem regexEnd?_beyond {inClass : Bool} {before rest : List Char} {line : Nat} {stop : Cursor}
    (hend : regexEnd? inClass before line rest = none)
    (hstop : regexEnd? inClass before line (rest ++ later) = some stop) :
    stop.rest.length < later.length := by
  fun_induction regexEnd? inClass before line rest with
  | case1 => exact regexEnd?_lt hstop
  | case2 =>
    cases later with
    | nil => cases hstop
    | cons ch later => exact Nat.lt_succ_of_lt (regexEnd?_lt hstop)
  | case3 inClass before line ch rest ih => exact ih hend hstop
  | case4 =>
    rename_i halone hpair
    rw [List.cons_append, regexEnd?_cons (ne_backslash halone hpair), if_pos rfl] at hstop
    cases hstop
  | case5 => cases hend
  | case6 =>
    rename_i halone hpair hbreak hslash ih
    rw [List.cons_append, regexEnd?_cons (ne_backslash halone hpair), if_neg hbreak,
      if_neg hslash] at hstop
    exact ih hend hstop

theorem quotedEnd?_extend {quote : Char} {before rest text : List Char} {line : Nat}
    {stop : Cursor} (hend : quotedEnd? quote before line rest = some (text, stop))
    (later : List Char) :
    quotedEnd? quote before line (rest ++ later) = some (text, stop.extend later) := by
  induction rest generalizing before line text with
  | nil => cases hend
  | cons ch rest ih =>
    rw [quotedEnd?] at hend
    rw [List.cons_append, quotedEnd?]
    split at hend
    · rename_i hquote
      cases hend
      rw [if_pos hquote]
      rfl
    · rename_i hquote
      obtain ⟨⟨text', stop'⟩, hrest, hpair⟩ := Option.map_eq_some_iff.1 hend
      cases hpair
      rw [if_neg hquote, ih hrest]
      rfl

theorem quotedEnd?_beyond {quote : Char} {before rest text : List Char} {line : Nat}
    {stop : Cursor} (hend : quotedEnd? quote before line rest = none)
    (hstop : quotedEnd? quote before line (rest ++ later) = some (text, stop)) :
    stop.rest.length < later.length := by
  induction rest generalizing before line text with
  | nil => exact quotedEnd?_lt hstop
  | cons ch rest ih =>
    rw [quotedEnd?] at hend
    rw [List.cons_append, quotedEnd?] at hstop
    split at hend
    · cases hend
    · rename_i hquote
      rw [if_neg hquote] at hstop
      obtain ⟨⟨text', stop'⟩, hrest, hpair⟩ := Option.map_eq_some_iff.1 hstop
      cases hpair
      exact ih (Option.map_eq_none_iff.1 hend) hrest

/-- A block comment ends in the text, or it takes some of what is behind the text with it. -/
theorem blockCommentEnd_extend (hlater : later.head? = some '/') (before : List Char) (line : Nat)
    (rest : List Char) :
    (blockCommentEnd before line (rest ++ later)).rest.length < later.length ∨
      ∀ later', blockCommentEnd before line (rest ++ later') =
        (blockCommentEnd before line rest).extend later' := by
  obtain ⟨tail, rfl⟩ := List.head?_eq_some_iff.1 hlater
  fun_induction blockCommentEnd before line rest with
  | case1 before line =>
    rw [List.nil_append, blockCommentEnd.eq_3 _ _ _ _ (by simp)]
    exact .inl (Nat.lt_succ_of_le (blockCommentEnd_le _ _ _))
  | case2 before line rest => exact .inr fun _ => rfl
  | case3 before line ch rest hend ih =>
    by_cases hsplit : ch = '*' ∧ rest = []
    · obtain ⟨rfl, rfl⟩ := hsplit
      exact .inl (Nat.lt_succ_self _)
    · have hopen (later : List Char) (more : List Char) (hstar : ch = '*')
          (hmore : rest ++ later = '/' :: more) :
          False := by
        cases rest with
        | nil => exact hsplit ⟨hstar, rfl⟩
        | cons next rest =>
          cases hmore
          exact hend rest hstar rfl
      rw [List.cons_append, blockCommentEnd.eq_3 _ _ _ _ (hopen _)]
      refine ih.imp_right fun h later' => ?_
      rw [List.cons_append, blockCommentEnd.eq_3 _ _ _ _ (hopen _)]
      exact h later'

/-- Type parameters end in the text, or they take some of what is behind the text with them. -/
theorem typeParametersEnd_extend (hlater : later ≠ []) (depth : Nat) (previous : Char)
    (before : List Char) (line : Nat) (rest : List Char) :
    (typeParametersEnd depth previous before line (rest ++ later)).rest.length < later.length ∨
      ∀ later', typeParametersEnd depth previous before line (rest ++ later') =
        (typeParametersEnd depth previous before line rest).extend later' := by
  fun_induction typeParametersEnd depth previous before line rest with
  | case1 depth previous before line =>
    obtain ⟨ch, tail, rfl⟩ := List.exists_cons_of_ne_nil hlater
    refine .inl (Nat.lt_succ_of_le ?_)
    rw [List.nil_append, typeParametersEnd]
    split
    · exact typeParametersEnd_le _ _ _ _ _
    · split
      · split
        · exact Nat.le_refl _
        · exact typeParametersEnd_le _ _ _ _ _
      · exact typeParametersEnd_le _ _ _ _ _
  | case2 depth previous before line rest ih =>
    simpa only [List.cons_append, typeParametersEnd, if_true] using ih
  | case3 =>
    rename_i hsign hclose hdepth
    refine .inr fun _ => ?_
    rw [List.cons_append, typeParametersEnd, if_neg hsign, if_pos hclose, if_pos hdepth]
    rfl
  | case4 =>
    rename_i hsign hclose hdepth ih
    simpa only [List.cons_append, typeParametersEnd, if_neg hsign, if_pos hclose,
      if_neg hdepth] using ih
  | case5 =>
    rename_i hsign hclose ih
    simpa only [List.cons_append, typeParametersEnd, if_neg hsign, if_neg hclose] using ih

end Extend

end Cursor

end DesignCompiler.Markup
