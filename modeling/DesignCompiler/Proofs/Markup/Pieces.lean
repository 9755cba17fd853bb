import DesignCompiler.Proofs.Markup.Pairing

/-!
# Tags with text between them

What stands in an element, as tags and the text between them. `Paired` is the grammar of tags that
pair, over pieces: texts may stand anywhere, and they change nothing about the tags
(`paired_iff`).

An element of paired pieces is given by its opening and its closing tag with paired pieces between
them (`InnerElement`). The other pieces then pair around it, on every level up to the outermost
one: `Lies` is the chain of the elements around it, which is what an induction over them goes
along.
-/

namespace DesignCompiler.Markup

/-! ## Pieces -/

/-- A tag, or text between tags. -/
inductive Piece where
  | tag (e : TagEvent)
  | text (s : List Char)
deriving DecidableEq, Repr

namespace Piece

/-- A piece as it is written. -/
def written : Piece → List Char
  | .tag e => e.text
  | .text s => s

/-- The tag that a piece is. -/
def tag? : Piece → Option TagEvent
  | .tag e => some e
  | .text _ => none

/-- The name of a tag is read back, and a text starts neither a tag nor an expression. -/
def Readable : Piece → Prop
  | .tag e => IsTag e.tag.toList
  | .text s => ∀ ch ∈ s, isPlain ch = true

instance : DecidablePred Readable
  | .tag e => inferInstanceAs (Decidable (IsTag e.tag.toList))
  | .text s => inferInstanceAs (Decidable (∀ ch ∈ s, isPlain ch = true))

/-- How many elements more are open behind a piece than in front of it. -/
def opens : Piece → Int
  | .tag (.opening _) => 1
  | .tag (.closing _) => -1
  | .tag (.selfClosing _) | .text _ => 0

end Piece

/-- Pieces as they are written one behind the other. -/
def pieceText (w : List Piece) : List Char :=
  w.flatMap Piece.written

@[simp] theorem pieceText_nil : pieceText [] = [] := rfl

@[simp] theorem pieceText_cons (p : Piece) (w : List Piece) :
    pieceText (p :: w) = p.written ++ pieceText w := rfl

@[simp] theorem pieceText_append (u w : List Piece) :
    pieceText (u ++ w) = pieceText u ++ pieceText w :=
  List.flatMap_append

/-- The tags among pieces. -/
def tagsOf (w : List Piece) : List TagEvent :=
  w.filterMap Piece.tag?

/-- How many elements more are open behind the pieces than in front of them. -/
def surplus : List Piece → Int
  | [] => 0
  | p :: w => p.opens + surplus w

@[simp] theorem surplus_nil : surplus [] = 0 := rfl

@[simp] theorem surplus_cons (p : Piece) (w : List Piece) :
    surplus (p :: w) = p.opens + surplus w := rfl

@[simp] theorem surplus_append (u w : List Piece) : surplus (u ++ w) = surplus u + surplus w := by
  induction u with
  | nil => simp
  | cons p u ih =>
    rw [List.cons_append, surplus_cons, surplus_cons, ih]
    omega

/-! ## Pieces whose tags pair -/

/-- The tags pair as elements that lie in each other or behind each other, with at most so many of
them around any place, and with texts between them. -/
inductive Paired : Nat → List Piece → Prop where
  | nil (n : Nat) : Paired n []
  | text {n : Nat} {w : List Piece} (s : List Char) (hw : Paired n w) : Paired n (.text s :: w)
  | selfClosing {n : Nat} {w : List Piece} (t : String) (hw : Paired (n + 1) w) :
      Paired (n + 1) (.tag (.selfClosing t) :: w)
  | element {n : Nat} {v w : List Piece} (t : String) (hv : Paired n v) (hw : Paired (n + 1) w) :
      Paired (n + 1) (.tag (.opening t) :: (v ++ .tag (.closing t) :: w))

theorem Paired.append {n : Nat} {u w : List Piece} (hu : Paired n u) (hw : Paired n w) :
    Paired n (u ++ w) := by
  induction hu with
  | nil => exact hw
  | text s _ ih => exact .text s (ih hw)
  | selfClosing t _ ih => exact .selfClosing t (ih hw)
  | element t hv _ _ ih =>
    rw [List.cons_append, List.append_assoc, List.cons_append]
    exact .element t hv (ih hw)

theorem paired_texts (n : Nat) {w : List Piece} (hw : ∀ p ∈ w, p.tag? = none) : Paired n w := by
  induction w with
  | nil => exact .nil n
  | cons p w ih =>
    have hlater : Paired n w := ih fun q hq => hw q (List.mem_cons_of_mem p hq)
    cases p with
    | tag e => exact absurd (hw (.tag e) List.mem_cons_self) (Option.some_ne_none e)
    | text s => exact .text s hlater

/-- The first tag of pieces stands behind texts. -/
theorem tagsOf_eq_cons {w : List Piece} {e : TagEvent} {v : List TagEvent}
    (h : tagsOf w = e :: v) :
    ∃ u x, w = u ++ .tag e :: x ∧ (∀ n, Paired n u) ∧ tagsOf x = v := by
  obtain ⟨u, p, x, rfl, hu, hp, hx⟩ := List.filterMap_eq_cons_iff.1 h
  cases p with
  | tag d =>
    obtain rfl := Option.some.inj hp
    exact ⟨u, x, rfl, fun n => paired_texts n hu, hx⟩
  | text s => cases hp

theorem Paired.nestedWithin {n : Nat} {w : List Piece} (hw : Paired n w) :
    NestedWithin n (tagsOf w) := by
  induction hw with
  | nil n => exact .nil n
  | text s _ ih => exact ih
  | selfClosing t _ ih => exact .selfClosing t ih
  | @element n v w t _ _ ihv ihw =>
    have htags : tagsOf (.tag (.opening t) :: (v ++ .tag (.closing t) :: w)) =
        .opening t :: (tagsOf v ++ .closing t :: tagsOf w) := by
      simp [tagsOf, Piece.tag?]
    rw [htags]
    exact .element t ihv ihw

theorem NestedWithin.paired {n : Nat} {v : List TagEvent} {w : List Piece} (hv : NestedWithin n v)
    (hw : tagsOf w = v) : Paired n w := by
  induction hv generalizing w with
  | nil n => exact paired_texts n (List.filterMap_eq_nil_iff.1 hw)
  | selfClosing t _ ih =>
    obtain ⟨u, x, rfl, hu, hx⟩ := tagsOf_eq_cons hw
    exact (hu _).append (.selfClosing t (ih hx))
  | element t _ _ ihv ihw =>
    obtain ⟨u, x, rfl, hu, hx⟩ := tagsOf_eq_cons hw
    obtain ⟨v, y, rfl, hv, hy⟩ := List.filterMap_eq_append_iff.1 hx
    obtain ⟨u', x', rfl, hu', hx'⟩ := tagsOf_eq_cons hy
    have hinside : Paired _ (v ++ u') := (ihv hv).append (hu' _)
    have helement := Paired.element t hinside (ihw hx')
    rw [List.append_assoc] at helement
    exact (hu _).append helement

/-- Texts between tags change nothing about which of them pair. -/
theorem paired_iff {n : Nat} {w : List Piece} : Paired n w ↔ NestedWithin n (tagsOf w) :=
  ⟨Paired.nestedWithin, fun h => h.paired rfl⟩

/-! ## Open elements -/

section Surplus

variable {n m : Nat} {u v w x : List Piece} {s t : String}

theorem Paired.surplus_eq (hw : Paired n w) : surplus w = 0 := by
  induction hw with
  | nil => rfl
  | text s _ ih => simpa [Piece.opens] using ih
  | selfClosing t _ ih => simpa [Piece.opens] using ih
  | element t _ _ ihv ihw => simp [Piece.opens, ihv, ihw]

/-- Of tags that pair, no more are closed than were opened up to any place. -/
theorem Paired.surplus_nonneg (hw : Paired n w) (hsplit : w = u ++ x) : 0 ≤ surplus u := by
  induction hw generalizing u x with
  | nil =>
    obtain ⟨rfl, -⟩ := List.append_eq_nil_iff.1 hsplit.symm
    exact Int.le_refl 0
  | text s _ ih =>
    rcases List.cons_eq_append_iff.1 hsplit with ⟨rfl, -⟩ | ⟨u, rfl, hlater⟩
    · exact Int.le_refl 0
    · simpa [Piece.opens] using ih hlater
  | selfClosing t _ ih =>
    rcases List.cons_eq_append_iff.1 hsplit with ⟨rfl, -⟩ | ⟨u, rfl, hlater⟩
    · exact Int.le_refl 0
    · simpa [Piece.opens] using ih hlater
  | element t hv _ ihv ihw =>
    rcases List.cons_eq_append_iff.1 hsplit with ⟨rfl, -⟩ | ⟨u, rfl, hlater⟩
    · exact Int.le_refl 0
    · -- The place is in the element, directly in front of its closing tag, or behind it.
      rcases List.append_eq_append_iff.1 hlater with ⟨a, rfl, hbehind⟩ | ⟨a, hinside, -⟩
      · have hopen := hv.surplus_eq
        rcases List.cons_eq_append_iff.1 hbehind with ⟨rfl, -⟩ | ⟨a, rfl, hafter⟩
        · simp [Piece.opens, hopen]
        · have hrest := ihw hafter
          simp only [surplus_cons, surplus_append, Piece.opens]
          omega
      · have hrest := ihv hinside
        simp only [surplus_cons, Piece.opens]
        omega

/-- Tags that pair do not go on with a closing tag and pair again. -/
theorem Paired.not_closing (hv : Paired n v) : ¬ Paired m (v ++ .tag (.closing t) :: x) := by
  intro hw
  have hsplit : v ++ .tag (.closing t) :: x = (v ++ [.tag (.closing t)]) ++ x := by simp
  have hopen := hw.surplus_nonneg hsplit
  simp only [surplus_append, surplus_cons, surplus_nil, Piece.opens, hv.surplus_eq] at hopen
  omega

/-- An opening tag with tags behind it that pair is not closed. -/
theorem Paired.not_opening (hw : Paired n (u ++ .tag (.opening t) :: v)) : surplus v ≠ 0 := by
  intro hv
  have hopen := hw.surplus_nonneg rfl
  have hall := hw.surplus_eq
  simp only [surplus_append, surplus_cons, Piece.opens, hv] at hall
  omega

/-- Tags that pair are closed at the first closing tag behind them. -/
theorem Paired.closes_eq (hv : Paired n v) (hu : Paired m u)
    (h : v ++ .tag (.closing s) :: w = u ++ .tag (.closing t) :: x) : v = u ∧ s = t ∧ w = x := by
  rcases List.append_eq_append_iff.1 h with ⟨a, rfl, hbehind⟩ | ⟨a, rfl, hbehind⟩
  · rcases List.cons_eq_append_iff.1 hbehind with ⟨rfl, hsame⟩ | ⟨a, rfl, -⟩
    · cases hsame
      exact ⟨(List.append_nil v).symm, rfl, rfl⟩
    · exact absurd hu hv.not_closing
  · rcases List.cons_eq_append_iff.1 hbehind with ⟨rfl, hsame⟩ | ⟨a, rfl, -⟩
    · cases hsame
      exact ⟨List.append_nil u, rfl, rfl⟩
    · exact absurd hv hu.not_closing

/-- An element that is opened in tags that pair is closed in them. -/
theorem Paired.closes_within (hw : Paired n (u ++ .tag (.opening t) :: x)) (hv : Paired m v)
    {y z : List Piece} (h : v ++ .tag (.closing t) :: y = x ++ .tag (.closing s) :: z) :
    ∃ a, x = v ++ .tag (.closing t) :: a ∧ y = a ++ .tag (.closing s) :: z := by
  rcases List.append_eq_append_iff.1 h with ⟨a, rfl, hbehind⟩ | ⟨a, rfl, hbehind⟩
  · rcases List.cons_eq_append_iff.1 hbehind with ⟨rfl, -⟩ | ⟨a, rfl, hlater⟩
    · rw [List.append_nil] at hw
      exact absurd hv.surplus_eq hw.not_opening
    · exact ⟨a, rfl, hlater⟩
  · rcases List.cons_eq_append_iff.1 hbehind with ⟨rfl, -⟩ | ⟨a, rfl, -⟩
    · have hopen := hv.surplus_eq
      rw [List.append_nil] at hopen
      exact absurd hopen hw.not_opening
    · -- More would be closed in the element than were opened in it.
      have hsplit : x ++ .tag (.closing s) :: a = (x ++ [.tag (.closing s)]) ++ a := by simp
      have hinside := hv.surplus_nonneg hsplit
      have hfront := hw.surplus_nonneg rfl
      have hall := hw.surplus_eq
      simp only [surplus_append, surplus_cons, surplus_nil, Piece.opens] at hinside hall
      omega

end Surplus

/-! ## Elements among pieces -/

/-- An element among pieces: what stands in front of it, its name, what stands between its tags,
and what stands behind it. -/
structure InnerElement where
  front : List Piece
  tag : String
  inside : List Piece
  behind : List Piece
  nested : WellNested (tagsOf inside)

namespace InnerElement

/-- The pieces with the element among them. -/
def whole (n : InnerElement) : List Piece :=
  n.front ++ .tag (.opening n.tag) :: (n.inside ++ .tag (.closing n.tag) :: n.behind)

/-- The pieces without the closing tag of the element. -/
def withoutClosing (n : InnerElement) : List Piece :=
  n.front ++ .tag (.opening n.tag) :: (n.inside ++ n.behind)

/-- The first element is around the second one, among the same pieces. -/
def Encloses (m n : InnerElement) : Prop :=
  ∃ u x, n.front = m.front ++ .tag (.opening m.tag) :: u ∧
    n.behind = x ++ .tag (.closing m.tag) :: m.behind ∧
    m.inside = u ++ .tag (.opening n.tag) :: (n.inside ++ .tag (.closing n.tag) :: x)

/-- The same element, with the pieces that it is among between others. -/
def among (n : InnerElement) (u x : List Piece) : InnerElement :=
  { n with front := u ++ n.front, behind := n.behind ++ x }

/-- The same element, with the pieces that it is among in an element that is between others. -/
def within (n : InnerElement) (u : List Piece) (s : String) (x : List Piece) : InnerElement :=
  n.among (u ++ [.tag (.opening s)]) (.tag (.closing s) :: x)

variable {m n : InnerElement} {u x : List Piece} {s : String}

theorem Encloses.among (h : m.Encloses n) (u x : List Piece) :
    (m.among u x).Encloses (n.among u x) := by
  obtain ⟨v, y, hfront, hbehind, hinside⟩ := h
  refine ⟨v, y, ?_, ?_, hinside⟩
  · simp [InnerElement.among, hfront]
  · simp [InnerElement.among, hbehind]

@[simp] theorem tag_within (n : InnerElement) (u : List Piece) (s : String) (x : List Piece) :
    (n.within u s x).tag = n.tag := rfl

@[simp] theorem front_within (n : InnerElement) (u : List Piece) (s : String) (x : List Piece) :
    (n.within u s x).front = u ++ .tag (.opening s) :: n.front := by
  simp [within, among]

theorem whole_within (n : InnerElement) (u : List Piece) (s : String) (x : List Piece) :
    (n.within u s x).whole = u ++ .tag (.opening s) :: (n.whole ++ .tag (.closing s) :: x) := by
  simp [within, among, whole]

theorem withoutClosing_within (n : InnerElement) (u : List Piece) (s : String) (x : List Piece) :
    (n.within u s x).withoutClosing =
      u ++ .tag (.opening s) :: (n.withoutClosing ++ .tag (.closing s) :: x) := by
  simp [within, among, withoutClosing]

end InnerElement

/-- An element lies among tags that pair, or in an element that does. -/
inductive Lies : Nat → InnerElement → Prop where
  | here {k : Nat} {n : InnerElement} (hfront : Paired (k + 1) n.front)
      (hinside : Paired k n.inside) (hbehind : Paired (k + 1) n.behind) : Lies (k + 1) n
  | within {k : Nat} {n : InnerElement} {u x : List Piece} (s : String) (hu : Paired (k + 1) u)
      (hn : Lies k n) (hx : Paired (k + 1) x) : Lies (k + 1) (n.within u s x)

theorem Lies.append {k : Nat} {n : InnerElement} {u : List Piece} (hn : Lies k n)
    (hu : Paired k u) :
    Lies k (n.among u []) := by
  cases hn with
  | here hfront hinside hbehind =>
    refine .here (hu.append hfront) hinside ?_
    simpa [InnerElement.among] using hbehind
  | @within _ n u' x s hu' hn hx =>
    have hsame : (n.within u' s x).among u [] = n.within (u ++ u') s x := by
      simp [InnerElement.within, InnerElement.among]
    rw [hsame]
    exact .within s (hu.append hu') hn hx

/-- The pieces in which an element lies pair. -/
theorem Lies.paired {k : Nat} {n : InnerElement} (hn : Lies k n) : Paired k n.whole := by
  induction hn with
  | here hfront hinside hbehind => exact hfront.append (.element _ hinside hbehind)
  | within s hu _ hx ih =>
    rw [InnerElement.whole_within]
    exact hu.append (.element s ih hx)

/-- An element of tags that pair lies among them or in another one of them. -/
theorem Paired.lies {k : Nat} {n : InnerElement} (hw : Paired k n.whole) : Lies k n := by
  generalize hwhole : n.whole = w at hw
  induction hw generalizing n with
  | nil => exact absurd hwhole (by simp [InnerElement.whole])
  | @text k w s _ ih =>
    obtain ⟨front, t, inside, behind, hnested⟩ := n
    rcases List.append_eq_cons_iff.1 hwhole with ⟨-, hfirst⟩ | ⟨front, rfl, hlater⟩
    · cases hfirst
    · have hn := ih (n := ⟨front, t, inside, behind, hnested⟩) hlater.symm
      simpa [InnerElement.among] using hn.append (.text s (.nil _))
  | @selfClosing k w s _ ih =>
    obtain ⟨front, t, inside, behind, hnested⟩ := n
    rcases List.append_eq_cons_iff.1 hwhole with ⟨-, hfirst⟩ | ⟨front, rfl, hlater⟩
    · cases hfirst
    · have hn := ih (n := ⟨front, t, inside, behind, hnested⟩) hlater.symm
      simpa [InnerElement.among] using hn.append (.selfClosing s (.nil _))
  | @element k v w s hv hw ihv ihw =>
    obtain ⟨front, t, inside, behind, hnested⟩ := n
    obtain ⟨m, hm⟩ := id hnested
    have hinside : Paired m inside := hm.paired rfl
    change front ++ .tag (.opening t) :: (inside ++ .tag (.closing t) :: behind) = _ at hwhole
    rcases List.append_eq_cons_iff.1 hwhole with ⟨rfl, hfirst⟩ | ⟨front, rfl, hlater⟩
    · -- It is the first element itself.
      obtain ⟨hopening, hbehind⟩ := List.cons.inj hfirst
      cases hopening
      obtain ⟨rfl, -, rfl⟩ := hinside.closes_eq hv hbehind
      exact .here (.nil _) hv hw
    · rcases List.append_eq_append_iff.1 hlater with ⟨a, rfl, hbehind⟩ | ⟨a, rfl, hbehind⟩
      · -- It is behind the first element.
        rcases List.cons_eq_append_iff.1 hbehind with ⟨rfl, hfirst⟩ | ⟨a, rfl, hafter⟩
        · cases hfirst
        · have hn := ihw (n := ⟨a, t, inside, behind, hnested⟩) hafter.symm
          simpa [InnerElement.among] using hn.append (.element s hv (.nil _))
      · -- It is in the first element, since it is closed there.
        rcases List.cons_eq_append_iff.1 hbehind with ⟨rfl, hfirst⟩ | ⟨a, rfl, hafter⟩
        · cases hfirst
        · obtain ⟨b, rfl, rfl⟩ := hv.closes_within hinside hafter
          have hn := ihv (n := ⟨front, t, inside, b, hnested⟩) rfl
          simpa [InnerElement.within, InnerElement.among] using Lies.within s (.nil _) hn hw

end DesignCompiler.Markup
