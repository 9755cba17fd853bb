import DesignCompiler.Proofs.Text.Class
import DesignCompiler.Text.Pattern

/-!
# Preferred matches

What a pattern matches, said without the list of all its ways.

* `Admits p u` says that `p` can read `u` as far as the characters go, and `admits_of_mem_ways`
  that every way reads such a text. What no admitted text starts with has no way.
* `Prefers p before u rest parts` says that the preferred way of `p` at a place reads `u` and
  reports `parts`. There is one lemma for each constructor; a run reads as much as it can, and a
  reluctant run goes on only while what follows it has no way.
* `mem_matchesFrom` says that every match of a search is a way at some place behind the start of
  the search.
* `matchesFrom_of_prefers` and `firstMatchFrom_skip` take a search forward, over a match or over a
  text in which nothing matches.
* `Reports key p u` says that `p` can report `u` under a key, and `part_of_mem_ways` that the
  parts of a match are such texts and stand where they say.
* Patterns for lines match nowhere but at line starts. `AtLines P text` says that `P` holds at
  every line start, and `firstMatchFrom_eq_none_of_atLines` that a search finds nothing when there
  is no way at any of them.
-/

namespace DesignCompiler.Text

namespace Pattern

variable {κ : Type} {p q : Pattern κ} {before u v rest : List Char}
  {parts parts' : List (Capture κ)} {m : Match κ} {s : Site}

/-! ## Ways -/

section Equations

theorem ways_one_cons (accepts : Char → Bool) (c : Char) :
    (one accepts : Pattern κ).ways ⟨before, c :: rest⟩ =
      if accepts c then [⟨⟨c :: before, rest⟩, []⟩] else [] := rfl

theorem ways_run (accepts : Char → Bool) (n : Nat) :
    (run accepts n : Pattern κ).ways s =
      ((reach accepts s.before s.rest).drop n).reverse.map fun t => ⟨t, []⟩ := rfl

theorem ways_fewest (accepts : Char → Bool) (n : Nat) :
    (fewest accepts n : Pattern κ).ways s =
      ((reach accepts s.before s.rest).drop n).map fun t => ⟨t, []⟩ := rfl

theorem ways_seq :
    (seq p q).ways s = (p.ways s).flatMap
      fun m => (q.ways m.stop).map fun m' => ⟨m'.stop, m.parts ++ m'.parts⟩ := rfl

theorem ways_either : (either p q).ways s = p.ways s ++ q.ways s := rfl

theorem ways_part (key : κ) :
    (part key p).ways s = (p.ways s).map fun m =>
      ⟨m.stop, ⟨key, s.before, s.rest.take (s.rest.length - m.stop.rest.length)⟩ :: m.parts⟩ :=
  rfl

theorem reach_nil (accepts : Char → Bool) : reach accepts before [] = [⟨before, []⟩] := rfl

theorem reach_cons (accepts : Char → Bool) (c : Char) :
    reach accepts before (c :: rest) =
      ⟨before, c :: rest⟩ :: if accepts c then reach accepts (c :: before) rest else [] := rfl

theorem literalChars_cons_cons (c d : Char) (text : List Char) :
    (literalChars (c :: d :: text) : Pattern κ) = seq (one (· == c)) (literalChars (d :: text)) :=
  rfl

theorem firstMatchFrom_nil : p.firstMatchFrom before [] = (p.ways ⟨before, []⟩).head? := rfl

theorem firstMatchFrom_cons (c : Char) :
    p.firstMatchFrom before (c :: rest) =
      ((p.ways ⟨before, c :: rest⟩).head?).or (p.firstMatchFrom (c :: before) rest) := by
  rw [firstMatchFrom]
  cases (p.ways ⟨before, c :: rest⟩).head? <;> rfl

end Equations

theorem mem_ways_one {accepts : Char → Bool} (hm : m ∈ (one accepts : Pattern κ).ways s) :
    ∃ c, accepts c = true ∧ s.rest = c :: m.stop.rest ∧ m.stop.before = c :: s.before ∧
      m.parts = [] := by
  obtain ⟨before, rest⟩ := s
  cases rest with
  | nil => cases hm
  | cons c rest =>
    rw [ways_one_cons] at hm
    split at hm
    · rename_i hc
      rw [List.mem_singleton] at hm
      subst hm
      exact ⟨c, hc, rfl, rfl, rfl⟩
    · cases hm

theorem mem_ways_seq (hm : m ∈ (seq p q).ways s) :
    ∃ first ∈ p.ways s, ∃ second ∈ q.ways first.stop,
      m = ⟨second.stop, first.parts ++ second.parts⟩ := by
  rw [ways_seq] at hm
  obtain ⟨first, hfirst, hm⟩ := List.mem_flatMap.1 hm
  obtain ⟨second, hsecond, rfl⟩ := List.mem_map.1 hm
  exact ⟨first, hfirst, second, hsecond, rfl⟩

/-- The start of a line is that of the text or stands behind a line feed. -/
theorem head?_before_of_lineStart (hm : m ∈ (lineStart : Pattern κ).ways s) :
    ∀ c ∈ s.before.head?, c = '\n' := by
  obtain ⟨before, rest⟩ := s
  rintro c hc
  obtain ⟨earlier, rfl⟩ := List.head?_eq_some_iff.1 hc
  change m ∈ (if c == '\n' then [⟨⟨c :: earlier, rest⟩, []⟩] else []) at hm
  split at hm
  · rename_i hbreak
    exact beq_iff_eq.1 hbreak
  · cases hm

/-- A pattern that only looks at a place stays there. -/
theorem mem_ways_lineStart (hm : m ∈ (lineStart : Pattern κ).ways s) : m = ⟨s, []⟩ := by
  obtain ⟨before, rest⟩ := s
  cases before with
  | nil => exact List.mem_singleton.1 hm
  | cons c before =>
    change m ∈ (if c == '\n' then [⟨⟨c :: before, rest⟩, []⟩] else []) at hm
    split at hm
    · exact List.mem_singleton.1 hm
    · cases hm

theorem ways_seq_eq_nil (h : ∀ m ∈ p.ways s, q.ways m.stop = []) : (seq p q).ways s = [] := by
  rw [ways_seq, List.flatMap_eq_nil_iff]
  intro m hm
  rw [h m hm]
  rfl

theorem ways_seq_eq_nil_of_left (h : p.ways s = []) : (seq p q).ways s = [] := by
  rw [ways_seq, h]
  rfl

theorem ways_either_eq_nil (hp : p.ways s = []) (hq : q.ways s = []) :
    (either p q).ways s = [] := by
  rw [ways_either, hp, hq]
  rfl

theorem ways_part_eq_nil {key : κ} (h : p.ways s = []) : (part key p).ways s = [] := by
  rw [ways_part, h]
  rfl

/-- The places that a run of at least `n` characters can end at: behind a part of the run. -/
theorem mem_drop_reach {accepts : Char → Bool} {n : Nat} {t : Site}
    (ht : t ∈ (reach accepts before rest).drop n) :
    ∃ u, rest = u ++ t.rest ∧ t.before = u.reverse ++ before ∧ n ≤ u.length ∧
      ∀ c ∈ u, accepts c = true := by
  induction rest generalizing before n with
  | nil =>
    cases n with
    | zero =>
      rw [reach_nil, List.drop_zero, List.mem_singleton] at ht
      subst ht
      exact ⟨[], rfl, rfl, Nat.le_refl 0, by simp⟩
    | succ n => simp [reach_nil] at ht
  | cons c rest ih =>
    rw [reach_cons] at ht
    -- behind the first character the run has one character less to read
    have hlater (k : Nat)
        (ht : t ∈ (if accepts c then reach accepts (c :: before) rest else []).drop k) :
        ∃ u, c :: rest = u ++ t.rest ∧ t.before = u.reverse ++ before ∧ k + 1 ≤ u.length ∧
          ∀ d ∈ u, accepts d = true := by
      split at ht
      · rename_i hc
        obtain ⟨u, hrest, hbefore, hlength, hu⟩ := ih ht
        refine ⟨c :: u, by rw [hrest]; rfl, by rw [hbefore]; simp, Nat.succ_le_succ hlength, ?_⟩
        intro d hd
        rcases List.mem_cons.1 hd with rfl | hd
        · exact hc
        · exact hu d hd
      · simp at ht
    cases n with
    | zero =>
      rcases List.mem_cons.1 ht with rfl | ht
      · exact ⟨[], rfl, rfl, Nat.le_refl 0, by simp⟩
      · obtain ⟨u, hrest, hbefore, -, hu⟩ := hlater 0 ht
        exact ⟨u, hrest, hbefore, Nat.zero_le _, hu⟩
    | succ n => exact hlater n ht

/-- A run reads characters of its class and reports nothing. -/
theorem mem_ways_run {accepts : Char → Bool} {n : Nat}
    (hm : m ∈ (run accepts n : Pattern κ).ways s) :
    ∃ u, s.rest = u ++ m.stop.rest ∧ m.stop.before = u.reverse ++ s.before ∧ m.parts = [] ∧
      ∀ c ∈ u, accepts c = true := by
  rw [ways_run] at hm
  obtain ⟨t, ht, rfl⟩ := List.mem_map.1 hm
  obtain ⟨u, hrest, hbefore, -, hu⟩ := mem_drop_reach (List.mem_reverse.1 ht)
  exact ⟨u, hrest, hbefore, rfl, hu⟩

theorem reach_eq_singleton {accepts : Char → Bool} (hrest : ∀ c ∈ rest.head?, accepts c = false) :
    reach accepts before rest = [⟨before, rest⟩] := by
  cases rest with
  | nil => rfl
  | cons c rest => rw [reach_cons, if_neg (Bool.eq_false_iff.1 (hrest c rfl))]

/-- The texts that a pattern can read, apart from what it asks of the places around them. -/
def Admits : Pattern κ → List Char → Prop
  | .nothing, u | .lineStart, u | .textStart, u | .textEnd, u | .wordEdge, u => u = []
  | .one accepts, u => ∃ c, accepts c = true ∧ u = [c]
  | .run accepts n, u | .fewest accepts n, u => n ≤ u.length ∧ ∀ c ∈ u, accepts c = true
  | .seq p q, u => ∃ v w, u = v ++ w ∧ p.Admits v ∧ q.Admits w
  | .either p q, u => p.Admits u ∨ q.Admits u
  | .part _ p, u => p.Admits u

/-- A way reads a text that its pattern admits and ends behind it. -/
theorem admits_of_mem_ways {p : Pattern κ} {s : Site} {m : Match κ} (hm : m ∈ p.ways s) :
    ∃ u, s.rest = u ++ m.stop.rest ∧ m.stop.before = u.reverse ++ s.before ∧ p.Admits u := by
  -- the patterns that only look at a place have one way, which stays there
  have hstay {s : Site} {m : Match κ} {o : Bool}
      (hm : m ∈ if o then [(⟨s, []⟩ : Match κ)] else []) :
      ∃ u, s.rest = u ++ m.stop.rest ∧ m.stop.before = u.reverse ++ s.before ∧ u = [] := by
    split at hm
    · rw [List.mem_singleton] at hm
      subst hm
      exact ⟨[], rfl, rfl, rfl⟩
    · cases hm
  induction p generalizing s m with
  | nothing =>
    obtain rfl := List.mem_singleton.1 hm
    exact ⟨[], rfl, rfl, rfl⟩
  | one accepts =>
    obtain ⟨c, hc, hrest, hbefore, -⟩ := mem_ways_one hm
    exact ⟨[c], hrest, hbefore, c, hc, rfl⟩
  | run accepts n =>
    rw [ways_run] at hm
    obtain ⟨t, ht, rfl⟩ := List.mem_map.1 hm
    exact mem_drop_reach (List.mem_reverse.1 ht)
  | fewest accepts n =>
    rw [ways_fewest] at hm
    obtain ⟨t, ht, rfl⟩ := List.mem_map.1 hm
    exact mem_drop_reach ht
  | seq p q ihp ihq =>
    obtain ⟨first, hfirst, second, hsecond, rfl⟩ := mem_ways_seq hm
    obtain ⟨u, hrest, hbefore, hu⟩ := ihp hfirst
    obtain ⟨v, hrest', hbefore', hv⟩ := ihq hsecond
    exact ⟨u ++ v, by rw [hrest, hrest', List.append_assoc], by rw [hbefore', hbefore]; simp, u,
      v, rfl, hu, hv⟩
  | either p q ihp ihq =>
    rw [ways_either] at hm
    rcases List.mem_append.1 hm with hm | hm
    · obtain ⟨u, hrest, hbefore, hu⟩ := ihp hm
      exact ⟨u, hrest, hbefore, .inl hu⟩
    · obtain ⟨u, hrest, hbefore, hu⟩ := ihq hm
      exact ⟨u, hrest, hbefore, .inr hu⟩
  | part key p ih =>
    rw [ways_part] at hm
    obtain ⟨inner, hinner, rfl⟩ := List.mem_map.1 hm
    obtain ⟨u, hrest, hbefore, hu⟩ := ih hinner
    exact ⟨u, hrest, hbefore, hu⟩
  | lineStart =>
    rw [mem_ways_lineStart hm]
    exact ⟨[], rfl, rfl, rfl⟩
  | textStart | textEnd | wordEdge => exact hstay hm

/-- A way reads some of the text and ends behind it. -/
theorem reads_of_mem_ways (hm : m ∈ p.ways s) :
    ∃ u, s.rest = u ++ m.stop.rest ∧ m.stop.before = u.reverse ++ s.before := by
  obtain ⟨u, hrest, hbefore, -⟩ := admits_of_mem_ways hm
  exact ⟨u, hrest, hbefore⟩

/-- A pattern has no way in front of a text that does not start as it asks. -/
theorem ways_eq_nil_of_not_admits (h : ∀ u v, rest = u ++ v → ¬ p.Admits u) :
    p.ways ⟨before, rest⟩ = [] := by
  refine List.eq_nil_iff_forall_not_mem.2 fun m hm => ?_
  obtain ⟨u, hrest, -, hu⟩ := admits_of_mem_ways hm
  exact h u _ hrest hu

/-- A literal admits itself only. -/
theorem eq_of_admits_literalChars {text : List Char}
    (h : (literalChars text : Pattern κ).Admits u) : u = text := by
  induction text generalizing u with
  | nil => exact h
  | cons c text ih =>
    have hone {u : List Char} (h : (one (· == c) : Pattern κ).Admits u) : u = [c] := by
      obtain ⟨d, hd, rfl⟩ := h
      rw [beq_iff_eq.1 hd]
    cases text with
    | nil => exact hone h
    | cons d text =>
      obtain ⟨first, others, rfl, hfirst, hothers⟩ := h
      rw [hone hfirst, ih hothers]
      rfl

/-- Where a text does not start with the first character of a literal, the literal has no way. -/
theorem ways_literalChars_eq_nil {c : Char} {text : List Char} (h : s.rest.head? ≠ some c) :
    (literalChars (c :: text) : Pattern κ).ways s = [] := by
  have hone : (one (· == c) : Pattern κ).ways s = [] := by
    obtain ⟨before, rest⟩ := s
    cases rest with
    | nil => rfl
    | cons d rest =>
      have hd : d ≠ c := fun heq => h (heq ▸ rfl)
      rw [ways_one_cons, if_neg (by simpa using hd)]
  cases text with
  | nil => exact hone
  | cons d text => exact ways_seq_eq_nil_of_left hone

/-- Behind a run nothing can follow that starts with none of the run's characters and not like the
text behind it. -/
theorem ways_seq_run_eq_nil {accepts : Char → Bool} {n : Nat} (starts : Char → Prop)
    (hq : ∀ t : Site, (∀ c ∈ t.rest.head?, ¬ starts c) → q.ways t = [])
    (haccepts : ∀ c, accepts c = true → ¬ starts c)
    (h : ∀ c ∈ (rest.dropWhile accepts).head?, ¬ starts c) :
    (seq (run accepts n) q).ways ⟨before, rest⟩ = [] := by
  refine ways_seq_eq_nil fun m hm => hq m.stop fun c hhead => ?_
  rw [ways_run] at hm
  obtain ⟨t, ht, rfl⟩ := List.mem_map.1 hm
  obtain ⟨u, hrest, -, -, hu⟩ := mem_drop_reach (List.mem_reverse.1 ht)
  obtain ⟨more, hmore⟩ := List.head?_eq_some_iff.1 hhead
  simp only at hrest hmore
  by_cases hc : accepts c = true
  · exact haccepts c hc
  · refine h c ?_
    rw [hrest, hmore, List.dropWhile_append_of_pos hu, List.dropWhile_cons, if_neg hc]
    rfl

/-! ## Words -/

theorem ways_optional_eq_singleton (h : p.ways s = []) : (optional p).ways s = [⟨s, []⟩] := by
  rw [optional, ways_either, h]
  rfl

theorem mem_ways_optional (hm : m ∈ (optional p).ways s) : m ∈ p.ways s ∨ m = ⟨s, []⟩ := by
  rw [optional, ways_either] at hm
  exact (List.mem_append.1 hm).imp_right List.mem_singleton.1

/-- A run over a single character ends behind it or in front of it. -/
theorem mem_ways_run_singleton {accepts : Char → Bool} {c : Char} (hc : accepts c = true)
    (hrest : ∀ d ∈ rest.head?, accepts d = false)
    (hm : m ∈ (run accepts 1 : Pattern κ).ways ⟨before, c :: rest⟩) :
    m = ⟨⟨c :: before, rest⟩, []⟩ := by
  rw [ways_run, reach_cons, if_pos hc, reach_eq_singleton hrest] at hm
  exact List.mem_singleton.1 hm

/-- A literal reads itself and reports nothing. -/
theorem mem_ways_literalChars {text : List Char}
    (hm : m ∈ (literalChars text : Pattern κ).ways ⟨before, text ++ rest⟩) :
    m = ⟨⟨text.reverse ++ before, rest⟩, []⟩ := by
  induction text generalizing before m with
  | nil => exact List.mem_singleton.1 hm
  | cons c text ih =>
    cases text with
    | nil =>
      obtain ⟨d, -, hrest, hbefore, hparts⟩ := mem_ways_one hm
      obtain ⟨⟨behind, stop⟩, parts⟩ := m
      cases hrest
      simp only at hbefore hparts
      rw [hbefore, hparts]
      rfl
    | cons d text =>
      rw [literalChars_cons_cons] at hm
      obtain ⟨first, hfirst, second, hsecond, rfl⟩ := mem_ways_seq hm
      obtain ⟨e, -, hrest, hbefore, hparts⟩ := mem_ways_one hfirst
      obtain ⟨⟨behind, stop⟩, parts⟩ := first
      cases hrest
      simp only at hbefore hparts
      subst hbefore hparts
      rw [ih hsecond]
      simp

/-- A literal that is reported is a part with the literal as its text, at the place itself. -/
theorem mem_ways_part_literalChars {key : κ} {text : List Char}
    (hm : m ∈ (part key (literalChars text)).ways s) :
    s.rest = text ++ m.stop.rest ∧ m.parts = [⟨key, s.before, text⟩] := by
  rw [ways_part] at hm
  obtain ⟨inner, hinner, rfl⟩ := List.mem_map.1 hm
  obtain ⟨u, hrest, -, hu⟩ := admits_of_mem_ways hinner
  obtain rfl := eq_of_admits_literalChars hu
  obtain ⟨before, rest⟩ := s
  obtain rfl : rest = u ++ inner.stop.rest := hrest
  have hparts : inner.parts = [] := by rw [mem_ways_literalChars hinner]
  simp [hparts]

/-- The pattern never matches the empty text. -/
def Shortens (p : Pattern κ) : Prop :=
  ∀ s, ∀ m ∈ p.ways s, m.stop.rest.length < s.rest.length

theorem shortens_one (accepts : Char → Bool) : Shortens (one accepts : Pattern κ) := by
  intro s m hm
  obtain ⟨c, -, hrest, -⟩ := mem_ways_one hm
  rw [hrest, List.length_cons]
  omega

theorem length_stop_le (hm : m ∈ p.ways s) : m.stop.rest.length ≤ s.rest.length := by
  obtain ⟨u, hrest, -⟩ := reads_of_mem_ways hm
  rw [hrest, List.length_append]
  omega

theorem Shortens.seq_left (hp : Shortens p) : Shortens (seq p q) := by
  intro s m hm
  obtain ⟨first, hfirst, second, hsecond, rfl⟩ := mem_ways_seq hm
  have hshorter := hp s first hfirst
  have hle := length_stop_le hsecond
  simp only
  omega

theorem Shortens.seq_right (hq : Shortens q) : Shortens (seq p q) := by
  intro s m hm
  obtain ⟨first, hfirst, second, hsecond, rfl⟩ := mem_ways_seq hm
  have hle := length_stop_le hfirst
  have hshorter := hq first.stop second hsecond
  simp only
  omega

theorem Shortens.either (hp : Shortens p) (hq : Shortens q) : Shortens (either p q) := by
  intro s m hm
  rw [ways_either] at hm
  rcases List.mem_append.1 hm with hm | hm
  · exact hp s m hm
  · exact hq s m hm

theorem Shortens.part (hp : Shortens p) (key : κ) : Shortens (part key p) := by
  intro s m hm
  rw [ways_part] at hm
  obtain ⟨inner, hinner, rfl⟩ := List.mem_map.1 hm
  exact hp s inner hinner

/-! ## Preferred ways -/

/-- The preferred way of a pattern at a place reads `u`, leaves `rest`, and reports the given
parts. -/
def Prefers (p : Pattern κ) (before u rest : List Char) (parts : List (Capture κ)) : Prop :=
  (p.ways ⟨before, u ++ rest⟩).head? = some ⟨⟨u.reverse ++ before, rest⟩, parts⟩

theorem prefers_nothing : Prefers (nothing : Pattern κ) before [] rest [] := rfl

theorem prefers_one {accepts : Char → Bool} {c : Char} (hc : accepts c = true) :
    Prefers (one accepts : Pattern κ) before [c] rest [] := by
  unfold Prefers
  rw [List.singleton_append, ways_one_cons, if_pos hc]
  rfl

theorem prefers_lineStart (h : before.head? = none ∨ before.head? = some '\n') :
    Prefers (lineStart : Pattern κ) before [] rest [] := by
  cases before with
  | nil => rfl
  | cons c before =>
    obtain rfl : c = '\n' := by simpa using h
    rfl

theorem prefers_seq (hp : Prefers p before u (v ++ rest) parts)
    (hq : Prefers q (u.reverse ++ before) v rest parts') :
    Prefers (seq p q) before (u ++ v) rest (parts ++ parts') := by
  unfold Prefers at hp hq ⊢
  rw [ways_seq, List.append_assoc]
  obtain ⟨more, hmore⟩ := List.head?_eq_some_iff.1 hp
  obtain ⟨more', hmore'⟩ := List.head?_eq_some_iff.1 hq
  rw [hmore, List.flatMap_cons, hmore']
  simp

theorem prefers_part {key : κ} (hp : Prefers p before u rest parts) :
    Prefers (part key p) before u rest (⟨key, before, u⟩ :: parts) := by
  unfold Prefers at hp ⊢
  rw [ways_part, List.head?_map, hp]
  simp

theorem prefers_left (hp : Prefers p before u rest parts) :
    Prefers (either p q) before u rest parts := by
  unfold Prefers at hp ⊢
  obtain ⟨more, hmore⟩ := List.head?_eq_some_iff.1 hp
  rw [ways_either, hmore]
  rfl

theorem prefers_right (hp : p.ways ⟨before, u ++ rest⟩ = [])
    (hq : Prefers q before u rest parts) :
    Prefers (either p q) before u rest parts := by
  unfold Prefers at hq ⊢
  rw [ways_either, hp, List.nil_append, hq]

theorem prefers_literal {s : List Char} :
    Prefers (literalChars s : Pattern κ) before s rest [] := by
  induction s generalizing before with
  | nil => exact prefers_nothing
  | cons c s ih =>
    cases s with
    | nil => exact prefers_one (by simp)
    | cons d s => exact prefers_seq (prefers_one (by simp)) ih

/-- The places of a run and then of what follows it. -/
theorem reach_append {accepts : Char → Bool} (before rest : List Char)
    (hu : ∀ c ∈ u, accepts c = true) :
    ∃ early, reach accepts before (u ++ rest) =
      early ++ reach accepts (u.reverse ++ before) rest ∧
      early.length = u.length ∧
      ∀ t ∈ early, ∃ v w, u = v ++ w ∧ w ≠ [] ∧ t = ⟨v.reverse ++ before, w ++ rest⟩ := by
  induction u generalizing before with
  | nil => exact ⟨[], rfl, rfl, by simp⟩
  | cons c u ih =>
    obtain ⟨early, hreach, hlength, hearly⟩ :=
      ih (c :: before) fun d hd => hu d (List.mem_cons_of_mem c hd)
    refine ⟨⟨before, c :: u ++ rest⟩ :: early, ?_,
      by rw [List.length_cons, hlength, List.length_cons], ?_⟩
    · rw [List.cons_append, reach_cons, if_pos (hu c List.mem_cons_self), hreach]
      simp
    · intro t ht
      rcases List.mem_cons.1 ht with rfl | ht
      · exact ⟨[], c :: u, rfl, List.cons_ne_nil c u, rfl⟩
      · obtain ⟨v, w, rfl, hw, rfl⟩ := hearly t ht
        exact ⟨c :: v, w, rfl, hw, by simp⟩

/-- A run reads all that it accepts. -/
theorem prefers_run {accepts : Char → Bool} {n : Nat} (hu : ∀ c ∈ u, accepts c = true)
    (hn : n ≤ u.length) (hrest : ∀ c ∈ rest.head?, accepts c = false) :
    Prefers (run accepts n : Pattern κ) before u rest [] := by
  obtain ⟨early, hreach, hlength, -⟩ := reach_append before rest hu
  have hlast : n ≤ early.length := by omega
  unfold Prefers
  rw [ways_run, hreach, reach_eq_singleton hrest, List.drop_append_of_le_length hlast,
    List.reverse_append]
  rfl

/-- A reluctant run goes on as long as what follows it has no way. -/
theorem prefers_fewest {accepts : Char → Bool} (key : κ) (before : List Char)
    (hu : ∀ c ∈ u, accepts c = true)
    (hearly : ∀ u₁ u₂, u = u₁ ++ u₂ → u₂ ≠ [] →
      q.ways ⟨u₁.reverse ++ before, u₂ ++ (v ++ rest)⟩ = [])
    (hq : Prefers q (u.reverse ++ before) v rest parts) :
    Prefers (seq (part key (fewest accepts 0)) q) before (u ++ v) rest
      (⟨key, before, u⟩ :: parts) := by
  obtain ⟨early, hreach, -, hsites⟩ := reach_append before (v ++ rest) hu
  obtain ⟨more, hmore⟩ := List.head?_eq_some_iff.1 hq
  have hlast : ∃ sites, reach accepts (u.reverse ++ before) (v ++ rest) =
      ⟨u.reverse ++ before, v ++ rest⟩ :: sites := by
    cases v ++ rest with
    | nil => exact ⟨[], rfl⟩
    | cons c rest => exact ⟨_, rfl⟩
  obtain ⟨sites, hlast⟩ := hlast
  unfold Prefers
  rw [List.append_assoc, ways_seq, ways_part, ways_fewest, List.drop_zero, hreach, hlast,
    List.map_append, List.map_append, List.flatMap_append, List.map_map, List.flatMap_map]
  have hnone : early.flatMap (fun t => (q.ways t).map fun m' =>
      (⟨m'.stop,
        [⟨key, before, (u ++ (v ++ rest)).take ((u ++ (v ++ rest)).length - t.rest.length)⟩] ++
          m'.parts⟩ :
        Match κ)) = [] := by
    rw [List.flatMap_eq_nil_iff]
    intro t ht
    obtain ⟨v, w, hsplit, hw, rfl⟩ := hsites t ht
    rw [hearly v w hsplit hw]
    rfl
  simp only [Function.comp_apply, hnone, List.nil_append, List.map_cons, List.flatMap_cons, hmore]
  simp

/-! ## Searches -/

theorem firstMatchFrom_of_prefers (h : Prefers p before u rest parts) :
    p.firstMatchFrom before (u ++ rest) = some ⟨⟨u.reverse ++ before, rest⟩, parts⟩ := by
  unfold Prefers at h
  cases htext : u ++ rest with
  | nil =>
    rw [htext] at h
    rw [firstMatchFrom_nil, h]
  | cons c text =>
    rw [htext] at h
    rw [firstMatchFrom_cons, h]
    rfl

/-- A match that reads something is found, and the search goes on behind it. -/
theorem matchesFrom_of_prefers (h : Prefers p before u rest parts) (hu : u ≠ []) :
    p.matchesFrom ⟨before, u ++ rest⟩ =
      ⟨⟨u.reverse ++ before, rest⟩, parts⟩ :: p.matchesFrom ⟨u.reverse ++ before, rest⟩ := by
  have hlength : 0 < u.length := List.length_pos_iff.2 hu
  have hshorter : rest.length < (u ++ rest).length := by
    rw [List.length_append]
    omega
  rw [matchesFrom, firstMatchFrom_of_prefers h]
  simp only [hshorter, if_true]

/-- A search passes over a text in which there is no way at any place. -/
theorem firstMatchFrom_skip
    (h : ∀ u₁ u₂, u = u₁ ++ u₂ → u₂ ≠ [] → p.ways ⟨u₁.reverse ++ before, u₂ ++ rest⟩ = []) :
    p.firstMatchFrom before (u ++ rest) = p.firstMatchFrom (u.reverse ++ before) rest := by
  induction u generalizing before with
  | nil => rfl
  | cons c u ih =>
    have hhere := h [] (c :: u) rfl (List.cons_ne_nil c u)
    rw [List.reverse_nil, List.nil_append, List.cons_append] at hhere
    rw [List.cons_append, firstMatchFrom_cons, hhere, List.head?_nil, Option.none_or, ih]
    · simp
    · intro u₁ u₂ hsplit hne
      have hlater := h (c :: u₁) u₂ (by rw [hsplit]; rfl) hne
      simpa using hlater

/-- The first of all matches is the one that a search for one finds. -/
theorem head?_matchesFrom (s : Site) :
    (p.matchesFrom s).head? = p.firstMatchFrom s.before s.rest := by
  rw [matchesFrom]
  cases p.firstMatchFrom s.before s.rest with
  | none => rfl
  | some m =>
    simp only
    split <;> rfl

theorem matchesFrom_eq_nil (h : p.firstMatchFrom before rest = none) :
    p.matchesFrom ⟨before, rest⟩ = [] := by
  rw [matchesFrom, h]

theorem mem_firstMatchFrom (h : p.firstMatchFrom before rest = some m) :
    ∃ u v, rest = u ++ v ∧ m ∈ p.ways ⟨u.reverse ++ before, v⟩ := by
  induction rest generalizing before with
  | nil =>
    rw [firstMatchFrom_nil] at h
    exact ⟨[], [], rfl, List.mem_of_mem_head? h⟩
  | cons c rest ih =>
    rw [firstMatchFrom_cons] at h
    rcases Option.or_eq_some_iff.1 h with hhead | ⟨-, h⟩
    · exact ⟨[], c :: rest, rfl, List.mem_of_mem_head? hhead⟩
    · obtain ⟨u, v, rfl, hm⟩ := ih h
      exact ⟨c :: u, v, rfl, by simpa using hm⟩

theorem Shortens.firstMatchFrom (hp : Shortens p) (h : p.firstMatchFrom before rest = some m) :
    m.stop.rest.length < rest.length := by
  obtain ⟨u, v, rfl, hm⟩ := mem_firstMatchFrom h
  have hshorter := hp _ m hm
  simp only at hshorter
  rw [List.length_append]
  omega

theorem firstMatchFrom_eq_none (h : ∀ u v, rest = u ++ v → p.ways ⟨u.reverse ++ before, v⟩ = []) :
    p.firstMatchFrom before rest = none := by
  cases hfirst : p.firstMatchFrom before rest with
  | none => rfl
  | some m =>
    obtain ⟨u, v, hsplit, hm⟩ := mem_firstMatchFrom hfirst
    rw [h u v hsplit] at hm
    cases hm

/-- Where two searches find the same first match, they find the same matches. -/
theorem matchesFrom_congr (hp : Shortens p) {before' rest' : List Char}
    (h : p.firstMatchFrom before rest = p.firstMatchFrom before' rest')
    (hlength : rest'.length ≤ rest.length) :
    p.matchesFrom ⟨before, rest⟩ = p.matchesFrom ⟨before', rest'⟩ := by
  rw [matchesFrom, matchesFrom.eq_def p ⟨before', rest'⟩, h]
  cases hfirst : p.firstMatchFrom before' rest' with
  | none => rfl
  | some m =>
    have hshorter := hp.firstMatchFrom hfirst
    simp only
    rw [if_pos hshorter, if_pos (by omega)]

/-- Every match of a search is a way at some place behind its start. -/
theorem mem_matchesFrom {s : Site} (hm : m ∈ p.matchesFrom s) :
    ∃ u v, s.rest = u ++ v ∧ m ∈ p.ways ⟨u.reverse ++ s.before, v⟩ := by
  fun_induction matchesFrom p s with
  | case1 => cases hm
  | case2 s first hfirst hshorter ih =>
    obtain ⟨u, v, hsplit, hway⟩ := mem_firstMatchFrom hfirst
    rcases List.mem_cons.1 hm with rfl | hm
    · exact ⟨u, v, hsplit, hway⟩
    · obtain ⟨u', v', hsplit', hway'⟩ := ih hm
      obtain ⟨w, hrest, hbefore⟩ := reads_of_mem_ways hway
      simp only at hrest hbefore
      refine ⟨u ++ (w ++ u'), v', ?_, ?_⟩
      · rw [hsplit, hrest, hsplit']
        simp
      · rw [hbefore] at hway'
        simpa using hway'
  | case3 s first hfirst hshorter =>
    rw [List.mem_singleton] at hm
    subst hm
    exact mem_firstMatchFrom hfirst

/-! ## Reported parts -/

/-- The texts that a pattern can report under a key. -/
def Reports (key : κ) : Pattern κ → List Char → Prop
  | .part key' p, u => (key' = key ∧ p.Admits u) ∨ p.Reports key u
  | .seq p q, u | .either p q, u => p.Reports key u ∨ q.Reports key u
  | .nothing, _ | .one _, _ | .run _ _, _ | .fewest _ _, _ | .lineStart, _ | .textStart, _
  | .textEnd, _ | .wordEdge, _ => False

/-- A literal reports nothing. -/
theorem not_reports_literalChars (key : κ) (text : List Char) :
    ¬ (literalChars text : Pattern κ).Reports key u := by
  induction text with
  | nil => exact id
  | cons c text ih =>
    cases text with
    | nil => exact id
    | cons d text => exact fun h => h.elim id ih

/-- A part that a way reports is a text that its pattern can report, where the part says that it
stands, and the way ends behind it. -/
theorem part_of_mem_ways {p : Pattern κ} {s : Site} {m : Match κ} (hm : m ∈ p.ways s)
    {part : Capture κ} (hpart : part ∈ m.parts) :
    p.Reports part.key part.text ∧
      ∃ u v, s.rest = u ++ (part.text ++ (v ++ m.stop.rest)) ∧
        part.before = u.reverse ++ s.before := by
  -- the patterns without parts report nothing
  have hnone {m : Match κ} {ms : List (Match κ)} (hms : ∀ m ∈ ms, m.parts = []) (hm : m ∈ ms) :
      part ∉ m.parts := by
    rw [hms m hm]
    exact List.not_mem_nil
  have hplain (sites : List Site) :
      ∀ m ∈ sites.map fun t => (⟨t, []⟩ : Match κ), m.parts = [] := by
    intro m hm
    obtain ⟨t, -, rfl⟩ := List.mem_map.1 hm
    rfl
  have hstay (s : Site) (o : Bool) :
      ∀ m ∈ if o then [(⟨s, []⟩ : Match κ)] else [], m.parts = [] := by
    cases o with
    | false => exact List.forall_mem_nil _
    | true => exact List.forall_mem_singleton.2 rfl
  induction p generalizing s m with
  | nothing => exact absurd hpart (hnone (List.forall_mem_singleton.2 rfl) hm)
  | one accepts =>
    obtain ⟨c, -, -, -, hparts⟩ := mem_ways_one hm
    rw [hparts] at hpart
    cases hpart
  | run accepts n =>
    rw [ways_run] at hm
    exact absurd hpart (hnone (hplain _) hm)
  | fewest accepts n =>
    rw [ways_fewest] at hm
    exact absurd hpart (hnone (hplain _) hm)
  | seq p q ihp ihq =>
    obtain ⟨first, hfirst, second, hsecond, rfl⟩ := mem_ways_seq hm
    rcases List.mem_append.1 hpart with hpart | hpart
    · obtain ⟨hreports, u, v, hrest, hbefore⟩ := ihp hfirst hpart
      obtain ⟨w, hrest', -⟩ := reads_of_mem_ways hsecond
      exact ⟨.inl hreports, u, v ++ w, by rw [hrest, hrest', List.append_assoc], hbefore⟩
    · obtain ⟨hreports, u, v, hrest, hbefore⟩ := ihq hsecond hpart
      obtain ⟨w, hrest', hbefore'⟩ := reads_of_mem_ways hfirst
      exact ⟨.inr hreports, w ++ u, v, by rw [hrest', hrest, List.append_assoc],
        by rw [hbefore, hbefore']; simp⟩
  | either p q ihp ihq =>
    rw [ways_either] at hm
    rcases List.mem_append.1 hm with hm | hm
    · exact (ihp hm hpart).imp_left .inl
    · exact (ihq hm hpart).imp_left .inr
  | part key p ih =>
    rw [ways_part] at hm
    obtain ⟨inner, hinner, rfl⟩ := List.mem_map.1 hm
    rcases List.mem_cons.1 hpart with rfl | hpart
    · obtain ⟨u, hrest, -, hu⟩ := admits_of_mem_ways hinner
      have htext : s.rest.take (s.rest.length - inner.stop.rest.length) = u := by
        rw [hrest, List.length_append, Nat.add_sub_cancel, List.take_left]
      rw [htext]
      exact ⟨.inl ⟨rfl, hu⟩, [], [], hrest, rfl⟩
    · exact (ih hinner hpart).imp_left .inr
  | lineStart =>
    rw [mem_ways_lineStart hm] at hpart
    cases hpart
  | textStart | textEnd | wordEdge => exact absurd hpart (hnone (hstay _ _) hm)

/-! ## Lines -/

/-- The pattern matches nowhere but at line starts. -/
def AtLineStart (p : Pattern κ) : Prop :=
  ∀ s c b, s.before = c :: b → c ≠ '\n' → p.ways s = []

theorem atLineStart_lineStart : AtLineStart (lineStart : Pattern κ) := by
  intro s c b hs hc
  obtain ⟨before, rest⟩ := s
  obtain rfl : before = c :: b := hs
  show (if c == '\n' then [(⟨⟨c :: b, rest⟩, []⟩ : Match κ)] else []) = []
  rw [if_neg (by simpa using hc)]

theorem AtLineStart.seq (hp : AtLineStart p) : AtLineStart (seq p q) :=
  fun s c b hs hc => ways_seq_eq_nil_of_left (hp s c b hs hc)

/-- The condition holds of the text behind every line start. -/
def AtLines (P : List Char → Prop) (text : List Char) : Prop :=
  P text ∧ ∀ u v, text = u ++ '\n' :: v → P v

theorem AtLines.mono {P Q : List Char → Prop} {text : List Char} (h : AtLines P text)
    (himp : ∀ v, P v → Q v) :
    AtLines Q text :=
  ⟨himp text h.1, fun u v hsplit => himp v (h.2 u v hsplit)⟩

theorem atLines_oneLine {P : List Char → Prop} {text : List Char} (htext : '\n' ∉ text)
    (h : P text) :
    AtLines P text := by
  refine ⟨h, fun u v hsplit => ?_⟩
  rw [hsplit] at htext
  simp at htext

theorem atLines_nil {P : List Char → Prop} (h : P []) : AtLines P [] :=
  atLines_oneLine List.not_mem_nil h

/-- A line and what follows it. -/
theorem atLines_line {P : List Char → Prop} (line : List Char) (hline : '\n' ∉ line)
    (h : P (line ++ '\n' :: rest)) (hrest : AtLines P rest) :
    AtLines P (line ++ '\n' :: rest) := by
  refine ⟨h, fun u v hsplit => ?_⟩
  rcases List.append_eq_append_iff.1 hsplit with ⟨w, rfl, hw⟩ | ⟨w, rfl, hw⟩
  · cases w with
    | nil =>
      cases hw
      exact hrest.1
    | cons c w =>
      cases hw
      exact hrest.2 w v rfl
  · cases w with
    | nil =>
      cases hw
      exact hrest.1
    | cons c w =>
      cases hw
      exact absurd (List.mem_append_right u List.mem_cons_self) hline

section Searches

variable (hp : AtLineStart p)

include hp

/-- A search passes over a part of a line at whose start there is no way; the part may end with
the line. -/
theorem firstMatchFrom_within (u : List Char) (hu : '\n' ∉ u.dropLast)
    (h : p.ways ⟨before, u ++ rest⟩ = []) :
    p.firstMatchFrom before (u ++ rest) = p.firstMatchFrom (u.reverse ++ before) rest := by
  refine firstMatchFrom_skip fun u₁ u₂ hsplit hne => ?_
  rcases List.eq_nil_or_concat u₁ with rfl | ⟨v, c, rfl⟩
  · rw [List.nil_append] at hsplit
    rw [← hsplit]
    simpa using h
  · refine hp _ c (v.reverse ++ before) (by simp) ?_
    rintro rfl
    rw [hsplit, List.dropLast_append_of_ne_nil hne] at hu
    simp at hu

theorem firstMatchFrom_eq_none_of_atLines (h : AtLines (fun v => ∀ b, p.ways ⟨b, v⟩ = []) rest) :
    p.firstMatchFrom before rest = none := by
  refine firstMatchFrom_eq_none fun u v hsplit => ?_
  rcases List.eq_nil_or_concat u with rfl | ⟨u, c, rfl⟩
  · rw [List.nil_append] at hsplit
    exact hsplit ▸ h.1 _
  · by_cases hc : c = '\n'
    · subst hc
      exact h.2 u v (by rw [hsplit]; simp) _
    · exact hp _ c (u.reverse ++ before) (by simp) hc

/-- What holds of the ways at all line starts holds of all matches. -/
theorem of_mem_allMatches {Q : Match κ → Prop} {text : List Char}
    (h : AtLines (fun v => ∀ b, ∀ m ∈ p.ways ⟨b, v⟩, Q m) text) :
    ∀ m ∈ p.allMatches text, Q m := by
  intro m hm
  obtain ⟨u, v, hsplit, hway⟩ := mem_matchesFrom hm
  simp only at hsplit
  rcases List.eq_nil_or_concat u with rfl | ⟨u, c, rfl⟩
  · rw [List.nil_append] at hsplit
    subst hsplit
    exact h.1 _ m hway
  · by_cases hc : c = '\n'
    · subst hc
      exact h.2 u v (by rw [hsplit]; simp) _ m hway
    · rw [hp _ c (u.reverse ++ []) (by simp) hc] at hway
      cases hway

end Searches

end Pattern

end DesignCompiler.Text
