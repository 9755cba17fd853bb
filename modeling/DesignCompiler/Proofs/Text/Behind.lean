import DesignCompiler.Proofs.Text.Patterns
import Mathlib.Data.List.Basic

/-!
# Matches behind another text

A pattern that does not ask for the start of the whole text sees of the text in front of it only
its last character, and that only to tell a line start and an edge of a word. So it matches behind
lines as it matches at the start of a text (`ways_onto`), and a search goes on behind them in the
same way (`matchesFrom_onto`). `allMatches_blankLines` puts blank lines in front of a text: they
are passed over by a pattern that matches at none of them.
-/

namespace DesignCompiler.Text

/-- The place with more text in front of it, nearest character first. -/
def Site.onto (earlier : List Char) (s : Site) : Site :=
  ⟨s.before ++ earlier, s.rest⟩

/-- The part with more text in front of it, nearest character first. -/
def Capture.onto {κ : Type} (earlier : List Char) (p : Capture κ) : Capture κ :=
  { p with before := p.before ++ earlier }

/-- The match with more text in front of it, nearest character first. -/
def Match.onto {κ : Type} (earlier : List Char) (m : Match κ) : Match κ :=
  ⟨m.stop.onto earlier, m.parts.map (Capture.onto earlier)⟩

namespace Pattern

variable {κ : Type} {p : Pattern κ} {earlier : List Char}

/-- Whether the pattern asks for the start of the whole text nowhere. -/
def isMovable : Pattern κ → Bool
  | .textStart => false
  | .nothing | .one _ | .run _ _ | .fewest _ _ | .lineStart | .textEnd | .wordEdge => true
  | .seq p q => p.isMovable && q.isMovable
  | .either p q => p.isMovable && q.isMovable
  | .part _ p => p.isMovable

theorem reach_onto (earlier : List Char) (accepts : Char → Bool) (before rest : List Char) :
    reach accepts (before ++ earlier) rest =
      (reach accepts before rest).map (Site.onto earlier) := by
  induction rest generalizing before with
  | nil => rfl
  | cons c rest ih =>
    rw [reach_cons, reach_cons, List.map_cons, ← List.cons_append, ih]
    split <;> rfl

/-- **A pattern matches behind lines as it matches at the start of a text.** -/
theorem ways_onto (hp : p.isMovable = true) (hearlier : ∀ c ∈ earlier.head?, c = '\n')
    (s : Site) :
    p.ways (s.onto earlier) = (p.ways s).map (Match.onto earlier) := by
  induction p generalizing s with
  | nothing => rfl
  | one accepts =>
    obtain ⟨before, rest⟩ := s
    cases rest with
    | nil => rfl
    | cons c rest =>
      rw [ways_one_cons]
      show (if accepts c then _ else _) = _
      split <;> rfl
  | run accepts n =>
    rw [ways_run, ways_run]
    show ((reach accepts (s.before ++ earlier) s.rest).drop n).reverse.map _ = _
    rw [reach_onto, ← List.map_drop, ← List.map_reverse, List.map_map, List.map_map]
    rfl
  | fewest accepts n =>
    rw [ways_fewest, ways_fewest]
    show ((reach accepts (s.before ++ earlier) s.rest).drop n).map _ = _
    rw [reach_onto, ← List.map_drop, List.map_map, List.map_map]
    rfl
  | seq p q ihp ihq =>
    obtain ⟨hp, hq⟩ := Bool.and_eq_true_iff.1 hp
    rw [ways_seq, ways_seq, ihp hp, List.flatMap_map, List.map_flatMap]
    refine List.flatMap_congr fun m _ => ?_
    show (q.ways (m.stop.onto earlier)).map _ = _
    rw [ihq hq, List.map_map, List.map_map]
    refine List.map_congr_left fun m' _ => ?_
    simp [Match.onto]
  | either p q ihp ihq =>
    obtain ⟨hp, hq⟩ := Bool.and_eq_true_iff.1 hp
    rw [ways_either, ways_either, ihp hp, ihq hq, List.map_append]
  | part key p ih =>
    rw [ways_part, ways_part, ih hp, List.map_map, List.map_map]
    rfl
  | lineStart =>
    obtain ⟨before, rest⟩ := s
    cases before with
    | cons c before =>
      show (if c == '\n' then _ else _) = (if c == '\n' then _ else _ : List (Match κ)).map _
      split <;> rfl
    | nil =>
      cases earlier with
      | nil => rfl
      | cons c earlier =>
        obtain rfl := hearlier c rfl
        rfl
  | textStart => cases hp
  | textEnd =>
    show (if s.rest.isEmpty then _ else _) =
      (if s.rest.isEmpty then _ else _ : List (Match κ)).map _
    split <;> rfl
  | wordEdge =>
    have hword : startsWithWord (s.before ++ earlier) = startsWithWord s.before := by
      cases s.before with
      | cons => rfl
      | nil =>
        cases earlier with
        | nil => rfl
        | cons c earlier =>
          obtain rfl := hearlier c rfl
          rfl
    show (if startsWithWord (s.before ++ earlier) != startsWithWord s.rest then _ else _) =
      (if startsWithWord s.before != startsWithWord s.rest then _ else _ : List (Match κ)).map _
    rw [hword]
    split <;> rfl

section Searches

variable (hp : p.isMovable = true) (hearlier : ∀ c ∈ earlier.head?, c = '\n')

include hp hearlier

theorem firstMatchFrom_onto (before rest : List Char) :
    p.firstMatchFrom (before ++ earlier) rest =
      (p.firstMatchFrom before rest).map (Match.onto earlier) := by
  have hways (before rest : List Char) :
      (p.ways ⟨before ++ earlier, rest⟩).head? =
        (p.ways ⟨before, rest⟩).head?.map (Match.onto earlier) := by
    rw [← List.head?_map, ← ways_onto hp hearlier]
    rfl
  induction rest generalizing before with
  | nil => exact hways before []
  | cons c rest ih =>
    rw [firstMatchFrom_cons, firstMatchFrom_cons, hways, ← List.cons_append, ih]
    cases (p.ways ⟨before, c :: rest⟩).head? <;> rfl

theorem matchesFrom_onto (s : Site) :
    p.matchesFrom (s.onto earlier) = (p.matchesFrom s).map (Match.onto earlier) := by
  have hstep (s : Site) : p.matchesFrom (s.onto earlier) =
      ((p.firstMatchFrom s.before s.rest).map (Match.onto earlier)).elim [] fun m =>
        if m.stop.rest.length < s.rest.length then m :: p.matchesFrom m.stop else [m] := by
    rw [← firstMatchFrom_onto hp hearlier, matchesFrom, Site.onto]
    cases p.firstMatchFrom (s.before ++ earlier) s.rest <;> rfl
  fun_induction matchesFrom p s with
  | case1 s hnone =>
    rw [hstep, hnone]
    rfl
  | case2 s m hsome hshorter ih =>
    rw [hstep, hsome, List.map_cons, ← ih]
    exact if_pos hshorter
  | case3 s m hsome hshorter =>
    rw [hstep, hsome]
    exact if_neg hshorter

end Searches

/-- Blank lines in front of a text are passed over by a pattern that matches at none of them. -/
theorem allMatches_blankLines (hp : p.isMovable = true) (hshortens : Shortens p)
    (hnone : ∀ before rest, p.ways ⟨before, '\n' :: rest⟩ = []) (k : Nat) (text : List Char) :
    p.allMatches (List.replicate k '\n' ++ text) =
      (p.allMatches text).map (Match.onto (List.replicate k '\n')) := by
  have hskip : p.firstMatchFrom [] (List.replicate k '\n' ++ text) =
      p.firstMatchFrom (List.replicate k '\n') text := by
    have hpassed : p.firstMatchFrom [] (List.replicate k '\n' ++ text) =
        p.firstMatchFrom ((List.replicate k '\n').reverse ++ []) text := by
      refine firstMatchFrom_skip fun u₁ u₂ hsplit hne => ?_
      obtain ⟨c, u₂, rfl⟩ := List.exists_cons_of_ne_nil hne
      have hc : c = '\n' :=
        List.eq_of_mem_replicate (hsplit ▸ List.mem_append_right u₁ List.mem_cons_self)
      rw [hc]
      exact hnone _ _
    rwa [List.reverse_replicate, List.append_nil] at hpassed
  have hhead : ∀ c ∈ (List.replicate k '\n').head?, c = '\n' := fun c hc =>
    List.eq_of_mem_replicate (List.mem_of_mem_head? hc)
  unfold allMatches
  rw [matchesFrom_congr hshortens hskip (by simp), ← matchesFrom_onto hp hhead]
  rfl

end Pattern

end DesignCompiler.Text
