import Mathlib.Data.List.Nodup
import DesignCompiler.Catalog.Traffic
import DesignCompiler.Proofs.Catalog.Lookups
import DesignCompiler.Proofs.KeyMap

/-!
# The cache under look-ups at the same time

What one step of a look-up does to the cache and to the look-up itself, and from it what any turns
do, in whatever order the callers take them and whatever the source says each time:

* `Traffic.cached?_run`: in the cache is what was in it before, else what was stored first. So
  nothing is replaced.
* `Traffic.cachedCount_run` counts the names for which something was stored.
* `Traffic.exists_lookup_run`: a look-up comes a step nearer to its answer with every turn of its
  caller, and it does not lose an entry that it built.
* `Traffic.Settled` is the invariant of the answers while the source stays the same,
  `Traffic.Truthful` while it may change.
* `Traffic.converges_start` puts together what holds for any callers of a new index.
-/

namespace DesignCompiler.Catalog

/-! ## The cache -/

namespace Index

variable {i : Index} {name : String} {entry : Entry}

/-- A stored entry is found unless there was one before. -/
theorem cached?_store (i : Index) (name : String) (entry : Entry) (other : String) :
    (i.store name entry).cached? other = (i.cached? other).or ([(name, entry)].lookup other) := by
  unfold store
  cases hname : i.cached? name with
  | some found =>
    by_cases hother : other = name
    · rw [hother, hname, Option.some_or]
    · have hnone : [(name, entry)].lookup other = none := by
        rw [List.lookup_cons, beq_false_of_ne hother]
        rfl
      rw [hnone, Option.or_none]
  | none =>
    show List.lookup other ([(name, entry)] ++ i.cache) = _
    rw [List.lookup_append]
    by_cases hother : other = name
    · rw [hother, List.lookup_cons_self, hname]
      rfl
    · have hnone : [(name, entry)].lookup other = none := by
        rw [List.lookup_cons, beq_false_of_ne hother]
        rfl
      rw [hnone, Option.none_or, Option.or_none]
      rfl

theorem isSome_cached?_store (i : Index) (name : String) (entry : Entry) :
    ((i.store name entry).cached? name).isSome = true := by
  rw [cached?_store, List.lookup_cons_self, Option.isSome_or]
  exact Bool.or_true _

/-- No name is in the cache twice. -/
def Distinct (i : Index) : Prop :=
  (i.cache.map (·.1)).Nodup

theorem distinct_ofSource (source : Source) : (ofSource source).Distinct :=
  List.nodup_nil

theorem Distinct.store (h : i.Distinct) (name : String) (entry : Entry) :
    (i.store name entry).Distinct := by
  unfold Index.store
  cases hname : i.cached? name with
  | some _ => exact h
  | none =>
    refine List.nodup_cons.2 ⟨?_, h⟩
    intro hmem
    have hsome : (i.cached? name).isSome = true := KeyMap.isSome_lookup_iff.2 hmem
    rw [hname] at hsome
    cases hsome

end Index

/-! ## One step -/

namespace Lookup

/-- The name that is looked up. -/
def name : Lookup → String
  | asked name | missed name | built name _ | answered name _ => name

/-- The number of steps that are still to be taken, at the most. -/
def remaining : Lookup → Nat
  | asked _ => 3
  | missed _ => 2
  | built .. => 1
  | answered .. => 0

/-- Whether the look-up has an entry, to be stored or as its answer. -/
def hasEntry : Lookup → Bool
  | asked _ | missed _ => false
  | built .. => true
  | answered _ result => result.isSome

section Step

variable (now : Source) (i : Index) (l : Lookup)

theorem name_step : (l.step now i).2.name = l.name := by
  cases l with
  | asked name =>
    simp only [step]
    cases i.cached? name <;> rfl
  | missed name =>
    simp only [step]
    cases now.entry? name <;> rfl
  | built => rfl
  | answered => rfl

theorem remaining_step : (l.step now i).2.remaining ≤ l.remaining - 1 := by
  cases l with
  | asked name =>
    simp only [step]
    cases i.cached? name <;> simp [remaining]
  | missed name =>
    simp only [step]
    cases now.entry? name <;> simp [remaining]
  | built => exact Nat.le_refl 0
  | answered => exact Nat.le_refl 0

theorem hasEntry_step (h : l.hasEntry = true) : (l.step now i).2.hasEntry = true := by
  cases l with
  | asked | missed => cases h
  | built name entry => exact Index.isSome_cached?_store i name entry
  | answered => exact h

/-- A step brings to the cache what it stores. -/
theorem cached?_step (name : String) :
    (l.step now i).1.cached? name = (i.cached? name).or (l.insertion?.toList.lookup name) := by
  cases l with
  | asked name =>
    simp only [step]
    cases i.cached? name <;> exact Option.or_none.symm
  | missed name =>
    simp only [step]
    cases now.entry? name <;> exact Option.or_none.symm
  | built own entry => exact Index.cached?_store i own entry name
  | answered => exact Option.or_none.symm

/-- A step that stores nothing leaves the index as it is. -/
theorem step_fst_of_insertion? (h : l.insertion? = none) : (l.step now i).1 = i := by
  cases l with
  | asked name =>
    simp only [step]
    cases i.cached? name <;> rfl
  | missed name =>
    simp only [step]
    cases now.entry? name <;> rfl
  | built => cases h
  | answered => rfl

theorem source_step : (l.step now i).1.source = i.source := by
  cases hstored : l.insertion? with
  | none => rw [step_fst_of_insertion? now i l hstored]
  | some stored =>
    cases l with
    | built name entry => exact Index.source_store i name entry
    | asked | missed | answered => cases hstored

theorem distinct_step (h : i.Distinct) : (l.step now i).1.Distinct := by
  cases hstored : l.insertion? with
  | none => rwa [step_fst_of_insertion? now i l hstored]
  | some stored =>
    cases l with
    | built name entry => exact h.store name entry
    | asked | missed | answered => cases hstored

end Step

/-- A step comes to no entry where the source has none. -/
theorem of_step_failed {now : Source} {i : Index} {l : Lookup} {name : String}
    (h : (l.step now i).2 = .answered name none) :
    l = .answered name none ∨ now.entry? name = none := by
  cases l with
  | asked own =>
    simp only [step] at h
    cases hcached : i.cached? own with
    | some found =>
      rw [hcached] at h
      cases h
    | none =>
      rw [hcached] at h
      cases h
  | missed own =>
    simp only [step] at h
    cases hsource : now.entry? own with
    | some found =>
      rw [hsource] at h
      cases h
    | none =>
      rw [hsource] at h
      cases h
      exact .inr hsource
  | built own entry =>
    obtain ⟨-, hresult⟩ := Lookup.answered.inj h
    have hsome := Index.isSome_cached?_store i own entry
    rw [hresult] at hsome
    cases hsome
  | answered => exact .inl h

/-- The answer of the look-up, if it has one that is an entry, is in the cache. -/
def IsCached (i : Index) (l : Lookup) : Prop :=
  ∀ name entry, l = .answered name (some entry) → i.cached? name = some entry

/-- A step finds its answer in the cache or leaves it there. -/
theorem isCached_step (now : Source) {i : Index} {l : Lookup} (h : l.IsCached i) :
    (l.step now i).2.IsCached (l.step now i).1 := by
  intro name entry heq
  cases l with
  | asked own =>
    simp only [step] at heq ⊢
    cases hcached : i.cached? own with
    | some found =>
      rw [hcached] at heq
      cases heq
      exact hcached
    | none =>
      rw [hcached] at heq
      cases heq
  | missed own =>
    simp only [step] at heq
    cases hsource : now.entry? own with
    | some found =>
      rw [hsource] at heq
      cases heq
    | none =>
      rw [hsource] at heq
      cases heq
  | built own built =>
    obtain ⟨rfl, hresult⟩ := Lookup.answered.inj heq
    exact hresult
  | answered own result => exact h name entry heq

/-- The look-up has what the source says, as far as it has come. -/
def IsTrue (source : Source) : Lookup → Prop
  | asked _ | missed _ => True
  | built name entry => source.entry? name = some entry
  | answered name result => result = source.entry? name

/-- While the source stays the same, a step finds what it says. -/
theorem isTrue_step {i : Index} {l : Lookup} (hfaithful : i.Faithful) (h : l.IsTrue i.source) :
    (l.step i.source i).1.Faithful ∧ (l.step i.source i).2.IsTrue i.source := by
  cases l with
  | asked name =>
    simp only [step]
    cases hcached : i.cached? name with
    | some entry => exact ⟨hfaithful, (hfaithful name entry hcached).symm⟩
    | none => exact ⟨hfaithful, trivial⟩
  | missed name =>
    simp only [step]
    cases hsource : i.source.entry? name with
    | some entry => exact ⟨hfaithful, hsource⟩
    | none => exact ⟨hfaithful, hsource.symm⟩
  | built name entry =>
    have hstored : (i.store name entry).Faithful := Index.faithful_store hfaithful h
    refine ⟨hstored, ?_⟩
    obtain ⟨found, hfound⟩ := Option.isSome_iff_exists.1 (Index.isSome_cached?_store i name entry)
    have hsource := hstored name found hfound
    rw [Index.source_store] at hsource
    exact hfound.trans hsource.symm
  | answered name result => exact ⟨hfaithful, h⟩

end Lookup

/-! ## One turn -/

namespace Traffic

section Turn

variable {t : Traffic} {turn : Turn} {l : Lookup} {k : Nat}

theorem turn_of_getElem? (h : t.lookups[turn.caller]? = some l) :
    t.turn turn = ⟨(l.step turn.now t.index).1,
      t.lookups.set turn.caller (l.step turn.now t.index).2⟩ := by
  unfold Traffic.turn
  rw [h]

theorem turn_of_getElem?_none (h : t.lookups[turn.caller]? = none) : t.turn turn = t := by
  unfold Traffic.turn
  rw [h]

/-- The look-up of the caller takes a step. -/
theorem lookups_turn_self (h : t.lookups[turn.caller]? = some l) :
    (t.turn turn).lookups[turn.caller]? = some (l.step turn.now t.index).2 := by
  rw [turn_of_getElem? h]
  exact List.getElem?_set_self (List.getElem?_eq_some_iff.1 h).1

/-- Every other look-up stays as it is. -/
theorem lookups_turn_ne (h : turn.caller ≠ k) : (t.turn turn).lookups[k]? = t.lookups[k]? := by
  cases hcaller : t.lookups[turn.caller]? with
  | some l =>
    rw [turn_of_getElem? hcaller]
    exact List.getElem?_set_ne h
  | none => rw [turn_of_getElem?_none hcaller]

theorem cached?_turn (t : Traffic) (turn : Turn) (name : String) :
    (t.turn turn).index.cached? name =
      (t.index.cached? name).or ((t.insertion? turn).toList.lookup name) := by
  unfold insertion?
  cases hcaller : t.lookups[turn.caller]? with
  | some l =>
    rw [turn_of_getElem? hcaller]
    exact l.cached?_step turn.now t.index name
  | none =>
    rw [turn_of_getElem?_none hcaller]
    exact Option.or_none.symm

/-- A turn that stores nothing leaves the index as it is. -/
theorem index_turn_of_insertion? (h : t.insertion? turn = none) :
    (t.turn turn).index = t.index := by
  unfold insertion? at h
  cases hcaller : t.lookups[turn.caller]? with
  | some l =>
    rw [hcaller] at h
    rw [turn_of_getElem? hcaller]
    exact l.step_fst_of_insertion? turn.now t.index h
  | none => rw [turn_of_getElem?_none hcaller]

theorem distinct_turn (h : t.index.Distinct) (turn : Turn) : (t.turn turn).index.Distinct := by
  cases hcaller : t.lookups[turn.caller]? with
  | some l =>
    rw [turn_of_getElem? hcaller]
    exact l.distinct_step turn.now t.index h
  | none => rwa [turn_of_getElem?_none hcaller]

theorem source_turn (t : Traffic) (turn : Turn) :
    (t.turn turn).index.source = t.index.source := by
  cases hcaller : t.lookups[turn.caller]? with
  | some l =>
    rw [turn_of_getElem? hcaller]
    exact l.source_step turn.now t.index
  | none => rw [turn_of_getElem?_none hcaller]

end Turn

/-! ## Any turns -/

section Run

variable {t : Traffic} {turns : List Turn} {l : Lookup} {k : Nat} {name : String}

theorem lookups_start {i : Index} {names : List String}
    (h : (start i names).lookups[k]? = some l) :
    ∃ name, l = .asked name := by
  unfold start at h
  rw [List.getElem?_map] at h
  obtain ⟨name, -, rfl⟩ := Option.map_eq_some_iff.1 h
  exact ⟨name, rfl⟩

theorem run_append (t : Traffic) (earlier later : List Turn) :
    t.run (earlier ++ later) = (t.run earlier).run later :=
  List.foldl_append

/-- What is in the cache was there before, or it is what was stored first under its name. -/
theorem cached?_run (t : Traffic) (turns : List Turn) (name : String) :
    (t.run turns).index.cached? name =
      (t.index.cached? name).or ((t.insertions turns).lookup name) := by
  induction turns generalizing t with
  | nil => exact Option.or_none.symm
  | cons turn later ih =>
    calc
      ((t.turn turn).run later).index.cached? name
        = ((t.turn turn).index.cached? name).or (((t.turn turn).insertions later).lookup name) :=
        ih _
      _ = (t.index.cached? name).or ((t.insertions (turn :: later)).lookup name) := by
        rw [cached?_turn, Option.or_assoc, insertions, List.lookup_append]

/-- A look-up fails in a turn in which the source has nothing. -/
theorem exists_turn_of_failed (hbefore : t.lookups[k]? ≠ some (.answered name none))
    (hfailed : (t.run turns).lookups[k]? = some (.answered name none)) :
    ∃ turn ∈ turns, turn.caller = k ∧ turn.now.entry? name = none := by
  induction turns generalizing t with
  | nil => exact absurd hfailed hbefore
  | cons turn later ih =>
    by_cases hnext : (t.turn turn).lookups[k]? = some (.answered name none)
    · by_cases hcaller : turn.caller = k
      · subst hcaller
        refine ⟨turn, List.mem_cons_self, rfl, ?_⟩
        cases hlookup : t.lookups[turn.caller]? with
        | none =>
          rw [turn_of_getElem?_none hlookup] at hnext
          exact absurd hnext hbefore
        | some l =>
          rw [lookups_turn_self hlookup] at hnext
          rcases Lookup.of_step_failed (Option.some.inj hnext) with rfl | hnone
          · exact absurd hlookup hbefore
          · exact hnone
      · rw [lookups_turn_ne hcaller] at hnext
        exact absurd hnext hbefore
    · obtain ⟨turn', hmem, hturn'⟩ := ih hnext hfailed
      exact ⟨turn', List.mem_cons_of_mem _ hmem, hturn'⟩

/-- A stored entry is never replaced. -/
theorem cached?_run_of_cached? {entry : Entry} (h : t.index.cached? name = some entry)
    (turns : List Turn) :
    (t.run turns).index.cached? name = some entry := by
  rw [cached?_run, h, Option.some_or]

theorem distinct_run (h : t.index.Distinct) (turns : List Turn) :
    (t.run turns).index.Distinct := by
  induction turns generalizing t with
  | nil => exact h
  | cons turn later ih => exact ih (distinct_turn h turn)

/-- An index that was empty holds as many entries as there are names for which one was stored. -/
theorem cachedCount_run (source : Source) (names : List String) (turns : List Turn) :
    ((start (.ofSource source) names).run turns).index.cachedCount =
      (KeyMap.distinct (((start (.ofSource source) names).insertions turns).map
        (·.1))).length := by
  have hdistinct : (((start (.ofSource source) names).run turns).index.cache.map (·.1)).Nodup :=
    distinct_run (Index.distinct_ofSource source) turns
  have hsame : ∀ name, name ∈ ((start (.ofSource source) names).run turns).index.cache.map (·.1) ↔
      name ∈ KeyMap.distinct (((start (.ofSource source) names).insertions turns).map (·.1)) := by
    intro name
    have hrun := cached?_run (start (.ofSource source) names) turns name
    have hempty : (start (.ofSource source) names).index.cached? name = none := rfl
    rw [hempty, Option.none_or] at hrun
    rw [KeyMap.mem_distinct, ← KeyMap.isSome_lookup_iff, ← KeyMap.isSome_lookup_iff, ← hrun]
    rfl
  have hperm := (List.perm_ext_iff_of_nodup hdistinct (KeyMap.nodup_distinct _)).2 hsame
  rw [← hperm.length_eq, List.length_map]
  rfl

/-- A look-up goes on with the turns of its caller, a step with each, and it keeps its name and
the entry that it has. -/
theorem exists_lookup_run (h : t.lookups[k]? = some l) (turns : List Turn) :
    ∃ l', (t.run turns).lookups[k]? = some l' ∧ l'.name = l.name ∧
      l'.remaining ≤ l.remaining - turns.countP (fun turn => turn.caller == k) ∧
      (l.hasEntry = true → l'.hasEntry = true) := by
  induction turns generalizing t l with
  | nil => exact ⟨l, h, rfl, Nat.le_refl _, id⟩
  | cons turn later ih =>
    by_cases hcaller : turn.caller = k
    · subst hcaller
      obtain ⟨l', hrun, hname, hremaining, hentry⟩ := ih (lookups_turn_self h)
      have hstep := l.remaining_step turn.now t.index
      refine ⟨l', hrun, hname.trans (l.name_step turn.now t.index), ?_, ?_⟩
      · have hcount : (turn :: later).countP (fun other => other.caller == turn.caller) =
            later.countP (fun other => other.caller == turn.caller) + 1 :=
          List.countP_cons_of_pos (beq_self_eq_true turn.caller)
        omega
      · intro hhas
        exact hentry (l.hasEntry_step turn.now t.index hhas)
    · obtain ⟨l', hrun, hname, hremaining, hentry⟩ := ih ((lookups_turn_ne hcaller).trans h)
      refine ⟨l', hrun, hname, ?_, hentry⟩
      rwa [List.countP_cons_of_neg (by simp [hcaller])]

/-- A look-up without an answer that is an entry has stored none. -/
theorem hasEntry_eq_false_of_run (h : t.lookups[k]? = some l)
    (hfailed : (t.run turns).lookups[k]? = some (.answered name none)) : l.hasEntry = false := by
  obtain ⟨l', hrun, -, -, hentry⟩ := exists_lookup_run h turns
  rw [hfailed] at hrun
  cases hrun
  exact Bool.eq_false_iff.2 fun hhas => Bool.false_ne_true (hentry hhas)

/-- The turns of a caller whose look-up fails leave the index as it is. -/
theorem index_turn_of_failed {turn : Turn} {later : List Turn} (hcaller : turn.caller = k)
    (hfailed : (t.run (turn :: later)).lookups[k]? = some (.answered name none)) :
    (t.turn turn).index = t.index := by
  refine index_turn_of_insertion? ?_
  unfold insertion?
  rw [hcaller]
  cases hlookup : t.lookups[k]? with
  | none => rfl
  | some l =>
    have hnone := hasEntry_eq_false_of_run hlookup hfailed
    cases l with
    | built => cases hnone
    | asked | missed | answered => rfl

/-- Every caller that asked is answered when it has had three turns. -/
theorem exists_answer_run (hasked : t.lookups[k]? = some (.asked name))
    (hturns : 3 ≤ turns.countP fun turn => turn.caller == k) :
    ∃ result, (t.run turns).lookups[k]? = some (.answered name result) := by
  obtain ⟨l, hrun, hown, hremaining, -⟩ := exists_lookup_run hasked turns
  have hthree : (Lookup.asked name).remaining = 3 := rfl
  have hdone : l.remaining = 0 := by omega
  cases l with
  | asked | missed | built => cases hdone
  | answered own result =>
    obtain rfl : own = name := hown
    exact ⟨result, hrun⟩

/-! ## Answers -/

/-- Whatever a look-up has found is in the cache. -/
def Truthful (t : Traffic) : Prop :=
  ∀ (k : Nat) (l : Lookup), t.lookups[k]? = some l → l.IsCached t.index

theorem truthful_start (i : Index) (names : List String) : (start i names).Truthful := by
  rintro k l hl name entry rfl
  obtain ⟨_, hasked⟩ := lookups_start hl
  cases hasked

theorem truthful_turn (h : t.Truthful) (turn : Turn) : (t.turn turn).Truthful := by
  intro k l hl
  by_cases hcaller : turn.caller = k
  · subst hcaller
    cases hlookup : t.lookups[turn.caller]? with
    | none =>
      rw [turn_of_getElem?_none hlookup] at hl ⊢
      exact h _ l hl
    | some own =>
      rw [lookups_turn_self hlookup] at hl
      cases hl
      rw [turn_of_getElem? hlookup]
      exact Lookup.isCached_step turn.now (h _ own hlookup)
  · rw [lookups_turn_ne hcaller] at hl
    intro name entry heq
    rw [cached?_turn, h k l hl name entry heq, Option.some_or]

theorem truthful_run (h : t.Truthful) (turns : List Turn) : (t.run turns).Truthful := by
  induction turns generalizing t with
  | nil => exact h
  | cons turn later ih => exact ih (truthful_turn h turn)

/-- The cache and all look-ups have what the source says. -/
structure Settled (source : Source) (t : Traffic) : Prop where
  source_eq : t.index.source = source
  faithful : t.index.Faithful
  lookups : ∀ (k : Nat) (l : Lookup), t.lookups[k]? = some l → l.IsTrue source

theorem settled_start {source : Source} {i : Index} (hsource : i.source = source)
    (hfaithful : i.Faithful) (names : List String) : Settled source (start i names) where
  source_eq := hsource
  faithful := hfaithful
  lookups k l hl := by
    obtain ⟨_, rfl⟩ := lookups_start hl
    trivial

theorem settled_turn {source : Source} (h : Settled source t) {turn : Turn}
    (hnow : turn.now = source) :
    Settled source (t.turn turn) := by
  obtain ⟨rfl, hfaithful, hlookups⟩ := h
  cases hlookup : t.lookups[turn.caller]? with
  | none =>
    rw [turn_of_getElem?_none hlookup]
    exact ⟨rfl, hfaithful, hlookups⟩
  | some own =>
    obtain ⟨hfaithful', htrue⟩ := Lookup.isTrue_step hfaithful (hlookups _ own hlookup)
    refine ⟨source_turn t turn, ?_, ?_⟩
    · rwa [turn_of_getElem? hlookup, hnow]
    · intro k l hl
      by_cases hcaller : turn.caller = k
      · subst hcaller
        rw [lookups_turn_self hlookup, hnow] at hl
        cases hl
        exact htrue
      · rw [lookups_turn_ne hcaller] at hl
        exact hlookups k l hl

/-- While the source stays the same, everything has what it says. -/
theorem settled_run {source : Source} (h : Settled source t)
    (hnow : ∀ turn ∈ turns, turn.now = source) :
    Settled source (t.run turns) := by
  induction turns generalizing t with
  | nil => exact h
  | cons turn later ih =>
    obtain ⟨hfirst, hlater⟩ := List.forall_mem_cons.1 hnow
    exact ih (settled_turn h hfirst) hlater

end Run

/-! ## Any callers of a new index -/

/-- What callers that share an index can rely on, in whatever order they take their turns and
whatever the source says each time. -/
structure Converges (t : Traffic) (turns : List Turn) : Prop where
  /-- A look-up that succeeds returns the entry that was stored first under its name. -/
  first : ∀ (k : Nat) (name : String) (entry : Entry),
    (t.run turns).lookups[k]? = some (.answered name (some entry)) →
    (t.insertions turns).lookup name = some entry
  /-- A stored entry is never replaced. -/
  kept : ∀ earlier later, turns = earlier ++ later → ∀ name entry,
    (t.run earlier).index.cached? name = some entry →
    (t.run turns).index.cached? name = some entry
  /-- A look-up that fails changes nothing, with none of its steps. -/
  failed : ∀ (k : Nat) (name : String), (t.run turns).lookups[k]? = some (.answered name none) →
    ∀ earlier turn later, turns = earlier ++ turn :: later → turn.caller = k →
      (t.run (earlier ++ [turn])).index = (t.run earlier).index
  /-- It fails only if the source had nothing when it was asked. -/
  refused : ∀ (k : Nat) (name : String), (t.run turns).lookups[k]? = some (.answered name none) →
    ∃ turn ∈ turns, turn.caller = k ∧ turn.now.entry? name = none
  /-- The count of the cache is that of the names for which an entry was stored. -/
  counted : (t.run turns).index.cachedCount =
    (KeyMap.distinct ((t.insertions turns).map (·.1))).length
  /-- Whoever has had three turns is answered. -/
  answered : ∀ (k : Nat) (name : String), t.lookups[k]? = some (.asked name) →
    3 ≤ turns.countP (fun turn => turn.caller == k) →
      ∃ result, (t.run turns).lookups[k]? = some (.answered name result)

theorem converges_start (source : Source) (names : List String) (turns : List Turn) :
    (start (.ofSource source) names).Converges turns where
  first k name entry h := by
    have hcached : ((start (.ofSource source) names).run turns).index.cached? name = some entry :=
      truthful_run (truthful_start (.ofSource source) names) turns k _ h name entry rfl
    rwa [cached?_run] at hcached
  kept earlier later hturns name entry h := by
    rw [hturns, run_append]
    exact cached?_run_of_cached? h later
  failed k name h earlier turn later hturns hcaller := by
    rw [hturns, run_append] at h
    rw [run_append]
    exact index_turn_of_failed hcaller h
  refused k name h := by
    refine exists_turn_of_failed ?_ h
    intro hbefore
    obtain ⟨_, hasked⟩ := lookups_start hbefore
    cases hasked
  counted := cachedCount_run source names turns
  answered k name hasked hturns := exists_answer_run hasked hturns

end Traffic

end DesignCompiler.Catalog
