import DesignCompiler.Proofs.Mapping.Contexts
import Mathlib.Algebra.GroupWithZero.Nat

/-!
# The ranking of candidates

Which rule a node takes. A score is added up with a greatest value at which it stays, so it never
starts again from zero: cut off at the greatest confidence it is the exact sum of what fits, cut
off there (`Engine.score_eq`). The candidates are the rules above the threshold with an entry in
the catalog (`Engine.Offers`), and the sort that puts them in order is stable, so that
`Candidate.Before` holds of any two of them.

`Engine.selects_earliest_best` reads the choice off this: the rule that is taken is the first one
of those with the best score, wherever a tree is mapped, and a rule behind all others is only
taken if it scores better than each candidate.
-/

namespace DesignCompiler.Mapping

open Semantic (Node)

/-! ## Scores -/

/-- The weights of what fits of a rule: of the kind of the node, of its name, and of the
conditions that hold. -/
def Rule.fittingWeights (config : Config) (rule : Rule) (node : Node) (context : Option String) :
    List Nat :=
  (if rule.kinds.contains node.kind then [config.typeWeight] else []) ++
    (if rule.matchesName node.name then [config.nameWeight] else []) ++
    (rule.conditions.filter fun w => w.predicate.holds node context).map (·.weight)

namespace Engine

section Scores

variable {engine : Engine} {config : Config} {rule : Rule} {node : Node} {context : Option String}

/-- Weights that are added one after the other come to their sum, or to the greatest score. -/
theorem foldl_addWeight (weights : List Nat) {total : Nat} (htotal : total ≤ maxScore) :
    weights.foldl addWeight total = min (total + weights.sum) maxScore := by
  induction weights generalizing total with
  | nil => simp [htotal]
  | cons weight weights ih =>
    have hnext : addWeight total weight ≤ maxScore := Nat.min_le_right _ _
    rw [List.foldl_cons, ih hnext, List.sum_cons, addWeight]
    omega

/-- Conditions that do not hold add nothing. -/
theorem foldl_conditions (conditions : List Weighted) (total : Nat) :
    conditions.foldl (fun total w =>
      if w.predicate.holds node context then addWeight total w.weight else total) total =
      ((conditions.filter fun w => w.predicate.holds node context).map (·.weight)).foldl addWeight
        total := by
  induction conditions generalizing total with
  | nil => rfl
  | cons w conditions ih =>
    rw [List.foldl_cons, ih, List.filter_cons]
    split <;> rfl

/-- What the fitting parts of a rule add up to is the sum of their weights, up to the greatest
score. -/
theorem rawScore_eq (config : Config) (rule : Rule) (node : Node) (context : Option String) :
    rawScore config rule node context =
      min (rule.fittingWeights config node context).sum maxScore := by
  have hfold := foldl_addWeight (rule.fittingWeights config node context) (Nat.zero_le maxScore)
  rw [Nat.zero_add] at hfold
  rw [← hfold, rawScore, foldl_conditions, Rule.fittingWeights, List.foldl_append,
    List.foldl_append]
  congr 1
  cases rule.kinds.contains node.kind <;> cases rule.matchesName node.name <;> rfl

/-- **A score is exact**: it is the sum of the weights of what fits, cut off at the greatest
confidence only. -/
theorem score_eq (hmax : engine.config.maxConfidence < 2 ^ 32) (rule : Rule) (node : Node)
    (context : Option String) :
    engine.score rule node context =
      min (rule.fittingWeights engine.config node context).sum engine.config.maxConfidence := by
  have hbound : engine.config.maxConfidence ≤ maxScore := by
    unfold maxScore
    omega
  rw [score, rawScore_eq]
  omega

end Scores

end Engine

/-! ## Candidates in order -/

/-- The first candidate is taken before the second: its score is better, or it is the same and its
rule is earlier. -/
def Candidate.Before (a b : Candidate) : Prop :=
  b.confidence < a.confidence ∨ b.confidence = a.confidence ∧ a.index < b.index

/-- The candidate is that of a rule which scores above the threshold and has an entry in the
catalog. -/
structure Engine.Offers (engine : Engine) (node : Node) (context : Option String)
    (c : Candidate) : Prop where
  rule : engine.rules[c.index]? = some c.rule
  entry : engine.catalog.entry? c.rule.target = some c.entry
  confidence : c.confidence = engine.score c.rule node context
  above : engine.config.minConfidence < c.confidence

/-- The engine with one more rule, behind all others. -/
def Engine.withRule (engine : Engine) (rule : Rule) : Engine :=
  { engine with rules := engine.rules ++ [rule] }

theorem Candidate.Before.asymm {a b : Candidate} (h : a.Before b) : ¬ b.Before a := by
  unfold Before at h ⊢
  omega

/-- Of a list in which each comes before all behind it, the head is the one that comes before all
others. -/
theorem Candidate.head?_eq_some_iff {cs : List Candidate} (hcs : cs.Pairwise Before)
    {c : Candidate} :
    cs.head? = some c ↔ c ∈ cs ∧ ∀ d ∈ cs, d ≠ c → c.Before d := by
  cases cs with
  | nil => simp
  | cons first rest =>
    rw [List.pairwise_cons] at hcs
    rw [List.head?_cons, Option.some.injEq]
    constructor
    · rintro rfl
      refine ⟨List.mem_cons_self, fun d hd hne => ?_⟩
      rcases List.mem_cons.1 hd with rfl | hd
      · exact absurd rfl hne
      · exact hcs.1 d hd
    · rintro ⟨hmem, hfirst⟩
      rcases List.mem_cons.1 hmem with rfl | hmem
      · rfl
      · by_cases hne : first = c
        · exact hne
        · exact absurd (hcs.1 c hmem) (hfirst first List.mem_cons_self hne).asymm

/-- A stable sort by score keeps earlier rules in front where scores are the same. -/
theorem Candidate.pairwise_before_mergeSort {cs : List Candidate}
    (hcs : cs.Pairwise fun a b => a.index < b.index) :
    (cs.mergeSort fun a b => decide (b.confidence ≤ a.confidence)).Pairwise Before := by
  have htrans (a b c : Candidate) : decide (b.confidence ≤ a.confidence) = true →
      decide (c.confidence ≤ b.confidence) = true →
      decide (c.confidence ≤ a.confidence) = true := by
    simp only [decide_eq_true_eq]
    omega
  have htotal (a b : Candidate) :
      (decide (b.confidence ≤ a.confidence) || decide (a.confidence ≤ b.confidence)) = true := by
    simp only [Bool.or_eq_true, decide_eq_true_eq]
    omega
  induction cs with
  | nil => simp
  | cons first rest ih =>
    obtain ⟨hfirst, hrest⟩ := List.pairwise_cons.1 hcs
    have hsorted := List.pairwise_mergeSort htrans htotal (first :: rest)
    -- The first candidate is put behind those with a better score and in front of all others.
    obtain ⟨better, others, hall, hsplit, hbetter⟩ := List.mergeSort_cons htrans htotal first rest
    have hbefore := ih hrest
    rw [hall] at hsorted ⊢
    rw [hsplit] at hbefore
    have hmem (d : Candidate) (hd : d ∈ others) : d ∈ rest := by
      rw [← List.mem_mergeSort, hsplit]
      exact List.mem_append_right _ hd
    rw [List.pairwise_append, List.pairwise_cons] at hsorted ⊢
    obtain ⟨hbefore₁, hbefore₂, hacross⟩ := List.pairwise_append.1 hbefore
    refine ⟨hbefore₁, ⟨fun d hd => ?_, hbefore₂⟩, fun b hb d hd => ?_⟩
    · have hle := of_decide_eq_true (hsorted.2.1.1 d hd)
      have hindex := hfirst d (hmem d hd)
      unfold Before
      omega
    · rcases List.mem_cons.1 hd with rfl | hd
      · have hlt := hbetter b hb
        simp only [Bool.not_eq_true', decide_eq_false_iff_not] at hlt
        exact .inl (Nat.lt_of_not_le hlt)
      · exact hacross b hb d hd

namespace Engine

variable {engine : Engine} {node : Node} {context : Option String} {c : Candidate}

theorem candidate?_eq_some_iff {rule : Rule} {index : Nat} :
    engine.candidate? node context (rule, index) = some c ↔
      engine.config.minConfidence < engine.score rule node context ∧
        ∃ entry, engine.catalog.entry? rule.target = some entry ∧
          c = ⟨index, rule, entry, engine.score rule node context⟩ := by
  unfold candidate?
  simp only
  split
  · rename_i hle
    simp only [reduceCtorEq, false_iff]
    rintro ⟨hlt, -⟩
    omega
  · rename_i hlt
    rw [Option.map_eq_some_iff]
    simp only [Nat.lt_of_not_le hlt, true_and, eq_comm (a := c)]

/-- The candidates are those of the rules above the threshold with an entry. -/
theorem mem_candidates : c ∈ engine.candidates node context ↔ engine.Offers node context c := by
  unfold candidates
  rw [List.mem_mergeSort, List.mem_filterMap]
  constructor
  · rintro ⟨⟨rule, index⟩, hrule, hc⟩
    obtain ⟨hlt, entry, hentry, rfl⟩ := candidate?_eq_some_iff.1 hc
    exact ⟨List.mem_zipIdx_iff_getElem?.1 hrule, hentry, rfl, hlt⟩
  · intro h
    refine ⟨(c.rule, c.index), List.mem_zipIdx_iff_getElem?.2 h.rule, candidate?_eq_some_iff.2 ?_⟩
    obtain ⟨index, rule, entry, confidence⟩ := c
    obtain ⟨hrule, hentry, hconfidence, habove⟩ := h
    simp only at hconfidence habove hentry
    subst hconfidence
    exact ⟨habove, entry, hentry, rfl⟩

/-- A rule offers one candidate only. -/
theorem Offers.eq_of_index_eq {d : Candidate} (hd : engine.Offers node context d)
    (hc : engine.Offers node context c) (h : d.index = c.index) : d = c := by
  have hrule : d.rule = c.rule := by
    have hget := hd.rule
    rw [h, hc.rule] at hget
    exact (Option.some.inj hget).symm
  have hentry : d.entry = c.entry := by
    have hget := hd.entry
    rw [hrule, hc.entry] at hget
    exact (Option.some.inj hget).symm
  have hconfidence : d.confidence = c.confidence := by
    rw [hd.confidence, hc.confidence, hrule]
  cases d
  cases c
  simp only at h hrule hentry hconfidence
  rw [h, hrule, hentry, hconfidence]

/-- The candidates are in order, best first and earlier rules first among equals. -/
theorem pairwise_candidates : (engine.candidates node context).Pairwise Candidate.Before := by
  refine Candidate.pairwise_before_mergeSort ?_
  rw [List.pairwise_filterMap]
  have hplaces : engine.rules.zipIdx.Pairwise fun p q => p.2 < q.2 := by
    rw [← List.pairwise_map, List.zipIdx_map_snd]
    exact List.pairwise_lt_range'
  refine hplaces.imp ?_
  rintro ⟨rule, i⟩ ⟨rule', j⟩ hlt a ha b hb
  obtain ⟨-, entry, -, rfl⟩ := candidate?_eq_some_iff.1 ha
  obtain ⟨-, entry', -, rfl⟩ := candidate?_eq_some_iff.1 hb
  exact hlt

/-- The best candidate is the one that comes before all others. -/
theorem best?_eq_some_iff : engine.best? node context = some c ↔
    engine.Offers node context c ∧ ∀ d, engine.Offers node context d → d ≠ c → c.Before d := by
  unfold best?
  rw [Candidate.head?_eq_some_iff pairwise_candidates]
  simp only [mem_candidates]

theorem exists_best?_of_offers (h : engine.Offers node context c) :
    ∃ best, engine.best? node context = some best := by
  cases hcandidates : engine.candidates node context with
  | nil =>
    rw [← mem_candidates, hcandidates] at h
    cases h
  | cons best later => exact ⟨best, congrArg List.head? hcandidates⟩

theorem selection?_eq (engine : Engine) (node : Node) (context : Option String) :
    engine.selection? node context =
      (engine.best? node context).map fun c => (c.entry, c.confidence) := by
  unfold selection? proposals best?
  rw [List.head?_map]

/-- What becomes of a node shows the component that is selected for it, with its confidence. -/
theorem Settles.selection?_eq {o : Outcome} (h : engine.Settles context o) :
    (o.mapped? engine.config).map (fun m => (m.component, m.confidence)) =
      (engine.selection? o.node context).map fun p => (p.1.name, p.2) := by
  rw [Engine.selection?_eq, h.best?_eq]
  cases o <;> rfl

/-! ## One more rule -/

section WithRule

variable {rule : Rule}

/-- A rule behind all others offers its own candidate and leaves the other ones as they are. -/
theorem offers_withRule : (engine.withRule rule).Offers node context c ↔
    engine.Offers node context c ∨
      engine.candidate? node context (rule, engine.rules.length) = some c := by
  have hcandidates : (engine.withRule rule).candidate? node context =
      engine.candidate? node context := rfl
  rw [← mem_candidates, ← mem_candidates, candidates, candidates, List.mem_mergeSort,
    List.mem_mergeSort, hcandidates, withRule, List.zipIdx_append, List.filterMap_append,
    List.mem_append, Nat.zero_add]
  refine or_congr_right ?_
  simp [List.mem_filterMap]

/-- A rule that scores better than each candidate is taken. -/
theorem best?_withRule_of_better
    (hc : engine.candidate? node context (rule, engine.rules.length) = some c)
    (hbetter : ∀ d ∈ engine.candidates node context, d.confidence < c.confidence) :
    (engine.withRule rule).best? node context = some c := by
  refine best?_eq_some_iff.2 ⟨offers_withRule.2 (.inr hc), fun d hd hne => ?_⟩
  rcases offers_withRule.1 hd with hd | hd
  · exact .inl (hbetter d (mem_candidates.2 hd))
  · rw [hc] at hd
    exact absurd (Option.some.inj hd).symm hne

/-- A rule that scores no better than some candidate changes nothing. -/
theorem best?_withRule_of_le {best : Candidate} (hbest : engine.best? node context = some best)
    (hle : ∀ c, engine.candidate? node context (rule, engine.rules.length) = some c →
      c.confidence ≤ best.confidence) :
    (engine.withRule rule).best? node context = some best := by
  obtain ⟨hoffers, hfirst⟩ := best?_eq_some_iff.1 hbest
  refine best?_eq_some_iff.2 ⟨offers_withRule.2 (.inl hoffers), fun d hd hne => ?_⟩
  rcases offers_withRule.1 hd with hd | hd
  · exact hfirst d hd hne
  · have hindex : d.index = engine.rules.length := by
      obtain ⟨-, entry, -, rfl⟩ := candidate?_eq_some_iff.1 hd
      rfl
    have hearlier : best.index < engine.rules.length :=
      (List.getElem?_eq_some_iff.1 hoffers.rule).1
    have hscore := hle d hd
    unfold Candidate.Before
    omega

/-- A rule that makes no candidate changes nothing. -/
theorem best?_withRule_of_none
    (hnone : engine.candidate? node context (rule, engine.rules.length) = none) :
    (engine.withRule rule).best? node context = engine.best? node context := by
  have hoffers (d : Candidate) :
      (engine.withRule rule).Offers node context d ↔ engine.Offers node context d := by
    rw [offers_withRule, hnone]
    simp
  refine Option.ext fun c => ?_
  rw [best?_eq_some_iff, best?_eq_some_iff]
  simp only [hoffers]

/-- A rule behind all others changes what is selected exactly if it makes a candidate that scores
better than each of those without it. -/
theorem selection?_withRule_ne_iff :
    (engine.withRule rule).selection? node context ≠ engine.selection? node context ↔
      engine.config.minConfidence < engine.score rule node context ∧
        (∃ entry, engine.catalog.entry? rule.target = some entry) ∧
        ∀ d ∈ engine.candidates node context, d.confidence < engine.score rule node context := by
  rw [selection?_eq, selection?_eq]
  cases hnew : engine.candidate? node context (rule, engine.rules.length) with
  | none =>
    rw [best?_withRule_of_none hnew]
    simp only [ne_eq, not_true_eq_false, false_iff]
    rintro ⟨hlt, ⟨entry, hentry⟩, -⟩
    have hsome : engine.candidate? node context (rule, engine.rules.length) = some _ :=
      candidate?_eq_some_iff.2 ⟨hlt, entry, hentry, rfl⟩
    rw [hnew] at hsome
    cases hsome
  | some c =>
    obtain ⟨hlt, entry, hentry, hc⟩ := candidate?_eq_some_iff.1 hnew
    have hscore : c.confidence = engine.score rule node context := by rw [hc]
    rw [hscore.symm] at hlt ⊢
    simp only [hlt, hentry, Option.some.injEq, exists_eq', true_and]
    constructor
    · intro hchanged d hd
      obtain ⟨best, hbest⟩ := exists_best?_of_offers (mem_candidates.1 hd)
      by_cases hle : c.confidence ≤ best.confidence
      · have hsame : (engine.withRule rule).best? node context = some best := by
          refine best?_withRule_of_le hbest fun c' hc' => ?_
          rw [hnew] at hc'
          exact Option.some.inj hc' ▸ hle
        exact absurd (by rw [hsame, hbest]) hchanged
      · by_cases hd' : d = best
        · subst hd'
          omega
        · have hbefore := (best?_eq_some_iff.1 hbest).2 d (mem_candidates.1 hd) hd'
          unfold Candidate.Before at hbefore
          omega
    · intro hbetter hsame
      rw [best?_withRule_of_better hnew hbetter] at hsame
      obtain ⟨best, hbest, hpair⟩ := Option.map_eq_some_iff.1 hsame.symm
      have hlower := hbetter best (mem_candidates.2 (best?_eq_some_iff.1 hbest).1)
      have hconfidence := congrArg Prod.snd hpair
      simp only at hconfidence
      omega

end WithRule

/-! ## The choice -/

/-- **The earliest of the best rules is selected.** A score is the exact sum of the weights of
what fits, whatever these are, cut off at the greatest confidence. The candidates are exactly the
rules that score above the threshold with an entry in the catalog, by score and then by place, and
the first of them is selected: the one with the best score whose rule is earliest. Wherever a tree
is mapped, the node shows the component and the confidence of the first candidate, and a node
without candidates is not mapped. A rule that is put behind all others changes what is selected
exactly if it is such a rule and scores better than each candidate. -/
theorem selects_earliest_best (hmax : engine.config.maxConfidence < 2 ^ 32) :
    (∀ rule node context, engine.score rule node context =
      min (rule.fittingWeights engine.config node context).sum engine.config.maxConfidence) ∧
    (∀ node context,
      (∀ c, c ∈ engine.candidates node context ↔ engine.Offers node context c) ∧
      (engine.candidates node context).Pairwise Candidate.Before ∧
      engine.selection? node context =
        (engine.candidates node context).head?.map (fun c => (c.entry, c.confidence)) ∧
      ∀ c, (engine.candidates node context).head? = some c ↔ engine.Offers node context c ∧
        ∀ d, engine.Offers node context d →
          d.confidence ≤ c.confidence ∧ (d.confidence = c.confidence → c.index ≤ d.index)) ∧
    (∀ root, ∃ o : Outcome, o.node = root ∧ (engine.mapTree root).root = o.mapped? engine.config ∧
      ∀ child ∈ o.preorder, child.isLabel = false → ∃ position context,
        o.at? position = some child ∧ engine.Visits none root position context child.node ∧
        (child.mapped? engine.config).map (fun m => (m.component, m.confidence)) =
          (engine.candidates child.node context).head?.map
            fun c => (c.entry.name, c.confidence)) ∧
    ∀ rule node context, (engine.withRule rule).selection? node context ≠
      engine.selection? node context ↔
      engine.config.minConfidence < engine.score rule node context ∧
        (∃ entry, engine.catalog.entry? rule.target = some entry) ∧
        ∀ d ∈ engine.candidates node context, d.confidence < engine.score rule node context := by
  refine ⟨score_eq hmax,
    fun node context => ⟨fun c => mem_candidates, pairwise_candidates, ?_, fun c => ?_⟩,
    fun root => ?_, fun rule node context => selection?_withRule_ne_iff⟩
  · exact selection?_eq engine node context
  · show engine.best? node context = some c ↔ _
    rw [best?_eq_some_iff]
    refine and_congr_right fun hc => ⟨fun hfirst d hd => ?_, fun hfirst d hd hne => ?_⟩
    · by_cases hne : d = c
      · subst hne
        exact ⟨Nat.le_refl _, fun _ => Nat.le_refl _⟩
      · have hbefore := hfirst d hd hne
        unfold Candidate.Before at hbefore
        omega
    · obtain ⟨hle, hindex⟩ := hfirst d hd
      have hplaces : d.index ≠ c.index := fun h => hne (hd.eq_of_index_eq hc h)
      unfold Candidate.Before
      omega
  · obtain ⟨o, hsettles, rfl, hmap⟩ := engine.exists_mapTree_eq root
    refine ⟨o, rfl, by rw [hmap], fun child hchild hkind => ?_⟩
    obtain ⟨position, hat⟩ := o.exists_at?_of_mem child hchild
    obtain ⟨context, hvisits⟩ := hsettles.exists_visits hat hkind
    obtain ⟨-, child', hat', -, hsettled⟩ := hvisits.exists_settles hsettles rfl
    rw [hat] at hat'
    obtain rfl := Option.some.inj hat'
    refine ⟨position, context, hat, hvisits, ?_⟩
    rw [hsettled.selection?_eq, selection?_eq, Option.map_map]
    rfl

end Engine

/-! ## Weights up to the greatest score -/

namespace FullWeights

/-- A rule for frames with children, whose weights are as great as they can be. -/
def rule (target : String) : Rule :=
  { target, kinds := [.frame], namePatterns := [], conditions := [⟨.hasChildren, 4294967295⟩] }

def engine : Engine :=
  ⟨.ofSource FormSheet.source, [rule "Button", rule "Form.Item"],
    { Config.default with typeWeight := 4294967295, maxConfidence := 4294967295 }⟩

end FullWeights

/-- Twice the greatest weight stays at the greatest score, and of two such rules the earlier one
is selected. -/
theorem selects_earliest_best_fullWeights :
    FullWeights.engine.config.maxConfidence < 2 ^ 32 ∧
      FullWeights.engine.score (FullWeights.rule "Form.Item") FormSheet.sheet none = 4294967295 ∧
      (FullWeights.engine.selection? FormSheet.sheet none).map (fun p => (p.1.name, p.2)) =
        some ("Button", 4294967295) := by
  have hmax : FullWeights.engine.config.maxConfidence < 2 ^ 32 := by decide
  obtain ⟨hscore, hchoice, -, -⟩ := Engine.selects_earliest_best hmax
  obtain ⟨-, -, hselection, hfirst⟩ := hchoice FormSheet.sheet none
  have hfull (target : String) :
      FullWeights.engine.score (FullWeights.rule target) FormSheet.sheet none = 4294967295 := by
    rw [hscore]
    rfl
  have hbutton : (FullWeights.engine.catalog.entry? "Button").map (·.name) = some "Button" := by
    decide +kernel
  obtain ⟨entry, hentry, hname⟩ := Option.map_eq_some_iff.1 hbutton
  have hhead := (hfirst ⟨0, FullWeights.rule "Button", entry, 4294967295⟩).2
    ⟨⟨rfl, hentry, (hfull "Button").symm, show 20 < 4294967295 by decide⟩, fun d hd =>
      ⟨by rw [hd.confidence, hscore]; exact Nat.min_le_right _ _, fun _ => Nat.zero_le _⟩⟩
  refine ⟨hmax, hfull "Form.Item", ?_⟩
  rw [hselection, hhead, Option.map_some, Option.map_some, hname]

end DesignCompiler.Mapping
