import DesignCompiler.Proofs.Synthesis.Faults

/-!
# Sessions of a synthesizer

One synthesizer makes one source after the other, and each time something stays behind in it: the
imports of a tree that was written, or the text of a tree that was given up, as far as it came
(`synthesize_fst_of_root`). None of it shows in what is made next:

* `synthesize_eq_ofOptions` is the step: a synthesis depends on the options of the synthesizer
  only.
* `outputs_eq_map` is the session: whatever was left in the synthesizer at its start and after
  each tree, every output is that of a synthesizer that has written nothing.
-/

namespace DesignCompiler.Synthesis.Synthesizer

open Mapping (MappedNode MappedTree)

/-! ## One synthesis -/

section Step

variable {s : Synthesizer} {tree : MappedTree} {root : MappedNode}

/-- A synthesis makes of a tree, and leaves behind, what a synthesizer does that has written
nothing. -/
theorem synthesize_eq_ofOptions (s : Synthesizer) (tree : MappedTree) (name : String) :
    s.synthesize tree name = (ofOptions s.options).synthesize tree name := by
  have hcleared : s.cleared = (ofOptions s.options).cleared := rfl
  unfold synthesize
  rw [hcleared]

/-- A tree with a root leaves the draft of it behind, less its text or less its imports. -/
theorem synthesize_fst_of_root (hroot : tree.root = some root) (name : String) :
    (s.synthesize tree name).1 =
      left ⟨s.options, (write s.options 0 root).text, (write s.options 0 root).imports⟩
        (write s.options 0 root).fault := by
  unfold synthesize
  rw [hroot]
  rfl

theorem options_left (s : Synthesizer) (fault : Option Fault) :
    (s.left fault).options = s.options := by
  cases fault <;> rfl

theorem options_synthesize (s : Synthesizer) (tree : MappedTree) (name : String) :
    (s.synthesize tree name).1.options = s.options := by
  cases hroot : tree.root with
  | none =>
    unfold synthesize
    rw [hroot]
    rfl
  | some root => rw [synthesize_fst_of_root hroot, options_left]

end Step

/-- The tags in front of the stray node stay behind when the tree is given up. -/
example : ((ofOptions .default).synthesize ⟨some strayCard, []⟩ "card").1.text =
  "    <Card>\n".toList := by
  decide +kernel

/-! ## Sessions -/

/-- The outputs for trees with names, made one after the other. -/
def outputs (s : Synthesizer) : List (MappedTree × String) → List Output
  | [] => []
  | (tree, name) :: later =>
    (s.synthesize tree name).2 :: outputs (s.synthesize tree name).1 later

/-- The synthesizer behind all of them. -/
def after (s : Synthesizer) : List (MappedTree × String) → Synthesizer
  | [] => s
  | (tree, name) :: later => after (s.synthesize tree name).1 later

theorem after_append (s : Synthesizer) (earlier later : List (MappedTree × String)) :
    s.after (earlier ++ later) = (s.after earlier).after later := by
  induction earlier generalizing s with
  | nil => rfl
  | cons job earlier ih => exact ih (s.synthesize job.1 job.2).1

/-- A session never changes the options. -/
theorem options_after (s : Synthesizer) (jobs : List (MappedTree × String)) :
    (s.after jobs).options = s.options := by
  induction jobs generalizing s with
  | nil => rfl
  | cons job jobs ih =>
    calc
      (s.after (job :: jobs)).options = (s.synthesize job.1 job.2).1.options := ih _
      _ = s.options := options_synthesize s job.1 job.2

/-- **A synthesizer carries nothing over.** Whatever is left in it at the start and stays behind
after each tree, be the tree written, given up midway or empty, every output of a session is that
of a synthesizer of its own, and the session leaves the synthesizer as its last tree alone
would. -/
theorem outputs_eq_map (s : Synthesizer) (jobs : List (MappedTree × String)) (tree : MappedTree)
    (name : String) :
    s.outputs jobs = jobs.map (fun job => Synthesis.synthesize s.options job.1 job.2) ∧
      s.after (jobs ++ [(tree, name)]) = ((ofOptions s.options).synthesize tree name).1 := by
  constructor
  · induction jobs generalizing s with
    | nil => rfl
    | cons job jobs ih =>
      have hfirst : (s.synthesize job.1 job.2).2 = Synthesis.synthesize s.options job.1 job.2 :=
        congrArg Prod.snd (synthesize_eq_ofOptions s job.1 job.2)
      have hlater := ih (s.synthesize job.1 job.2).1
      rw [options_synthesize] at hlater
      rw [List.map_cons, ← hfirst, ← hlater]
      rfl
  · have hlast : s.after (jobs ++ [(tree, name)]) = ((s.after jobs).synthesize tree name).1 :=
      after_append s jobs _
    rw [hlast, synthesize_eq_ofOptions, options_after]

end DesignCompiler.Synthesis.Synthesizer
