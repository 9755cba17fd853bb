import DesignCompiler.Proofs.Markup.Openings

/-!
# Recorded elements

An element is recorded where its opening tag ends, behind all that were recorded before it.
`Reading.recorded` has the elements that were recorded so far, by their tags and lines, and
`Reading.openIndices` the elements whose children are read, with the index under which each was
recorded.

`records_turn` is the step: a turn adds one element at the end or none, and an element whose
children it comes to gets the index that the end had before. So the recorded elements only grow
(`grows_run`), and an index that is in use is that of the element that it was given to
(`getElem?_recordedIn`).
-/

namespace DesignCompiler.Markup

/-- The elements that were recorded in loops, in the order in which their opening tags ended; the
innermost loop comes first, and the script text of the source is the outermost one. -/
def recordedIn : List Loop → List (String × Nat)
  | [] => []
  | .script none _ found :: _ => found.marks
  | .script (some _) _ found :: outer => recordedIn outer ++ found.marks
  | .attributes opening :: outer => recordedIn outer ++ opening.found.marks
  | .children opening _ found :: outer =>
    recordedIn outer ++ opening.found.marks ++ (opening.tag, opening.line) :: found.marks

/-- The elements whose children are read, the innermost first, each with the number of elements
that were recorded before it. -/
def indicesIn : List Loop → List (Nat × (String × Nat))
  | [] => []
  | .script none _ _ :: _ => []
  | .script (some _) _ _ :: outer => indicesIn outer
  | .attributes _ :: outer => indicesIn outer
  | .children opening _ _ :: outer =>
    ((recordedIn outer ++ opening.found.marks).length, (opening.tag, opening.line)) ::
      indicesIn outer

namespace Reading

/-- The elements that were recorded so far, by their tags and lines. -/
def recorded (s : Reading) : List (String × Nat) :=
  recordedIn (s.loop :: s.outer)

/-- The elements whose children are read, the innermost first, with their indices among the
recorded ones. -/
def openIndices (s : Reading) : List (Nat × (String × Nat)) :=
  indicesIn (s.loop :: s.outer)

end Reading

section Loops

variable (found : Findings) (loop : Loop) (outer : List Loop)

theorem recordedIn_takeElement :
    recordedIn (loop.takeElement found :: outer) = recordedIn (loop :: outer) ++ found.marks := by
  cases loop with
  | script expression => cases expression <;> simp [Loop.takeElement, recordedIn]
  | attributes | children => simp [Loop.takeElement, recordedIn]

theorem recordedIn_takeExpression (e : Expression) (text : List Char) :
    recordedIn (loop.takeExpression e text found :: outer) =
      recordedIn (loop :: outer) ++ found.marks := by
  cases loop with
  | script expression => cases expression <;> simp [Loop.takeExpression, recordedIn]
  | attributes | children => simp [Loop.takeExpression, recordedIn, Opening.add]

theorem indicesIn_takeElement :
    indicesIn (loop.takeElement found :: outer) = indicesIn (loop :: outer) := by
  cases loop with
  | script expression => cases expression <;> rfl
  | attributes | children => rfl

theorem indicesIn_takeExpression (e : Expression) (text : List Char) :
    indicesIn (loop.takeExpression e text found :: outer) = indicesIn (loop :: outer) := by
  cases loop with
  | script expression => cases expression <;> rfl
  | attributes | children => rfl

end Loops

/-- An index that is in use is that of a recorded element. -/
theorem getElem?_recordedIn {loops : List Loop} {index : Nat} {mark : String × Nat}
    (h : (index, mark) ∈ indicesIn loops) : (recordedIn loops)[index]? = some mark := by
  -- what is recorded further in stands behind
  have hbehind {earlier later : List (String × Nat)} (h : earlier[index]? = some mark) :
      (earlier ++ later)[index]? = some mark := by
    obtain ⟨hlt, hget⟩ := List.getElem?_eq_some_iff.1 h
    rw [List.getElem?_append_left hlt, h]
  induction loops with
  | nil => cases h
  | cons loop outer ih =>
    cases loop with
    | script expression depth found =>
      cases expression with
      | none => cases h
      | some e => exact hbehind (ih h)
    | attributes opening => exact hbehind (ih h)
    | children opening inside found =>
      rcases List.mem_cons.1 h with hown | houter
      · cases hown
        rw [recordedIn, List.getElem?_append_right (Nat.le_refl _), Nat.sub_self]
        rfl
      · rw [recordedIn, List.append_assoc]
        exact hbehind (ih houter)

/-! ## One turn -/

/-- What a turn does to the recorded elements and to those whose children are read. -/
inductive Records (s : Reading) : Turn → Prop where
  | failed (reason : Anomaly) : Records s (.ended (.error reason))
  | done {found : Findings} (hfound : s.recorded <+: found.marks) : Records s (.ended (.ok found))
  | keeps {next : Reading} (hrecorded : next.recorded = s.recorded)
    (hindices : next.openIndices = s.openIndices) :
    Records s (.goesOn next)
  /-- An element without children is recorded. -/
  | adds {next : Reading} (mark : String × Nat) (hrecorded : next.recorded = s.recorded ++ [mark])
    (hindices : next.openIndices = s.openIndices) : Records s (.goesOn next)
  /-- An element is recorded, and its children are read. -/
  | opens {next : Reading} (mark : String × Nat)
    (hrecorded : next.recorded = s.recorded ++ [mark])
    (hindices : next.openIndices = (s.recorded.length, mark) :: s.openIndices) :
    Records s (.goesOn next)
  /-- The children of the innermost element are left. -/
  | leaves {next : Reading} (entry : Nat × (String × Nat))
    (hrecorded : next.recorded = s.recorded)
    (hindices : s.openIndices = entry :: next.openIndices) : Records s (.goesOn next)

section Turns

variable {limit : Nat} {s next : Reading} {t : Turn}

/-- **One turn** records at most one element, behind the others. -/
theorem records_of_stepsTo (h : s.StepsTo limit t) : Records s t := by
  cases h with
  | failed => exact .failed _
  | done c depth found outer => exact .done (List.prefix_refl _)
  | script c stop expression depth depth' found outer => cases expression <;> exact .keeps rfl rfl
  | addAttribute | text => exact .keeps rfl rfl
  | stray => exact .keeps (by simp [Reading.recorded, recordedIn]) rfl
  | enterElement hopens =>
    unfold Turn.enterElement
    split
    · exact .failed _
    · exact .keeps (List.append_nil _) rfl
  | enterExpression e => exact .keeps (List.append_nil _) rfl
  | openTag c stop opening outer => exact .opens (opening.tag, opening.line) rfl rfl
  | leaveExpression c stop e found outer =>
    cases outer with
    | nil => exact .done (List.prefix_refl _)
    | cons loop outer =>
      exact .keeps (recordedIn_takeExpression found loop outer e _)
        (indicesIn_takeExpression found loop outer e _)
  | selfClose c stop opening outer =>
    have hmarks :
        (opening.found ++ .element
          (.bare opening.tag opening.attributes opening.line (openTags outer)
            true)).marks = opening.found.marks ++ [(opening.tag, opening.line)] := by
      simp [Element.mark, Element.bare]
    cases outer with
    | nil => exact .done ⟨[(opening.tag, opening.line)], hmarks.symm⟩
    | cons loop outer =>
      refine .adds (opening.tag, opening.line) ?_ (indicesIn_takeElement _ loop outer)
      refine (recordedIn_takeElement _ loop outer).trans ?_
      rw [hmarks, ← List.append_assoc]
      rfl
  | leaveChildren c stop opening inside inside' found outer =>
    have hmarks :
        (opening.found ++ .element
          ((Element.bare opening.tag opening.attributes opening.line (openTags outer)
            false).filled inside') ++ found ++
          .missingClose inside' opening.tag opening.line).marks =
            opening.found.marks ++ (opening.tag, opening.line) :: found.marks := by
      simp [Element.mark, Element.filled, Element.bare]
    cases outer with
    | nil => exact .done (by rw [hmarks]; exact List.prefix_refl _)
    | cons loop outer =>
      refine .leaves _ ?_ (congrArg _ (indicesIn_takeElement _ loop outer).symm)
      refine (recordedIn_takeElement _ loop outer).trans ?_
      rw [hmarks, ← List.append_assoc]
      rfl

theorem records_turn (limit : Nat) (s : Reading) : Records s (s.turn limit) :=
  records_of_stepsTo (stepsTo_turn limit s)

/-- What was recorded stays, under the same index. -/
theorem Records.grows (h : Records s (.goesOn next)) : s.recorded <+: next.recorded := by
  cases h with
  | keeps hrecorded | leaves _ hrecorded => exact hrecorded ▸ List.prefix_refl _
  | adds mark hrecorded | opens mark hrecorded => exact hrecorded ▸ List.prefix_append _ _

end Turns

/-! ## Whole runs -/

/-- A scan that comes to an end has found what was recorded on its way, at the same indices. -/
theorem Reading.grows_run {limit : Nat} {s : Reading} {found : Findings}
    (h : s.run limit = .ok found) :
    s.recorded <+: found.marks := by
  induction hpotential : s.potential using Nat.strongRecOn generalizing s with
  | ind m ih =>
    subst hpotential
    have hrecords := records_turn limit s
    rw [run_eq] at h
    cases hturn : s.turn limit with
    | ended result =>
      rw [hturn] at h hrecords
      obtain rfl : result = .ok found := h
      cases hrecords with
      | done hfound => exact hfound
    | goesOn next =>
      rw [hturn] at h hrecords
      exact hrecords.grows.trans (ih next.potential (potential_lt hturn) h rfl)

/-- The turns behind a turn come to the same result. -/
theorem Reading.run_of_becomes {limit : Nat} {s next : Reading}
    (h : (Turn.goesOn s).Becomes limit (.goesOn next)) :
    next.run limit = s.run limit :=
  h.result_eq.symm

end DesignCompiler.Markup
