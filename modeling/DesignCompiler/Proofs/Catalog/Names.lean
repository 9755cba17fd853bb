import DesignCompiler.Catalog.Entry
import DesignCompiler.Markup.Element
import DesignCompiler.Proofs.Markup.Scanning
import DesignCompiler.Proofs.Text.Words

/-!
# Names of components

A valid name of a component is one that is made of identifiers with dots between them
(`isComponentName_iff`). It is read back as a tag, and its first segment is an identifier that
starts with a capital.
-/

namespace DesignCompiler.Catalog

open Markup (IsTag isTagChar)

/-- A segment of a name starts with a capital and has only ASCII letters and digits in it. -/
theorem isNameSegment_eq_true {s : List Char} (h : isNameSegment s = true) :
    ∃ c rest, s = c :: rest ∧ c.isUpper = true ∧ ∀ d ∈ s, d.isAlphanum = true := by
  cases s with
  | nil => cases h
  | cons c rest =>
    simp only [isNameSegment, Bool.and_eq_true, List.all_eq_true] at h
    obtain ⟨hupper, hrest⟩ := h
    refine ⟨c, rest, rfl, hupper, ?_⟩
    intro d hd
    rcases List.mem_cons.1 hd with rfl | hd
    · exact Text.isAlphanum_of_isUpper hupper
    · exact hrest d hd

/-! ## Dotted names -/

/-- The name is made of these segments with dots between them, and each is an ASCII identifier
that starts with a capital. -/
structure IsDottedName (name : String) (segments : List String) : Prop where
  joined : name = ".".intercalate segments
  nonempty : segments ≠ []
  capital : ∀ s ∈ segments,
    ∃ c rest, s.toList = c :: rest ∧ c.isUpper = true ∧ ∀ d ∈ rest, d.isAlphanum = true

section Names

variable {name : String} {segments : List String}

/-- The segments of a dotted name are the pieces between its dots. -/
theorem IsDottedName.splitAt_eq (h : IsDottedName name segments) :
    Text.splitAt '.' name.toList = segments.map String.toList := by
  rw [h.joined, Text.toList_intercalate]
  refine Text.splitAt_joinWith (by simpa using h.nonempty) ?_
  intro piece hpiece hdot
  obtain ⟨s, hs, rfl⟩ := List.mem_map.1 hpiece
  obtain ⟨c, rest, hchars, hupper, hrest⟩ := h.capital s hs
  rw [hchars] at hdot
  rcases List.mem_cons.1 hdot with rfl | hdot
  · exact absurd hupper (by decide)
  · exact absurd (hrest '.' hdot) (by decide)

theorem IsDottedName.isComponentName (h : IsDottedName name segments) :
    isComponentName name = true := by
  unfold Catalog.isComponentName
  rw [h.splitAt_eq, List.all_map, List.all_eq_true]
  intro s hs
  obtain ⟨c, rest, hchars, hupper, hrest⟩ := h.capital s hs
  show isNameSegment s.toList = true
  rw [hchars, isNameSegment, hupper, List.all_eq_true.2 hrest]
  rfl

/-- The first segment of a dotted name is the binding that it stands for. -/
theorem IsDottedName.head?_eq (h : IsDottedName name segments) :
    segments.head? = some (rootSegment name) := by
  unfold rootSegment
  rw [h.splitAt_eq]
  cases segments with
  | nil => exact absurd rfl h.nonempty
  | cons first rest => simp

/-- A valid name is a dotted name. -/
theorem exists_isDottedName (h : isComponentName name = true) :
    ∃ segments, IsDottedName name segments := by
  unfold isComponentName at h
  refine ⟨(Text.splitAt '.' name.toList).map String.ofList, ?_, ?_, ?_⟩
  · rw [← String.toList_inj, Text.toList_intercalate, List.map_map]
    have hpieces :
        (Text.splitAt '.' name.toList).map (String.toList ∘ String.ofList) =
          Text.splitAt '.' name.toList := by
      simp
    rw [hpieces]
    exact (Text.joinWith_splitAt '.' name.toList).symm
  · intro hnil
    exact Text.splitWhere_ne_nil _ _ (List.map_eq_nil_iff.1 hnil)
  · intro s hs
    obtain ⟨piece, hpiece, rfl⟩ := List.mem_map.1 hs
    obtain ⟨c, rest, hchars, hupper, halnum⟩ :=
      isNameSegment_eq_true (List.all_eq_true.1 h piece hpiece)
    refine ⟨c, rest, by rw [String.toList_ofList, hchars], hupper, ?_⟩
    intro d hd
    exact halnum d (hchars ▸ List.mem_cons_of_mem c hd)

theorem isComponentName_iff :
    isComponentName name = true ↔ ∃ segments, IsDottedName name segments := by
  constructor
  · exact exists_isDottedName
  · intro ⟨segments, hname⟩
    exact hname.isComponentName

/-- A valid name consists of ASCII letters, digits and dots. -/
theorem alphanum_or_dot_of_mem (h : isComponentName name = true) {c : Char}
    (hc : c ∈ name.toList) :
    c.isAlphanum = true ∨ c = '.' := by
  unfold isComponentName at h
  rcases Text.mem_splitWhere (p := (· == '.')) hc with hdot | ⟨piece, hpiece, hmem⟩
  · exact .inr (beq_iff_eq.1 hdot)
  · obtain ⟨_, _, _, _, halnum⟩ := isNameSegment_eq_true (List.all_eq_true.1 h piece hpiece)
    exact .inl (halnum c hmem)

/-- The first segment of a name is the text in front of its first dot. -/
theorem rootSegment_eq (name : String) :
    rootSegment name = String.ofList (name.toList.takeWhile (· != '.')) := by
  unfold rootSegment Text.splitAt
  rw [Text.head?_splitWhere]
  rfl

/-- The first segment of a valid name is a segment. -/
theorem isNameSegment_rootSegment (h : isComponentName name = true) :
    isNameSegment (rootSegment name).toList = true := by
  unfold isComponentName at h
  unfold rootSegment
  rw [String.toList_ofList]
  cases hpieces : Text.splitAt '.' name.toList with
  | nil => exact absurd hpieces (Text.splitWhere_ne_nil _ _)
  | cons first pieces =>
    rw [hpieces, List.all_cons, Bool.and_eq_true] at h
    exact h.1

/-- A valid name starts with its first segment. -/
theorem toList_eq_rootSegment_append (name : String) :
    name.toList = (rootSegment name).toList ++ name.toList.dropWhile (· != '.') := by
  rw [rootSegment_eq, String.toList_ofList, List.takeWhile_append_dropWhile]

/-- A valid name is read back as a tag. -/
theorem isTag_of_isComponentName (h : isComponentName name = true) : IsTag name.toList := by
  obtain ⟨c, rest, hroot, -, -⟩ := isNameSegment_eq_true (isNameSegment_rootSegment h)
  refine ⟨?_, ?_⟩
  · rw [toList_eq_rootSegment_append, hroot]
    exact List.cons_ne_nil _ _
  · intro ch hch
    rcases alphanum_or_dot_of_mem h hch with halnum | rfl
    · exact Markup.isTagChar_of_isNameChar (Text.isNameChar_of_isAlphanum halnum)
    · decide

end Names

end DesignCompiler.Catalog
