import DesignCompiler.Files.Tree
import DesignCompiler.Proofs.Text.Words

/-!
# Where paths lead

A path is followed piece by piece, and the pieces between its slashes that are empty or a single
dot do not count. The lemmas here work out the pieces that do count, the steps of a path:

* `isCut_of_splitName?`: the last component of a path is its last step, and its parent has the
  steps before.
* `steps_join`: a relative path that is joined to a directory goes on from the steps of the
  directory.
* `append_splitExtension_iff`: a name is its stem with an extension behind it only if this is its
  extension.
* `Tree.place_congr`: paths of the same steps lead to the same place, if they end in names.
-/

namespace DesignCompiler.Files

/-! ## Steps -/

/-- Whether a piece between slashes leads somewhere. -/
def isStep (piece : List Char) : Bool :=
  !piece.isEmpty && piece != ['.']

/-- The pieces between slashes that lead somewhere. -/
def steps (s : List Char) : List (List Char) :=
  (Text.splitAt '/' s).filter isStep

theorem isStep_eq (piece : List Char) :
    isStep piece = (String.ofList piece != "" && String.ofList piece != ".") := by
  have hempty : String.ofList piece = "" ↔ piece = [] := by
    rw [← String.toList_inj, String.toList_ofList]
    rfl
  have hdot : String.ofList piece = "." ↔ piece = ['.'] := by
    rw [← String.toList_inj, String.toList_ofList]
    rfl
  rw [Bool.eq_iff_iff]
  simp [isStep, hempty, hdot]

theorem components_eq (path : String) :
    Tree.components path = (steps path.toList).map String.ofList := by
  unfold Tree.components steps
  rw [List.filter_map]
  congr 1
  refine List.filter_congr ?_
  intro piece _
  exact (isStep_eq piece).symm

theorem steps_append_slash (s t : List Char) : steps (s ++ '/' :: t) = steps s ++ steps t := by
  unfold steps
  rw [Text.splitAt_append_cons, List.filter_append]

theorem steps_of_name {name : List Char} (hslash : '/' ∉ name) (hstep : isStep name = true) :
    steps name = [name] := by
  unfold steps
  rw [Text.splitAt_eq_self hslash, List.filter_cons_of_pos hstep, List.filter_nil]

/-- The text ends where a component starts. -/
def IsOpen (s : List Char) : Prop :=
  s = [] ∨ ∃ t, s = t ++ ['/']

theorem steps_concat_slash (s : List Char) : steps (s ++ ['/']) = steps s := by
  rw [steps_append_slash]
  exact List.append_nil _

theorem IsOpen.steps_append {s : List Char} (h : IsOpen s) (t : List Char) :
    steps (s ++ t) = steps s ++ steps t := by
  obtain rfl | ⟨s, rfl⟩ := h
  · rfl
  · rw [List.append_assoc, List.singleton_append, steps_append_slash, steps_concat_slash]

/-- What is trimmed at the end of a path leads nowhere. -/
theorem steps_trimBackwards {s b : List Char} (h : IsOpen s ∨ ∀ c ∈ b.getLast?, c = '/') :
    steps (s ++ (trimBackwards b).reverse) = steps (s ++ b.reverse) := by
  fun_induction trimBackwards b with
  | case1 rest ih =>
    have hrest : IsOpen s ∨ ∀ c ∈ rest.getLast?, c = '/' := by
      refine h.imp_right ?_
      intro hlast c hc
      exact hlast c (by rw [List.getLast?_cons, Option.mem_def.1 hc]; rfl)
    rw [ih hrest, List.reverse_cons, ← List.append_assoc, steps_concat_slash]
  | case2 rest ih =>
    have hrest : IsOpen s ∨ ∀ c ∈ rest.getLast?, c = '/' := by
      refine h.imp_right ?_
      intro hlast c hc
      exact hlast c (by rw [List.getLast?_cons, List.getLast?_cons, Option.mem_def.1 hc]; rfl)
    have hdot : steps (s ++ rest.reverse ++ '/' :: ['.']) = steps (s ++ rest.reverse) := by
      rw [steps_append_slash]
      exact List.append_nil _
    rw [ih hrest, ← hdot]
    simp
  | case3 =>
    rcases h with hopen | hlast
    · rw [hopen.steps_append, hopen.steps_append]
      rfl
    · exact absurd (hlast '.' rfl) (by decide)
  | case4 => rfl

/-! ## Taking paths apart -/

theorem trimBackwards_suffix (b : List Char) : trimBackwards b <:+ b := by
  fun_induction trimBackwards b with
  | case1 rest ih => exact ih.trans (List.suffix_cons '/' rest)
  | case2 rest ih => exact ih.trans ((List.suffix_cons '/' rest).trans (List.suffix_cons '.' _))
  | case3 => exact List.nil_suffix
  | case4 => exact List.suffix_rfl

theorem isStep_reverse (piece : List Char) : isStep piece.reverse = isStep piece := by
  unfold isStep
  rw [List.isEmpty_reverse, Bool.eq_iff_iff]
  simp [List.reverse_eq_iff]

/-- What trimming leaves ends in a component that counts. -/
theorem isStep_trimBackwards {b : List Char} (hne : trimBackwards b ≠ []) :
    isStep ((trimBackwards b).takeWhile (· != '/')) = true := by
  fun_induction trimBackwards b with
  | case1 rest ih => exact ih hne
  | case2 rest ih => exact ih hne
  | case3 => exact absurd rfl hne
  | case4 s hslash hdotSlash hdot =>
    cases s with
    | nil => exact absurd rfl hne
    | cons c rest =>
      have hc : (c != '/') = true := bne_iff_ne.2 fun h => hslash rest (h ▸ rfl)
      rw [List.takeWhile_cons, if_pos hc]
      -- a component that starts with a dot goes on behind it, or it would have been trimmed
      have hmore : c = '.' → rest.takeWhile (· != '/') ≠ [] := by
        rintro rfl hnil
        cases rest with
        | nil => exact hdot rfl
        | cons d rest =>
          by_cases hd : d = '/'
          · exact hdotSlash rest (hd ▸ rfl)
          · rw [List.takeWhile_cons, if_pos (bne_iff_ne.2 hd)] at hnil
            cases hnil
      unfold isStep
      simpa using hmore

/-- The lead is empty, or the text behind it starts a component. -/
theorem splitLead_spec (s : List Char) :
    (splitLead s).1 ++ (splitLead s).2 = s ∧
      (IsOpen (splitLead s).1 ∨ ∀ c ∈ (splitLead s).2.head?, c = '/') ∧
      ((splitLead s).1 = [] → ∀ c ∈ s.head?, c ≠ '/') := by
  unfold splitLead
  split
  · exact ⟨rfl, .inl (.inr ⟨[], rfl⟩), fun h => nomatch h⟩
  · exact ⟨rfl, .inr (by simp), fun h => nomatch h⟩
  · exact ⟨rfl, .inr (by simp), fun h => nomatch h⟩
  · rename_i hslash hdot hdotSlash
    refine ⟨rfl, .inl (.inl rfl), ?_⟩
    intro _ c hc heq
    cases s with
    | nil => cases hc
    | cons d rest =>
      cases hc
      exact hslash rest (heq ▸ rfl)

/-- What is to be known of a path that was cut before its last component. -/
structure IsCut (path : String) (lead before name : List Char) : Prop where
  slash_not_mem : '/' ∉ name
  isStep : isStep name = true
  /-- The component is the last step of the path, and the parent has the steps before it. -/
  steps_eq : steps path.toList = steps (lead ++ (trimBackwards before).reverse) ++ [name]
  isAbsolute_eq : isAbsolute path =
    isAbsolute (String.ofList (lead ++ (trimBackwards before).reverse))

theorem mem_getLast?_of_suffix {s t : List Char} (h : s <:+ t) {c : Char} (hc : c ∈ s.getLast?) :
    c ∈ t.getLast? := by
  obtain ⟨u, rfl⟩ := h
  rw [List.getLast?_append, Option.mem_def.1 hc]
  rfl

theorem splitName?_eq_some {path : String} {lead before name : List Char}
    (h : splitName? path = some (lead, before, name)) :
    ∃ body, splitLead path.toList = (lead, body) ∧ trimBackwards body.reverse ≠ [] ∧
      before = (trimBackwards body.reverse).dropWhile (· != '/') ∧
      name = ((trimBackwards body.reverse).takeWhile (· != '/')).reverse := by
  unfold splitName? at h
  cases hsplit : splitLead path.toList with
  | mk lead' body =>
    rw [hsplit] at h
    simp only at h
    split at h
    · cases h
    · rename_i hne
      cases h
      exact ⟨body, rfl, hne, rfl, rfl⟩

/-- What stands in front of the last component ends where a component starts. -/
theorem isOpen_before {lead s : List Char} (hne : s ≠ [])
    (h : IsOpen lead ∨ ∀ c ∈ s.getLast?, c = '/') :
    IsOpen (lead ++ (s.dropWhile (· != '/')).reverse) := by
  cases hdrop : s.dropWhile (· != '/') with
  | nil =>
    have hnone := List.dropWhile_eq_nil_iff.1 hdrop
    rcases h with hopen | hlast
    · rwa [List.reverse_nil, List.append_nil]
    · have hslash := hlast _ (List.getLast?_eq_some_getLast hne)
      have hnot := hnone _ (List.getLast_mem hne)
      rw [hslash] at hnot
      cases hnot
  | cons d more =>
    have hd : (d != '/') = false := by
      have hhead := List.head?_dropWhile_not (· != '/') s
      rw [hdrop] at hhead
      simpa using hhead
    refine .inr ⟨lead ++ more.reverse, ?_⟩
    rw [bne_eq_false_iff_eq] at hd
    rw [hd, List.reverse_cons, List.append_assoc]

/-- A start of a path is absolute with the path, unless the path is cut in front of its lead. -/
theorem isAbsolute_prefix {path : String} {lead body start : List Char}
    (happend : lead ++ body = path.toList)
    (hrelative : lead = [] → ∀ c ∈ path.toList.head?, c ≠ '/') (hstart : start <+: body) :
    isAbsolute path = isAbsolute (String.ofList (lead ++ start)) := by
  unfold isAbsolute
  rw [String.toList_ofList]
  cases lead with
  | cons c lead =>
    rw [← happend]
    rfl
  | nil =>
    obtain ⟨more, rfl⟩ := hstart
    cases start with
    | cons c start =>
      rw [← happend]
      rfl
    | nil =>
      have hhead : path.toList.head? ≠ some '/' := fun heq => hrelative rfl '/' heq rfl
      simpa using hhead

/-- Cutting a path gives its last step, and its parent has the steps before. -/
theorem isCut_of_splitName? {path : String} {lead before name : List Char}
    (h : splitName? path = some (lead, before, name)) : IsCut path lead before name := by
  obtain ⟨body, hsplit, hne, rfl, rfl⟩ := splitName?_eq_some h
  obtain ⟨happend, hmeets, hrelative⟩ := splitLead_spec path.toList
  rw [hsplit] at happend hmeets hrelative
  simp only at happend hmeets hrelative
  have hlast : IsOpen lead ∨ ∀ c ∈ body.reverse.getLast?, c = '/' := by
    rwa [List.getLast?_reverse]
  have hsteps : steps path.toList = steps (lead ++ (trimBackwards body.reverse).reverse) := by
    rw [steps_trimBackwards hlast, List.reverse_reverse, happend]
  have hstep : isStep ((trimBackwards body.reverse).takeWhile (· != '/')).reverse = true := by
    rw [isStep_reverse]
    exact isStep_trimBackwards hne
  have hsuffix := trimBackwards_suffix body.reverse
  generalize trimBackwards body.reverse = s at *
  have hbefore : s.dropWhile (· != '/') <:+ s := List.dropWhile_suffix _
  have hends {t : List Char} (ht : t <:+ body.reverse) :
      IsOpen lead ∨ ∀ c ∈ t.getLast?, c = '/' :=
    hlast.imp_right fun hall c hc => hall c (mem_getLast?_of_suffix ht hc)
  have hname : '/' ∉ (s.takeWhile (· != '/')).reverse := by
    intro hmem
    have hnot := List.mem_takeWhile_imp (List.mem_reverse.1 hmem)
    exact absurd hnot (by decide)
  refine ⟨hname, hstep, ?_, ?_⟩
  · calc
      steps path.toList = steps (lead ++ (s.dropWhile (· != '/')).reverse ++
          (s.takeWhile (· != '/')).reverse) := by
        rw [hsteps, List.append_assoc, ← List.reverse_append, List.takeWhile_append_dropWhile]
      _ = steps (lead ++ (s.dropWhile (· != '/')).reverse) ++
        [(s.takeWhile (· != '/')).reverse] := by
        rw [(isOpen_before hne (hends hsuffix)).steps_append, steps_of_name hname hstep]
      _ = _ := by
        rw [steps_trimBackwards (hends (hbefore.trans hsuffix))]
  · refine isAbsolute_prefix happend hrelative ?_
    have hparent := (trimBackwards_suffix (s.dropWhile (· != '/'))).trans (hbefore.trans hsuffix)
    simpa using List.reverse_prefix.2 hparent

/-! ## Putting paths together -/

section Join

variable {directory file : String}

/-- A relative path stands behind the directory that it is joined to, where a component starts. -/
theorem exists_join_eq (directory : String) (hfile : isAbsolute file = false) :
    ∃ front, (join directory file).toList = front ++ file.toList ∧ IsOpen front ∧
      steps front = steps directory.toList := by
  unfold join
  rw [hfile, Bool.false_or]
  split
  · rename_i hempty
    rw [String.isEmpty_iff.1 hempty]
    exact ⟨[], rfl, .inl rfl, rfl⟩
  · split
    · rename_i hslash
      obtain ⟨start, hstart⟩ := List.getLast?_eq_some_iff.1 (beq_iff_eq.1 hslash)
      exact ⟨directory.toList, String.toList_append, .inr ⟨start, hstart⟩, rfl⟩
    · refine ⟨directory.toList ++ ['/'], ?_, .inr ⟨_, rfl⟩, steps_concat_slash _⟩
      rw [String.toList_append, String.toList_append]
      rfl

theorem steps_join (hfile : isAbsolute file = false) :
    steps (join directory file).toList = steps directory.toList ++ steps file.toList := by
  obtain ⟨front, hjoin, hopen, hfront⟩ := exists_join_eq directory hfile
  rw [hjoin, hopen.steps_append, hfront]

theorem isAbsolute_join (hfile : isAbsolute file = false) :
    isAbsolute (join directory file) = isAbsolute directory := by
  unfold join
  rw [hfile, Bool.false_or]
  split
  · rename_i hempty
    rw [String.isEmpty_iff.1 hempty, hfile]
    rfl
  · rename_i hne
    have hdirectory : directory.toList ≠ [] := by simpa using hne
    obtain ⟨c, rest, hchars⟩ := List.exists_cons_of_ne_nil hdirectory
    unfold isAbsolute
    split <;> simp [String.toList_append, hchars]

end Join

/-! ## Extensions -/

/-- A name without an extension is its own stem, and any other is its stem, a dot and its
extension. -/
theorem splitExtension_cases (name : String) :
    splitExtension name = (name, none) ∨
      ∃ stem extension, splitExtension name = (stem, some extension) ∧
        name = stem ++ ("." ++ extension) := by
  unfold splitExtension
  simp only
  cases hdrop : name.toList.reverse.dropWhile (· != '.') with
  | nil => exact .inl rfl
  | cons d stem =>
    cases stem with
    | nil => exact .inl rfl
    | cons c stem =>
      refine .inr ⟨_, _, rfl, ?_⟩
      have hd : d = '.' := by
        have hhead := List.head?_dropWhile_not (· != '.') name.toList.reverse
        rw [hdrop] at hhead
        simpa using hhead
      have hwhole := List.takeWhile_append_dropWhile (p := (· != '.')) (l := name.toList.reverse)
      rw [hdrop, hd] at hwhole
      generalize name.toList.reverse.takeWhile (· != '.') = extension at hwhole
      have hname := congrArg List.reverse hwhole
      rw [List.reverse_reverse] at hname
      rw [← String.toList_inj, ← hname]
      simp

/-- A name is its stem with an extension behind it exactly if it has this extension. -/
theorem append_splitExtension_iff (name extension : String) :
    (splitExtension name).1 ++ ("." ++ extension) = name ↔
      (splitExtension name).2 = some extension := by
  rcases splitExtension_cases name with hnone | ⟨stem, own, hsome, hname⟩
  · rw [hnone]
    constructor
    · intro heq
      have hlength := congrArg String.length heq
      simp only [String.length_append] at hlength
      have hdot : ".".length = 1 := rfl
      omega
    · intro heq
      cases heq
  · rw [hsome, hname]
    constructor
    · intro heq
      exact congrArg some
        (String.append_right_inj _ |>.1 (String.append_right_inj _ |>.1 heq)).symm
    · intro heq
      cases heq
      rfl

/-! ## Places -/

/-- The path ends in a component, and not in a slash or in a single dot behind one. -/
def EndsInName (path : String) : Prop :=
  ∃ piece ∈ (Text.splitAt '/' path.toList).getLast?, isStep piece = true

theorem IsOpen.endsInName {front name : List Char} {path : String} (h : IsOpen front)
    (hpath : path.toList = front ++ name) (hslash : '/' ∉ name) (hstep : isStep name = true) :
    EndsInName path := by
  refine ⟨name, ?_, hstep⟩
  rw [hpath]
  obtain rfl | ⟨t, rfl⟩ := h
  · rw [List.nil_append, Text.splitAt_eq_self hslash]
    rfl
  · rw [List.append_assoc, List.singleton_append, Text.splitAt_append_cons,
      Text.splitAt_eq_self hslash, List.getLast?_concat]
    rfl

namespace Tree

/-- Following pieces is following those that lead somewhere, if the last one does. -/
theorem follow_filter (t : Tree) (here : List String) (pieces : List (List Char))
    (hlast : ∀ piece ∈ pieces.getLast?, isStep piece = true) :
    t.follow here (pieces.map String.ofList) =
      t.follow here ((pieces.filter isStep).map String.ofList) := by
  induction pieces generalizing here with
  | nil => rfl
  | cons piece rest ih =>
    have hrest : ∀ last ∈ rest.getLast?, isStep last = true := by
      intro last hmem
      exact hlast last (by rw [List.getLast?_cons, Option.mem_def.1 hmem]; rfl)
    have hblank : (String.ofList piece == "" || String.ofList piece == ".") = !isStep piece := by
      rw [isStep_eq, Bool.not_and, bne, bne, Bool.not_not, Bool.not_not]
    rw [List.map_cons]
    cases hstep : isStep piece with
    | false =>
      rw [follow, hblank, hstep, Bool.not_false, if_pos rfl,
        List.filter_cons_of_neg (by simp [hstep]), ih here hrest]
    | true =>
      -- whether more pieces follow is asked in front of a file
      have hempty : (rest.map String.ofList).isEmpty =
          ((rest.filter isStep).map String.ofList).isEmpty := by
        cases hend : rest.getLast? with
        | none =>
          rw [List.getLast?_eq_none_iff.1 hend]
          rfl
        | some last =>
          have hkept : last ∈ rest.filter isStep :=
            List.mem_filter.2 ⟨List.mem_of_getLast? hend, hrest last hend⟩
          have hmem : last ∈ rest := List.mem_of_getLast? hend
          rw [List.isEmpty_map, List.isEmpty_map,
            List.isEmpty_eq_false_iff.2 (List.ne_nil_of_mem hmem),
            List.isEmpty_eq_false_iff.2 (List.ne_nil_of_mem hkept)]
      rw [List.filter_cons_of_pos hstep, List.map_cons, follow, follow, hblank, hstep]
      simp only [hempty, ih _ hrest]

/-- A file is found only where the last piece leads somewhere. -/
theorem exists_isStep_of_follow {t : Tree} {here found : List String} {text : String}
    {pieces : List (List Char)}
    (h : t.follow here (pieces.map String.ofList) = .ok (.file found text)) :
    ∃ piece ∈ pieces.getLast?, isStep piece = true := by
  induction pieces generalizing here with
  | nil => cases h
  | cons piece rest ih =>
    have hlater (hrest : ∃ last ∈ rest.getLast?, isStep last = true) :
        ∃ last ∈ (piece :: rest).getLast?, isStep last = true := by
      obtain ⟨last, hmem, hstep⟩ := hrest
      exact ⟨last, by rw [List.getLast?_cons, Option.mem_def.1 hmem]; rfl, hstep⟩
    rw [List.map_cons, follow] at h
    split at h
    · exact hlater (ih h)
    · rename_i hblank
      split at h
      · split at h
        · cases h
        · exact hlater (ih h)
      · simp only at h
        split at h
        · exact hlater (ih h)
        · split at h
          · split at h
            · rename_i hempty
              have hnil : rest = [] := by simpa using hempty
              have hstep : isStep piece = true := by
                rw [isStep_eq]
                simpa using hblank
              exact ⟨piece, by rw [hnil]; rfl, hstep⟩
            · cases h
          · split at h <;> cases h

/-- A path that can be read ends in a name. -/
theorem endsInName_of_read {t : Tree} {path text : String} (h : t.read path = .ok text) :
    EndsInName path := by
  unfold read at h
  split at h
  · cases h
  · cases h
  · rename_i found text hplace
    unfold place at hplace
    split at hplace
    · cases hplace
    · exact exists_isStep_of_follow hplace
  · cases h

/-- Paths of the same steps lead to the same place, if they end in names. -/
theorem place_congr (t : Tree) {path other : String}
    (habsolute : isAbsolute path = isAbsolute other)
    (hsteps : steps path.toList = steps other.toList) (hpath : EndsInName path)
    (hother : EndsInName other) :
    t.place path = t.place other := by
  have hall {path : String} (h : EndsInName path) :
      ∀ piece ∈ (Text.splitAt '/' path.toList).getLast?, isStep piece = true := by
    obtain ⟨last, hlast, hstep⟩ := h
    intro piece hpiece
    rw [Option.mem_unique hpiece hlast]
    exact hstep
  have hne {path : String} (h : EndsInName path) : path.isEmpty = false := by
    rw [Bool.eq_false_iff]
    intro hempty
    rw [String.isEmpty_iff] at hempty
    subst hempty
    exact absurd (hall h [] rfl) (by decide)
  unfold place
  rw [hne hpath, hne hother, habsolute, follow_filter t [] _ (hall hpath),
    follow_filter t [] _ (hall hother)]
  unfold steps at hsteps
  rw [hsteps]

end Tree

end DesignCompiler.Files
