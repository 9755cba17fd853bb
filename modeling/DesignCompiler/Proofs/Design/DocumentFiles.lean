import DesignCompiler.Design.Reference
import DesignCompiler.Proofs.Files.Paths

/-!
# Documents in files of their own

A document file is converted through a reference: its name without the extension is the key, and
the document of a key is looked for under the key with `.json` behind it. An inspection opens the
path itself. `sameFile_pathIn_iff` says for which paths both come to the same file: those with
this very extension, and no others.
-/

namespace DesignCompiler.Design.Reference

open Files (isAbsolute fileName? extension? splitExtension steps isStep EndsInName Tree)

/-- The paths have the same components, and both start at the root or neither does. Slashes that
are repeated or stand at the end make no other file, and neither do single dots. -/
def SameFile (path other : String) : Prop :=
  isAbsolute path = isAbsolute other ∧ Tree.components path = Tree.components other

instance (path other : String) : Decidable (SameFile path other) :=
  inferInstanceAs (Decidable (_ ∧ _))

theorem sameFile_iff {path other : String} :
    SameFile path other ↔ isAbsolute path = isAbsolute other ∧
      steps path.toList = steps other.toList := by
  unfold SameFile
  rw [Files.components_eq, Files.components_eq,
    List.map_inj_right fun _ _ => String.ofList_injective]

section File

variable {path directory name : String} {reference : Reference}

theorem fileName?_eq_some (h : fileName? path = some name) :
    ∃ lead before, Files.splitName? path = some (lead, before, name.toList) := by
  unfold fileName? at h
  split at h
  · rename_i lead before last hsplit
    split at h
    · cases h
    · cases h
      exact ⟨lead, before, by rw [hsplit, String.toList_ofList]⟩
  · cases h

/-- A path to a document is its directory with the name behind it, and the key is the stem of the
name. -/
theorem exists_name_of_ofFile (h : ofFile path = .ok (directory, reference)) :
    ∃ name, '/' ∉ name.toList ∧ steps path.toList = steps directory.toList ++ [name.toList] ∧
      isAbsolute path = isAbsolute directory ∧ reference.key = (splitExtension name).1 ∧
      extension? path = (splitExtension name).2 := by
  unfold ofFile at h
  split at h
  · rename_i stem hstem
    cases h
    obtain ⟨name, hname, rfl⟩ := Option.map_eq_some_iff.1 hstem
    obtain ⟨lead, before, hsplit⟩ := fileName?_eq_some hname
    have hcut := Files.isCut_of_splitName? hsplit
    have hparent : (Files.parent path).toList = lead ++ (Files.trimBackwards before).reverse := by
      unfold Files.parent
      rw [hsplit, String.toList_ofList]
    refine ⟨name, hcut.slash_not_mem, ?_, ?_, rfl, ?_⟩
    · rw [hparent, hcut.steps_eq]
    · rw [hcut.isAbsolute_eq, ← hparent, String.ofList_toList]
    · unfold extension?
      rw [hname, Option.bind_some]
  · cases h

/-- The file of a stem is one component. -/
theorem isStep_stem (hslash : '/' ∉ name.toList) :
    '/' ∉ ((splitExtension name).1 ++ ".json").toList ∧
      isStep ((splitExtension name).1 ++ ".json").toList = true := by
  rw [String.toList_append]
  constructor
  · intro hmem
    rcases List.mem_append.1 hmem with hstem | hjson
    · rcases Files.splitExtension_cases name with hnone | ⟨stem, extension, hsome, hname⟩
      · rw [hnone] at hstem
        exact hslash hstem
      · rw [hsome] at hstem
        rw [hname, String.toList_append] at hslash
        exact hslash (List.mem_append_left _ hstem)
    · exact absurd hjson (by decide)
  · have hlength : ['.'].length < ((splitExtension name).1.toList ++ ".json".toList).length := by
      rw [List.length_append]
      have hjson : ".json".toList.length = 5 := rfl
      simp only [List.length_singleton, hjson]
      omega
    unfold isStep
    rw [Bool.and_eq_true, Bool.not_eq_true', bne_iff_ne, List.isEmpty_eq_false_iff]
    constructor
    · intro hnil
      rw [hnil] at hlength
      cases hlength
    · intro hdot
      rw [hdot] at hlength
      exact absurd hlength (Nat.lt_irrefl _)

/-- **A document is found under its reference exactly if its file has the extension `json`.** The
path that the reference stands for in the directory has the components of the document's own path
in this case, and other ones in every other case. In this case converting the document and opening
its path come to the same text, whatever files there are, and to the same failure if the path ends
in the name of the file. -/
theorem sameFile_pathIn_iff (h : ofFile path = .ok (directory, reference)) :
    (SameFile (reference.pathIn directory) path ↔ extension? path = some "json") ∧
    (extension? path = some "json" → ∀ t : Tree,
      (∀ text, t.read path = .ok text → t.read (reference.pathIn directory) = .ok text) ∧
        (EndsInName path → t.read (reference.pathIn directory) = t.read path)) := by
  obtain ⟨name, hslash, hsteps, habsolute, hkey, hextension⟩ := exists_name_of_ofFile h
  obtain ⟨hfileSlash, hfileStep⟩ := isStep_stem hslash
  have hrelative : isAbsolute (reference.key ++ ".json") = false := by
    unfold isAbsolute
    rw [hkey, beq_eq_false_iff_ne]
    intro hhead
    exact hfileSlash (List.mem_of_head? hhead)
  have hjoined : steps (reference.pathIn directory).toList =
      steps directory.toList ++ [((splitExtension name).1 ++ ".json").toList] := by
    unfold pathIn
    rw [Files.steps_join hrelative, hkey, Files.steps_of_name hfileSlash hfileStep]
  have hjoinedAbsolute : isAbsolute (reference.pathIn directory) = isAbsolute path := by
    unfold pathIn
    rw [Files.isAbsolute_join hrelative, habsolute]
  have hsame : SameFile (reference.pathIn directory) path ↔ extension? path = some "json" := by
    rw [sameFile_iff, hjoined, hsteps, hjoinedAbsolute, hextension,
      ← Files.append_splitExtension_iff]
    simp only [true_and, List.append_cancel_left_eq, List.cons.injEq, and_true, String.toList_inj]
    rfl
  have hends : EndsInName (reference.pathIn directory) := by
    obtain ⟨front, hfront, hopen, -⟩ := Files.exists_join_eq directory hrelative
    rw [hkey] at hfront
    exact hopen.endsInName (by unfold pathIn; rw [hkey]; exact hfront) hfileSlash hfileStep
  refine ⟨hsame, ?_⟩
  intro hjson t
  obtain ⟨_, hequal⟩ := sameFile_iff.1 (hsame.2 hjson)
  have hread (hname : EndsInName path) : t.read (reference.pathIn directory) = t.read path := by
    unfold Tree.read
    rw [t.place_congr hjoinedAbsolute hequal hends hname]
  constructor
  · intro text htext
    rw [hread (Tree.endsInName_of_read htext), htext]
  · exact hread

end File

/-- Of several dots in a name only the last one starts the extension. -/
theorem sameFile_pathIn_dotted :
    ofFile "./exports//checkout.v2.json" = .ok ("./exports", ⟨"checkout.v2", none⟩) ∧
      SameFile (pathIn "./exports" ⟨"checkout.v2", none⟩) "./exports//checkout.v2.json" ∧
      ∀ t : Tree, t.read (pathIn "./exports" ⟨"checkout.v2", none⟩) =
        t.read "./exports//checkout.v2.json" := by
  have hfile : ofFile "./exports//checkout.v2.json" =
      .ok ("./exports", ⟨"checkout.v2", none⟩) := by decide
  have hjson : extension? "./exports//checkout.v2.json" = some "json" := by decide
  obtain ⟨hsame, hread⟩ := sameFile_pathIn_iff hfile
  refine ⟨hfile, hsame.2 hjson, ?_⟩
  intro t
  exact (hread hjson t).2 ⟨"checkout.v2.json".toList, by decide, by decide⟩

/-- A document with another extension is inspected, but the one that is converted stands in
another file. -/
theorem not_sameFile_pathIn_text :
    ofFile "doc.txt" = .ok ("", ⟨"doc", none⟩) ∧ ¬ SameFile (pathIn "" ⟨"doc", none⟩) "doc.txt" ∧
      ((Tree.empty.addFile ["doc.txt"] "inspected").addFile ["doc.json"] "converted").read
        "doc.txt" =
        .ok "inspected" ∧
      ((Tree.empty.addFile ["doc.txt"] "inspected").addFile ["doc.json"] "converted").read
        (pathIn "" ⟨"doc", none⟩) = .ok "converted" := by
  decide

end DesignCompiler.Design.Reference
