import DesignCompiler.Catalog.File
import DesignCompiler.Proofs.Catalog.Lookups
import DesignCompiler.Proofs.KeyMap

/-!
# Listed and found components

A source lists its components in one place and defines them in another. `Source.Lists` says that
the two agree; they do for the built-in components, whose names and definitions are tables of
their own, and for every catalog file, which lays its definitions over them. What is found is then
what is listed under a valid name (`Source.exists_entry?_iff`), and `Entry.Describes` is what the
entry says about the name. `listing_agrees` puts this together for the catalogs that there are and
for any state of the cache.
-/

namespace DesignCompiler.Catalog

/-! ## Sources -/

/-- A source lists exactly the names that it defines. -/
def Source.Lists (s : Source) : Prop :=
  ∀ name, (s.definition? name).isSome = true ↔ name ∈ s.names

theorem lists_builtinSource : builtinSource.Lists := by
  intro name
  show ((builtinTable.lookup name).map _).isSome = true ↔ name ∈ builtinNames
  rw [Option.isSome_map, KeyMap.isSome_lookup_iff]
  have hnames : builtinTable.map (·.1) = builtinNames := by decide
  rw [hnames]

/-- The definitions of a file shadow the built-in ones. -/
theorem File.definition?_source (f : File) (name : String) :
    f.source.definition? name =
      (f.components.find? name).or
        (if f.extendsBuiltin then builtinSource.definition? name else none) := by
  unfold File.source
  cases hfile : f.components.find? name <;> simp [hfile]

theorem File.lists_source (f : File) : f.source.Lists := by
  intro name
  have hnames : f.source.names =
      f.components.keys ++ if f.extendsBuiltin then builtinSource.names else [] := rfl
  rw [f.definition?_source, Option.isSome_or, Bool.or_eq_true, hnames, List.mem_append,
    KeyMap.isSome_find?_iff]
  cases f.extendsBuiltin with
  | false => simp
  | true =>
    simp only [if_true]
    rw [lists_builtinSource name]

/-- A name is found if it is listed and valid. -/
theorem Source.exists_entry?_iff {s : Source} (h : s.Lists) (name : String) :
    (∃ entry, s.entry? name = some entry) ↔
      name ∈ s.names ∧ ∃ segments, IsDottedName name segments := by
  rw [← h name, ← isComponentName_iff]
  unfold Source.entry? Entry.ofDefinition?
  cases s.definition? name with
  | none => simp
  | some d =>
    cases isComponentName name with
    | false => simp
    | true => simp

/-! ## Entries -/

/-- What the entry says about the name that it is found under. -/
structure Entry.Describes (entry : Entry) (name : String) : Prop where
  name_eq : entry.name = name
  /-- The binding is the first segment of the name. -/
  binding : ∃ segments, IsDottedName name segments ∧ segments.head? = some entry.importName
  statement : entry.importStatement =
    "import \x7b " ++ entry.importName ++ " \x7d from '" ++ entry.module ++ "';"
  examples : 1 ≤ entry.examples.length ∧ entry.examples.length ≤ maxExamples

theorem length_completeExamples (name : String) (examples : List String) :
    1 ≤ (completeExamples name examples).length ∧
      (completeExamples name examples).length ≤ maxExamples := by
  have hlength : (examples.take maxExamples).length ≤ maxExamples :=
    List.length_take_le maxExamples examples
  unfold completeExamples
  cases hfirst : examples.take maxExamples with
  | nil => simp [maxExamples]
  | cons first rest =>
    rw [hfirst] at hlength
    exact ⟨Nat.succ_pos rest.length, hlength⟩

theorem describes_of_ofDefinition? {name : String} {d : Definition} {entry : Entry}
    (h : Entry.ofDefinition? name d = some entry) : entry.Describes name := by
  unfold Entry.ofDefinition? at h
  split at h
  · rename_i hname
    cases h
    obtain ⟨segments, hsegments⟩ := exists_isDottedName hname
    exact ⟨rfl, ⟨segments, hsegments, hsegments.head?_eq⟩, rfl,
      length_completeExamples name d.examples⟩
  · cases h

/-! ## Catalogs -/

/-- The index of a catalog is that of a source that lists what it defines. -/
theorem exists_source_of_indexOf {text : Option String} {i : Index} (h : indexOf text = .ok i) :
    ∃ source, i = .ofSource source ∧ source.Lists ∧
      ∀ contents, text = some contents → ∀ file, File.read contents = .ok file →
        source = file.source := by
  cases text with
  | none =>
    cases h
    exact ⟨builtinSource, rfl, lists_builtinSource, fun _ h => nomatch h⟩
  | some contents =>
    have hmap : (File.read contents).map (fun file => Index.ofSource file.source) = .ok i := h
    cases hfile : File.read contents with
    | error failure =>
      rw [hfile] at hmap
      cases hmap
    | ok file =>
      rw [hfile] at hmap
      cases hmap
      refine ⟨file.source, rfl, file.lists_source, ?_⟩
      intro _ heq other hother
      cases heq
      rw [hfile] at hother
      cases hother
      rfl

/-- **Listing and looking up agree** in the catalog of the built-in components and in that of
every catalog file, also after other look-ups. The names are listed in strictly ascending order. A
name is found exactly if it is listed and made of ASCII identifiers that start with a capital,
with dots between them, and what is found describes the name. A component of the file is found as
the file defines it, whether there is a built-in one of the name or not. -/
theorem listing_agrees {text : Option String} {i : Index} (h : indexOf text = .ok i)
    (used : List String) (name : String) :
    let index := i.afterLookups used
    index.componentNames.Pairwise (· < ·) ∧
    ((∃ entry, (index.get name).2 = some entry) ↔
      name ∈ index.componentNames ∧ ∃ segments, IsDottedName name segments) ∧
    (∀ entry, (index.get name).2 = some entry → entry.Describes name) ∧
    ∀ contents file d, text = some contents → File.read contents = .ok file →
      file.components.find? name = some d → (index.get name).2 = Entry.ofDefinition? name d := by
  obtain ⟨source, rfl, hlists, hsource⟩ := exists_source_of_indexOf h
  intro index
  have hget : (index.get name).2 = source.entry? name := by
    rw [Index.get_snd, Index.entry?_afterLookups]
  have hnames : index.componentNames = KeyMap.distinct source.names := by
    unfold Index.componentNames
    rw [Index.source_afterLookups]
    rfl
  rw [hget, hnames, KeyMap.mem_distinct]
  refine ⟨KeyMap.ascending_distinct source.names, Source.exists_entry?_iff hlists name, ?_, ?_⟩
  · intro entry hentry
    obtain ⟨d, -, hd⟩ := Option.bind_eq_some_iff.1 hentry
    exact describes_of_ofDefinition? hd
  · intro contents file d htext hfile hd
    rw [hsource contents htext file hfile]
    unfold Source.entry?
    rw [file.definition?_source, hd]
    rfl

/-- A catalog file that lays a form item of its own over the built-in one and has a component
without a valid name. -/
def acmeCatalog : String :=
  "\x7b \"module\": \"@acme/ui\", \"extendBuiltin\": true," ++
    " \"components\": \x7b \"Form.Item\": \x7b\x7d, \"bad name\": \x7b\x7d \x7d \x7d"

theorem read_acmeCatalog : ∃ file, File.read acmeCatalog = .ok file ∧
    file.components.find? "Form.Item" = some ⟨none, none, some "@acme/ui", [], []⟩ := by
  have hfound : (File.read acmeCatalog).toOption.map
      (fun file => file.components.find? "Form.Item") =
      some (some ⟨none, none, some "@acme/ui", [], []⟩) := by
    decide +kernel
  cases hfile : File.read acmeCatalog with
  | error failure =>
    rw [hfile] at hfound
    cases hfound
  | ok file =>
    rw [hfile] at hfound
    exact ⟨file, rfl, Option.some.inj hfound⟩

/-- The form item of the file is found without the properties of the built-in one, and the invalid
name is not found. -/
theorem listing_agrees_acmeCatalog :
    ∃ i, indexOf (some acmeCatalog) = .ok i ∧
      ((i.afterLookups ["Form.Item"]).get "Form.Item").2.map
        (fun e => (e.importStatement, e.properties)) =
        some ("import \x7b Form \x7d from '@acme/ui';", []) ∧
      ((i.afterLookups ["Form.Item"]).get "bad name").2 = none := by
  obtain ⟨file, hfile, hitem⟩ := read_acmeCatalog
  have hindex : indexOf (some acmeCatalog) = .ok (.ofSource file.source) := by
    show (File.read acmeCatalog).map (fun file => Index.ofSource file.source) = _
    rw [hfile]
    rfl
  refine ⟨.ofSource file.source, hindex, ?_, ?_⟩
  · obtain ⟨-, -, -, hshadows⟩ := listing_agrees hindex ["Form.Item"] "Form.Item"
    rw [hshadows acmeCatalog file _ rfl hfile hitem]
    decide +kernel
  · obtain ⟨-, hfound, -⟩ := listing_agrees hindex ["Form.Item"] "bad name"
    rw [Option.eq_none_iff_forall_ne_some]
    intro entry hentry
    have hname := isComponentName_iff.2 (hfound.1 ⟨entry, hentry⟩).2
    exact absurd hname (by decide)

end DesignCompiler.Catalog
