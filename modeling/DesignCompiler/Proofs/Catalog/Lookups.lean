import DesignCompiler.Catalog.Builtin
import DesignCompiler.Proofs.Catalog.Names

/-!
# Look-ups in a catalog

A cache only ever holds what its source says, so an index that starts empty and serves look-ups
finds in the end what its source has:

* `Index.Faithful` is the invariant of the cache, and `Index.faithful_get` says that a look-up
  keeps it.
* `Index.entry?_afterLookups` is the consequence for an index after any look-ups.
* `Source.entry?_eq_some` says what an entry has from its definition.
-/

namespace DesignCompiler.Catalog

/-! ## The cache -/

namespace Index

/-- Every cached entry is the one that the source has. -/
def Faithful (i : Index) : Prop :=
  ∀ name entry, i.cached? name = some entry → i.source.entry? name = some entry

theorem faithful_ofSource (source : Source) : (ofSource source).Faithful := by
  intro name entry hcached
  cases hcached

theorem source_store (i : Index) (name : String) (entry : Entry) :
    (i.store name entry).source = i.source := by
  unfold store
  split <;> rfl

theorem source_get (i : Index) (name : String) : (i.get name).1.source = i.source := by
  unfold get
  split
  · rfl
  · split
    · rfl
    · exact source_store i name _

/-- Storing the entry of the source keeps the cache faithful. -/
theorem faithful_store {i : Index} (h : i.Faithful) {name : String} {entry : Entry}
    (hentry : i.source.entry? name = some entry) : (i.store name entry).Faithful := by
  intro other found hcached
  rw [source_store]
  unfold store at hcached
  cases hname : i.cached? name with
  | some _ =>
    rw [hname] at hcached
    exact h other found hcached
  | none =>
    simp only [hname] at hcached
    unfold cached? at hcached
    by_cases heq : other = name
    · subst heq
      rw [List.lookup_cons_self] at hcached
      cases hcached
      exact hentry
    · have hbeq : (other == name) = false := beq_false_of_ne heq
      rw [List.lookup_cons, hbeq] at hcached
      exact h other found hcached

/-- A look-up keeps the cache faithful. -/
theorem faithful_get {i : Index} (h : i.Faithful) (name : String) : (i.get name).1.Faithful := by
  unfold get
  split
  · exact h
  · split
    · exact h
    · rename_i hentry
      exact faithful_store h hentry

theorem afterLookups_cons (i : Index) (name : String) (names : List String) :
    i.afterLookups (name :: names) = (i.get name).1.afterLookups names := rfl

theorem source_afterLookups (i : Index) (names : List String) :
    (i.afterLookups names).source = i.source := by
  induction names generalizing i with
  | nil => rfl
  | cons name names ih => rw [afterLookups_cons, ih, source_get]

theorem faithful_afterLookups {i : Index} (h : i.Faithful) (names : List String) :
    (i.afterLookups names).Faithful := by
  induction names generalizing i with
  | nil => exact h
  | cons name names ih =>
    rw [afterLookups_cons]
    exact ih (faithful_get h name)

theorem Faithful.entry?_eq {i : Index} (h : i.Faithful) (name : String) :
    i.entry? name = i.source.entry? name := by
  unfold entry?
  cases hcached : i.cached? name with
  | none => rw [Option.none_or]
  | some entry => rw [Option.some_or, h name entry hcached]

/-- An index finds what its source has, whatever was looked up before. -/
theorem entry?_afterLookups (source : Source) (names : List String) (name : String) :
    entry? ((ofSource source).afterLookups names) name = source.entry? name := by
  rw [(faithful_afterLookups (faithful_ofSource source) names).entry?_eq, source_afterLookups]
  rfl

end Index

/-! ## Entries -/

/-- The entry of a valid name has that name and its first segment as the binding, and the rest is
from the definition of the name. -/
theorem Source.entry?_eq_some {source : Source} {name : String} {entry : Entry}
    (h : source.entry? name = some entry) :
    ∃ d, source.definition? name = some d ∧ isComponentName name = true ∧ entry.name = name ∧
      entry.module = d.module.getD libraryModule ∧ entry.importName = rootSegment name ∧
      entry.properties = d.properties.map completeProperty := by
  obtain ⟨d, hd, hentry⟩ := Option.bind_eq_some_iff.1 h
  unfold Entry.ofDefinition? at hentry
  split at hentry
  · rename_i hname
    cases hentry
    exact ⟨d, hd, hname, rfl, rfl, rfl, rfl⟩
  · cases hentry

end DesignCompiler.Catalog
