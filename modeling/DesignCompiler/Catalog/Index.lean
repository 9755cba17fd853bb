import DesignCompiler.Catalog.Entry

/-!
# The catalog index

A source lists components and defines them; an index keeps the entries that were built from it. A
look-up is three steps: look into the cache, else build the entry from the source, then store it
unless another one was stored under the name meanwhile. A look-up never changes what a later one
finds, so analyses read an index through `entry?` and have the names that they looked up recorded
afterwards.
-/

namespace DesignCompiler.Catalog

/-- Where component definitions come from. -/
structure Source where
  /-- The names of the components; order and repetitions do not matter. -/
  names : List String
  definition? : String → Option Definition

/-- The entry that a source has for a name. -/
def Source.entry? (s : Source) (name : String) : Option Entry :=
  (s.definition? name).bind (Entry.ofDefinition? name)

/-- A source with the entries that were built from it so far. -/
structure Index where
  source : Source
  cache : List (String × Entry)

namespace Index

/-- An index with an empty cache. -/
def ofSource (source : Source) : Index :=
  ⟨source, []⟩

/-- The cached entry of a name. -/
def cached? (i : Index) (name : String) : Option Entry :=
  i.cache.lookup name

/-- Stores an entry, unless there is one under the name already. -/
def store (i : Index) (name : String) (entry : Entry) : Index :=
  match i.cached? name with
  | some _ => i
  | none => { i with cache := (name, entry) :: i.cache }

/-- The entry that a look-up finds: the cached one, else the one of the source. -/
def entry? (i : Index) (name : String) : Option Entry :=
  (i.cached? name).or (i.source.entry? name)

/-- Looks a name up. -/
def get (i : Index) (name : String) : Index × Option Entry :=
  match i.cached? name with
  | some entry => (i, some entry)
  | none =>
    match i.source.entry? name with
    | none => (i, none)
    | some entry =>
      let i := i.store name entry
      (i, i.cached? name)

/-- The index after look-ups of the given names. -/
def afterLookups (i : Index) (names : List String) : Index :=
  names.foldl (fun i name => (i.get name).1) i

/-- The names of all components, ascending and without repetition. -/
def componentNames (i : Index) : List String :=
  KeyMap.distinct i.source.names

/-- The number of cached entries. -/
def cachedCount (i : Index) : Nat :=
  i.cache.length

/-- The index in one line. -/
def describe (i : Index) : String :=
  "CatalogIndex \x7b cached: " ++ i.cachedCount.repr ++ " \x7d"

/-- A look-up finds what reading through the index finds. -/
theorem get_snd (i : Index) (name : String) : (i.get name).2 = i.entry? name := by
  unfold get entry?
  cases hcached : i.cached? name with
  | some entry => simp
  | none =>
    cases hsource : i.source.entry? name with
    | none => simp
    | some entry =>
      have hlookup : List.lookup name i.cache = none := hcached
      simp [store, cached?, hlookup]

end Index

end DesignCompiler.Catalog
