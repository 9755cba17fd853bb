import DesignCompiler.Catalog.Index

/-!
# Look-ups at the same time

Any number of callers share one index. Each of their look-ups takes the three steps of `Index.get`
one by one, and others may take theirs in between: it reads the cache; it asks the source and
builds the entry; it stores the entry, unless another one was stored under the name meanwhile. A
source may have another answer whenever it is asked, so a turn brings along what the source says
at its moment.
-/

namespace DesignCompiler.Catalog

/-- How far a look-up of a name has come. -/
inductive Lookup where
  | asked (name : String)
  /-- The name was not in the cache. -/
  | missed (name : String)
  /-- The source had a definition, and the entry of it is to be stored. -/
  | built (name : String) (entry : Entry)
  | answered (name : String) (result : Option Entry)
deriving DecidableEq, Repr, Inhabited

/-- The next step of a look-up in an index whose source is `now`. -/
def Lookup.step (now : Source) (i : Index) : Lookup → Index × Lookup
  | asked name =>
    match i.cached? name with
    | some entry => (i, answered name (some entry))
    | none => (i, missed name)
  | missed name =>
    match now.entry? name with
    | some entry => (i, built name entry)
    | none => (i, answered name none)
  | built name entry => (i.store name entry, answered name ((i.store name entry).cached? name))
  | answered name result => (i, answered name result)

/-- What the next step of a look-up stores, if it is the one that stores. -/
def Lookup.insertion? : Lookup → Option (String × Entry)
  | built name entry => some (name, entry)
  | _ => none

/-- An index with the look-ups in it that are under way or done. -/
structure Traffic where
  index : Index
  lookups : List Lookup

/-- The turn of a caller, and the source at that moment. -/
structure Turn where
  caller : Nat
  now : Source

namespace Traffic

/-- Callers that ask for the given names. -/
def start (i : Index) (names : List String) : Traffic :=
  ⟨i, names.map .asked⟩

/-- The look-up of a caller takes its next step. -/
def turn (t : Traffic) (turn : Turn) : Traffic :=
  match t.lookups[turn.caller]? with
  | some lookup =>
    ⟨(lookup.step turn.now t.index).1, t.lookups.set turn.caller (lookup.step turn.now t.index).2⟩
  | none => t

/-- Callers take their turns in the given order. -/
def run (t : Traffic) (turns : List Turn) : Traffic :=
  turns.foldl turn t

/-- What a turn stores, if it is one that stores. -/
def insertion? (t : Traffic) (turn : Turn) : Option (String × Entry) :=
  t.lookups[turn.caller]?.bind Lookup.insertion?

/-- What the turns store, in their order. It does not stay in the cache if there is an entry under
the name. -/
def insertions (t : Traffic) : List Turn → List (String × Entry)
  | [] => []
  | turn :: later => (t.insertion? turn).toList ++ insertions (t.turn turn) later

/-- A look-up that is alone takes its three steps as `Index.get` does. -/
theorem run_alone (i : Index) (name : String) :
    (start i [name]).run (List.replicate 3 ⟨0, i.source⟩) =
      ⟨(i.get name).1, [.answered name (i.get name).2]⟩ := by
  unfold Index.get
  cases hcached : i.cached? name with
  | some entry => simp [run, start, turn, List.replicate, Lookup.step, hcached]
  | none =>
    cases hsource : i.source.entry? name with
    | none => simp [run, start, turn, List.replicate, Lookup.step, hcached, hsource]
    | some entry => simp [run, start, turn, List.replicate, Lookup.step, hcached, hsource]

end Traffic

end DesignCompiler.Catalog
