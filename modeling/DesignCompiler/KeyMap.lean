/-!
# Maps with text keys

A finite map from texts to values, kept as a list of entries in strictly ascending order of their
keys. Two maps with the same look-ups are the same list, and the order in which entries were put
in cannot be seen.
-/

namespace DesignCompiler

/-- Entries with strictly ascending keys. -/
structure KeyMap (α : Type) where
  entries : List (String × α)
  ascending : entries.Pairwise fun a b => a.1 < b.1

namespace KeyMap

variable {α β : Type}

instance [Repr α] : Repr (KeyMap α) where
  reprPrec m n := reprPrec m.entries n

/-- The map without entries. -/
def empty : KeyMap α :=
  ⟨[], .nil⟩

instance : EmptyCollection (KeyMap α) := ⟨empty⟩

instance : Inhabited (KeyMap α) := ⟨empty⟩

/-- Puts an entry at its place; an entry with the same key gives way. -/
def insertEntry (key : String) (value : α) : List (String × α) → List (String × α)
  | [] => [(key, value)]
  | (k, v) :: rest =>
    if key < k then (key, value) :: (k, v) :: rest
    else if key = k then (key, value) :: rest
    else (k, v) :: insertEntry key value rest

/-- Only the inserted key is new. -/
theorem fst_of_mem_insertEntry {key : String} {value : α} {entries : List (String × α)}
    {e : String × α} (he : e ∈ insertEntry key value entries) : e.1 = key ∨ e ∈ entries := by
  induction entries with
  | nil => simp_all [insertEntry]
  | cons head rest ih =>
    obtain ⟨k, v⟩ := head
    simp only [insertEntry] at he
    split at he
    · rcases List.mem_cons.1 he with h | h
      · exact .inl (by rw [h])
      · exact .inr h
    · split at he
      · rcases List.mem_cons.1 he with h | h
        · exact .inl (by rw [h])
        · exact .inr (List.mem_cons_of_mem _ h)
      · rcases List.mem_cons.1 he with h | h
        · exact .inr (h ▸ List.mem_cons_self)
        · exact (ih h).imp_right (List.mem_cons_of_mem _)

/-- Inserting keeps the keys ascending. -/
theorem ascending_insertEntry (key : String) (value : α) {entries : List (String × α)}
    (h : entries.Pairwise fun a b => a.1 < b.1) :
    (insertEntry key value entries).Pairwise fun a b => a.1 < b.1 := by
  induction entries with
  | nil => simp [insertEntry]
  | cons head rest ih =>
    obtain ⟨k, v⟩ := head
    obtain ⟨hhead, hrest⟩ := List.pairwise_cons.1 h
    simp only [insertEntry]
    split
    · rename_i hlt
      exact .cons (fun e he => (List.mem_cons.1 he).elim (fun h => h ▸ hlt)
        fun h => String.lt_trans hlt (hhead e h)) h
    · split
      · rename_i heq
        exact .cons (fun e he => heq ▸ hhead e he) hrest
      · rename_i hlt hne
        refine .cons (fun e he => ?_) (ih hrest)
        rcases fst_of_mem_insertEntry he with h | h
        · exact h ▸ String.not_le.1 fun hle => hne (String.le_antisymm hle (String.not_lt.1 hlt))
        · exact hhead e h

/-- The map with an entry put in; an entry with the same key is replaced. -/
def insert (m : KeyMap α) (key : String) (value : α) : KeyMap α :=
  ⟨insertEntry key value m.entries, ascending_insertEntry key value m.ascending⟩

/-- The map of the given entries; of entries with the same key the last one counts. -/
def ofList (entries : List (String × α)) : KeyMap α :=
  entries.foldl (fun m e => m.insert e.1 e.2) empty

/-- The value under a key. -/
def find? (m : KeyMap α) (key : String) : Option α :=
  m.entries.lookup key

/-- The entries whose key satisfies a condition. -/
def filterKeys (m : KeyMap α) (keep : String → Bool) : KeyMap α :=
  ⟨m.entries.filter fun e => keep e.1, m.ascending.filter _⟩

/-- The keys, ascending. -/
def keys (m : KeyMap α) : List String :=
  m.entries.map (·.1)

/-- Whether there are no entries. -/
def isEmpty (m : KeyMap α) : Bool :=
  m.entries.isEmpty

/-- The number of entries. -/
def size (m : KeyMap α) : Nat :=
  m.entries.length

/-- The given texts, ascending and without repetition. -/
def distinct (texts : List String) : List String :=
  (ofList (texts.map fun text => (text, ()))).keys

/-- The map with every value changed. -/
def mapValues (m : KeyMap α) (f : α → β) : KeyMap β :=
  ⟨m.entries.map fun e => (e.1, f e.2), List.pairwise_map.2 m.ascending⟩

end KeyMap

end DesignCompiler
