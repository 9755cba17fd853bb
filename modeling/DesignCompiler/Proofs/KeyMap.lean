import DesignCompiler.KeyMap

/-!
# Entries of maps

Which entries a map has that was built from a list, and what follows for lists of distinct texts.
-/

namespace DesignCompiler.KeyMap

variable {α : Type}

/-! ## Entries -/

theorem mem_insertEntry {key : String} {value : α} {entries : List (String × α)} {e : String × α}
    (he : e ∈ insertEntry key value entries) : e = (key, value) ∨ e ∈ entries := by
  induction entries with
  | nil => exact .inl (List.mem_singleton.1 he)
  | cons head rest ih =>
    obtain ⟨k, v⟩ := head
    simp only [insertEntry] at he
    split at he
    · rcases List.mem_cons.1 he with h | h
      · exact .inl h
      · exact .inr h
    · split at he
      · rcases List.mem_cons.1 he with h | h
        · exact .inl h
        · exact .inr (List.mem_cons_of_mem _ h)
      · rcases List.mem_cons.1 he with h | h
        · exact .inr (h ▸ List.mem_cons_self)
        · exact (ih h).imp_right (List.mem_cons_of_mem _)

theorem mem_fst_insertEntry (key : String) (value : α) (entries : List (String × α))
    (k : String) :
    k ∈ (insertEntry key value entries).map (·.1) ↔ k = key ∨ k ∈ entries.map (·.1) := by
  induction entries with
  | nil => simp [insertEntry]
  | cons head rest ih =>
    obtain ⟨k', v⟩ := head
    simp only [insertEntry]
    split
    · simp
    · split
      · rename_i heq
        simp [heq]
      · rw [List.map_cons, List.mem_cons, ih, List.map_cons, List.mem_cons, or_left_comm]

theorem lookup_insertEntry_self (key : String) (value : α) (entries : List (String × α)) :
    (insertEntry key value entries).lookup key = some value := by
  induction entries with
  | nil => exact List.lookup_cons_self
  | cons head rest ih =>
    obtain ⟨k, v⟩ := head
    simp only [insertEntry]
    split
    · exact List.lookup_cons_self
    · split
      · exact List.lookup_cons_self
      · rename_i hne
        rw [List.lookup_cons, beq_false_of_ne hne]
        exact ih

theorem isSome_lookup_iff {entries : List (String × α)} {key : String} :
    (entries.lookup key).isSome = true ↔ key ∈ entries.map (·.1) := by
  rw [List.lookup_isSome_iff, List.mem_map]
  constructor
  · rintro ⟨p, hp, hname⟩
    exact ⟨p, hp, (beq_iff_eq.1 hname).symm⟩
  · rintro ⟨p, hp, hname⟩
    exact ⟨p, hp, beq_iff_eq.2 hname.symm⟩

/-- Something is found under the keys and under no other texts. -/
theorem isSome_find?_iff {m : KeyMap α} {key : String} :
    (m.find? key).isSome = true ↔ key ∈ m.keys :=
  isSome_lookup_iff

/-- What was put in last is found under its key. -/
theorem find?_insert_self (m : KeyMap α) (key : String) (value : α) :
    (m.insert key value).find? key = some value :=
  lookup_insertEntry_self key value m.entries

/-- The entries of a map that was built from a list are in the list. -/
theorem mem_of_mem_ofList {entries : List (String × α)} {e : String × α}
    (he : e ∈ (ofList entries).entries) :
    e ∈ entries := by
  have hfold (entries : List (String × α)) (m : KeyMap α)
      (he : e ∈ (entries.foldl (fun m e => m.insert e.1 e.2) m).entries) :
      e ∈ m.entries ∨ e ∈ entries := by
    induction entries generalizing m with
    | nil => exact .inl he
    | cons head rest ih =>
      rcases ih (m.insert head.1 head.2) he with h | h
      · rcases mem_insertEntry h with h | h
        · exact .inr (h ▸ List.mem_cons_self)
        · exact .inl h
      · exact .inr (List.mem_cons_of_mem _ h)
  rcases hfold entries empty he with h | h
  · cases h
  · exact h

theorem mem_keys_ofList (entries : List (String × α)) (k : String) :
    k ∈ (ofList entries).keys ↔ k ∈ entries.map (·.1) := by
  have hfold (entries : List (String × α)) (m : KeyMap α) :
      k ∈ (entries.foldl (fun m e => m.insert e.1 e.2) m).keys ↔
        k ∈ m.keys ∨ k ∈ entries.map (·.1) := by
    induction entries generalizing m with
    | nil => simp
    | cons head rest ih =>
      rw [List.foldl_cons, ih, List.map_cons, List.mem_cons]
      have hinsert : k ∈ (m.insert head.1 head.2).keys ↔ k = head.1 ∨ k ∈ m.keys :=
        mem_fst_insertEntry head.1 head.2 m.entries k
      rw [hinsert, or_assoc, or_left_comm]
  rw [ofList, hfold]
  simp [keys, empty]

/-- No key is there twice. -/
theorem nodup_keys (m : KeyMap α) : m.keys.Nodup := by
  unfold keys List.Nodup
  rw [List.pairwise_map]
  exact m.ascending.imp fun {a b} hlt heq => absurd (heq ▸ hlt) (String.lt_irrefl b.1)

theorem mem_filterKeys {m : KeyMap α} {keep : String → Bool} {e : String × α} :
    e ∈ (m.filterKeys keep).entries ↔ e ∈ m.entries ∧ keep e.1 = true :=
  List.mem_filter

/-- What is found under a key is the entry with that key. -/
theorem find?_eq_some_iff {m : KeyMap α} {key : String} {value : α} :
    m.find? key = some value ↔ (key, value) ∈ m.entries := by
  unfold find?
  rw [List.lookup_eq_some_iff]
  constructor
  · rintro ⟨before, after, heq, -⟩
    rw [heq]
    exact List.mem_append_right before List.mem_cons_self
  · intro hmem
    obtain ⟨before, after, heq⟩ := List.append_of_mem hmem
    refine ⟨before, after, heq, fun e he => ?_⟩
    have hascending := m.ascending
    rw [heq, List.pairwise_append] at hascending
    have hlt := hascending.2.2 e he (key, value) List.mem_cons_self
    rw [bne_iff_ne]
    rintro rfl
    exact String.lt_irrefl _ hlt

/-- The only value that a list has for a key is the one in the map of the list. -/
theorem mem_ofList {entries : List (String × α)} {key : String} {value : α}
    (hmem : (key, value) ∈ entries) (honly : ∀ v, (key, v) ∈ entries → v = value) :
    (key, value) ∈ (ofList entries).entries := by
  have hkey : key ∈ (ofList entries).keys :=
    (mem_keys_ofList entries key).2 (List.mem_map_of_mem hmem)
  obtain ⟨⟨_, v⟩, he, rfl⟩ := List.mem_map.1 hkey
  rw [honly v (mem_of_mem_ofList he)] at he
  exact he

/-! ## Distinct texts -/

@[simp] theorem mem_distinct {texts : List String} {text : String} :
    text ∈ distinct texts ↔ text ∈ texts := by
  unfold distinct
  rw [mem_keys_ofList]
  simp

theorem nodup_distinct (texts : List String) : (distinct texts).Nodup :=
  nodup_keys _

theorem ascending_distinct (texts : List String) : (distinct texts).Pairwise (· < ·) :=
  List.pairwise_map.2 (ofList (texts.map fun text => (text, ()))).ascending

/-- Which texts are distinct depends on neither their order nor how often they are there. -/
theorem distinct_congr {texts texts' : List String} (h : ∀ text, text ∈ texts ↔ text ∈ texts') :
    distinct texts = distinct texts' := by
  have hperm : (distinct texts).Perm (distinct texts') := by
    refine (List.perm_ext_iff_of_nodup (nodup_distinct texts) (nodup_distinct texts')).2
      fun text => ?_
    rw [mem_distinct, mem_distinct, h]
  refine hperm.eq_of_pairwise (fun a b _ _ hab hba => ?_) (ascending_distinct texts)
    (ascending_distinct texts')
  exact absurd (String.lt_trans hab hba) (String.lt_irrefl a)

end DesignCompiler.KeyMap
