import DesignCompiler.Json.Decoder
import DesignCompiler.Proofs.KeyMap

/-!
# Fields of written records

A record is read by the names of its fields, so nothing hangs on the order in which an object
keeps them. A `Rearrangement` changes that order and nothing else, at every depth;
`Json.canonical` is one. The lemmas on fields say what reading gives back of a rearranged value: a
field that was written, a list item by item, and an absent value as absent.
-/

namespace DesignCompiler

/-! ## Look-ups in maps -/

namespace KeyMap

variable {α : Type}

theorem lookup_insertEntry_of_ne {key name : String} (hne : name ≠ key) (value : α)
    (entries : List (String × α)) :
    (insertEntry key value entries).lookup name = entries.lookup name := by
  have hother : (name == key) = false := beq_false_of_ne hne
  induction entries with
  | nil => simp [insertEntry, List.lookup_cons, hother]
  | cons head rest ih =>
    obtain ⟨k, v⟩ := head
    simp only [insertEntry]
    split
    · simp [List.lookup_cons, hother]
    · split
      · rename_i heq
        simp [List.lookup_cons, hother, ← heq]
      · rw [List.lookup_cons, List.lookup_cons, ih]

/-- The value that is put in last under a name is the one in the map of a list. -/
theorem find?_ofList (entries : List (String × α)) (name : String) :
    (ofList entries).find? name = (entries.reverse.find? fun e => e.1 == name).map (·.2) := by
  have hfold (entries : List (String × α)) (m : KeyMap α) :
      (entries.foldl (fun m e => m.insert e.1 e.2) m).find? name =
        ((entries.reverse.find? fun e => e.1 == name).map (·.2)).or (m.find? name) := by
    induction entries generalizing m with
    | nil => rfl
    | cons head rest ih =>
      have hinsert : (m.insert head.1 head.2).find? name =
          if head.1 = name then some head.2 else m.find? name := by
        split
        · rename_i heq
          rw [← heq, find?_insert_self]
        · rename_i hne
          exact lookup_insertEntry_of_ne (Ne.symm hne) head.2 m.entries
      rw [List.foldl_cons, ih, hinsert, List.reverse_cons, List.find?_append]
      cases hlater : rest.reverse.find? fun e => e.1 == name with
      | some e => rfl
      | none => by_cases heq : head.1 = name <;> simp [heq]
  rw [ofList, hfold]
  simp [find?, empty]

end KeyMap

namespace Json

/-- In a map every name has one field. -/
theorem lastField?_entries (m : KeyMap Json) (name : String) :
    lastField? m.entries name = m.find? name := by
  refine Option.ext fun v => ?_
  rw [KeyMap.find?_eq_some_iff, lastField?, Option.map_eq_some_iff]
  constructor
  · rintro ⟨⟨k, v⟩, hfind, rfl⟩
    have hname : k = name := by simpa using List.find?_some hfind
    exact hname ▸ List.mem_reverse.1 (List.mem_of_find?_eq_some hfind)
  · intro hmem
    have hsome : (m.entries.reverse.find? fun f => f.1 == name).isSome := by
      rw [List.find?_isSome]
      exact ⟨(name, v), List.mem_reverse.2 hmem, beq_self_eq_true name⟩
    obtain ⟨⟨k, w⟩, hfind⟩ := Option.isSome_iff_exists.1 hsome
    have hname : k = name := by simpa using List.find?_some hfind
    have hmem' := List.mem_reverse.1 (List.mem_of_find?_eq_some hfind)
    rw [hname, ← KeyMap.find?_eq_some_iff, KeyMap.find?_eq_some_iff.2 hmem] at hmem'
    exact ⟨(k, w), hfind, (Option.some.inj hmem').symm⟩

theorem lastField?_map (f : Json → Json) (fields : List (String × Json)) (name : String) :
    lastField? (fields.map fun p => (p.1, f p.2)) name = (lastField? fields name).map f := by
  unfold lastField?
  rw [← List.map_reverse, List.find?_map, Option.map_map, Option.map_map]
  rfl

/-! ## Rearranged values -/

/-- The order of the fields in objects is changed, and nothing else. -/
structure Rearrangement (f : Json → Json) : Prop where
  null : f .null = .null
  bool : ∀ b, f (.bool b) = .bool b
  float : ∀ x, f (.float x) = .float x
  str : ∀ s, f (.str s) = .str s
  arr : ∀ items, f (.arr items) = .arr (items.map f)
  obj : ∀ fields, ∃ fields', f (.obj fields) = .obj fields' ∧
    ∀ name, lastField? fields' name = (lastField? fields name).map f

theorem rearrangement_id : Rearrangement id :=
  ⟨rfl, fun _ => rfl, fun _ => rfl, fun _ => rfl, fun items => by rw [List.map_id]; rfl,
    fun fields => ⟨fields, rfl, fun name => by rw [Option.map_id]; rfl⟩⟩

theorem canonicalItems_eq (items : List Json) : canonicalItems items = items.map canonical := by
  induction items with
  | nil => rfl
  | cons v rest ih => rw [canonicalItems, ih, List.map_cons]

theorem canonicalFields_eq (fields : List (String × Json)) :
    canonicalFields fields = fields.map fun p => (p.1, canonical p.2) := by
  induction fields with
  | nil => rfl
  | cons p rest ih => rw [canonicalFields, ih, List.map_cons]

/-- The canonical form keeps everything but the order of fields. -/
theorem rearrangement_canonical : Rearrangement canonical where
  null := by simp [canonical]
  bool b := by simp [canonical]
  float x := by simp [canonical]
  str s := by simp [canonical]
  arr items := by rw [canonical, canonicalItems_eq]
  obj fields := by
    refine ⟨_, by rw [canonical], fun name => ?_⟩
    rw [lastField?_entries, KeyMap.find?_ofList, canonicalFields_eq]
    exact lastField?_map canonical fields name

/-! ## Depths -/

theorem depth_le_of_mem {items : List Json} {v : Json} (h : v ∈ items) :
    v.depth ≤ depthItems items := by
  induction items with
  | nil => cases h
  | cons w rest ih =>
    rw [depthItems]
    rcases List.mem_cons.1 h with rfl | h
    · exact Nat.le_max_left _ _
    · exact Nat.le_trans (ih h) (Nat.le_max_right _ _)

theorem depth_le_of_mem_fields {fields : List (String × Json)} {p : String × Json}
    (h : p ∈ fields) :
    p.2.depth ≤ depthFields fields := by
  induction fields with
  | nil => cases h
  | cons q rest ih =>
    rw [depthFields]
    rcases List.mem_cons.1 h with rfl | h
    · exact Nat.le_max_left _ _
    · exact Nat.le_trans (ih h) (Nat.le_max_right _ _)

/-- An item of a field is two levels below its object. -/
theorem depth_add_two_le {fields : List (String × Json)} {name : String} {items : List Json}
    {v : Json} (hfield : lastField? fields name = some (.arr items)) (hv : v ∈ items) :
    v.depth + 2 ≤ (Json.obj fields).depth := by
  obtain ⟨p, hfind, hp⟩ := Option.map_eq_some_iff.1 hfield
  have harr := depth_le_of_mem_fields (List.mem_reverse.1 (List.mem_of_find?_eq_some hfind))
  have hitem := depth_le_of_mem hv
  rw [hp, depth] at harr
  rw [depth]
  omega

/-- A rearranged object is an object. -/
theorem Rearrangement.depth_pos {f : Json → Json} (hf : Rearrangement f)
    {fields : List (String × Json)} {v : Json} (hv : v = .obj fields) : 0 < (f v).depth := by
  obtain ⟨fields', hobj, -⟩ := hf.obj fields
  rw [hv, hobj, depth]
  exact Nat.succ_pos _

/-- An item of a field of a rearranged object is two levels below the object. -/
theorem Rearrangement.depth_add_two_le {f : Json → Json} (hf : Rearrangement f)
    {fields : List (String × Json)} {v : Json} (hv : v = .obj fields) {α : Type} (name : String)
    (encode : α → Json) {items : List α} {a : α}
    (hfield : lastField? fields name = some (.ofList encode items)) (ha : a ∈ items) :
    (f (encode a)).depth + 2 ≤ (f v).depth := by
  obtain ⟨fields', hobj, hfields⟩ := hf.obj fields
  have hitems : lastField? fields' name = some (.arr ((items.map encode).map f)) := by
    rw [hfields, hfield, Option.map_some, ofList, hf.arr]
  rw [hv, hobj]
  exact Json.depth_add_two_le hitems (List.mem_map_of_mem (List.mem_map_of_mem ha))

/-! ## Values that are read back -/

section Values

variable {f : Json → Json} {α : Type} {read : Json → Option α}

theorem Rearrangement.string? (hf : Rearrangement f) (s : String) :
    (f (.str s)).string? = some s := by
  rw [hf.str]
  rfl

theorem Rearrangement.bool? (hf : Rearrangement f) (b : Bool) : (f (.bool b)).bool? = some b := by
  rw [hf.bool]
  rfl

theorem Rearrangement.word? (hf : Rearrangement f) (s : String) :
    (f (.str s)).word? = some s := by
  rw [hf.str]
  rfl

/-- A finite double is read back. -/
theorem Rearrangement.float? (hf : Rearrangement f) {x : Float} (hx : x.isFinite = true) :
    (f (.ofFloat x)).float? = some x := by
  rw [ofFloat, if_pos hx, hf.float]
  simp [Json.float?, anyFloat?, hx]

/-- A list is read back if each of its items is. -/
theorem Rearrangement.list? (hf : Rearrangement f) {encode : α → Json} {items : List α}
    (hread : ∀ a ∈ items, read (f (encode a)) = some a) :
    (f (.ofList encode items)).list? read = some items := by
  rw [ofList, hf.arr, Json.list?]
  induction items with
  | nil => rfl
  | cons a rest ih =>
    rw [List.map_cons, List.map_cons, List.mapM_cons, hread a List.mem_cons_self,
      ih fun b hb => hread b (List.mem_cons_of_mem a hb)]
    rfl

end Values

end Json

/-! ## Fields that are read back -/

namespace Record

open Json (Rearrangement lastField?)

variable {f : Json → Json} {α : Type} {r : Record} {name : String} {v : Json}
  {read : Json → Option α}

/-- A rearranged object is a record with the same fields. -/
theorem exists_ofJson? (hf : Rearrangement f) {fields : List (String × Json)}
    (names : List String) (hv : v = .obj fields) :
    ∃ r, ofJson? names (f v) = some r ∧
      ∀ name w, lastField? fields name = some w → r.value? name = some (f w) := by
  obtain ⟨fields', hobj, hfields⟩ := hf.obj fields
  refine ⟨.named fields', by rw [hv, hobj]; rfl, fun name w hw => ?_⟩
  show lastField? fields' name = _
  rw [hfields, hw, Option.map_some]

theorem required_eq {a : α} (hvalue : r.value? name = some (f v)) (hread : read (f v) = some a) :
    r.required name read = some a := by
  rw [required, hvalue, Option.bind_some, hread]

theorem withDefault_eq {a default : α} (hvalue : r.value? name = some (f v))
    (hread : read (f v) = some a) :
    r.withDefault name default read = some a := by
  rw [withDefault, hvalue]
  exact hread

/-- A value that may be absent is read back, if null is not the form of a value. -/
theorem nullable_eq (hf : Rearrangement f) {encode : α → Json} {a : Option α}
    (hvalue : r.value? name = some (f (.ofOption encode a))) (hnull : read .null = none)
    (hread : ∀ x ∈ a, read (f (encode x)) = some x) : r.nullable name read = some a := by
  rw [nullable, hvalue]
  cases a with
  | none =>
    rw [Json.ofOption, hf.null]
  | some x =>
    have hx := hread x rfl
    rw [Json.ofOption]
    generalize f (encode x) = w at hx
    cases w with
    | null =>
      rw [hnull] at hx
      cases hx
    | bool b => exact congrArg (Option.map some) hx
    | int n => exact congrArg (Option.map some) hx
    | float y => exact congrArg (Option.map some) hx
    | str s => exact congrArg (Option.map some) hx
    | arr items => exact congrArg (Option.map some) hx
    | obj fields => exact congrArg (Option.map some) hx

end Record

end DesignCompiler
