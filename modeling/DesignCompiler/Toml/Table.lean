import DesignCompiler.Json.Basic

/-!
# Tables of TOML

The tables that a document builds up. A table is defined once: by a header, by dotted keys, or as
a value; a table that only came up on the way to another one may still get a header.
-/

namespace DesignCompiler.Toml

/-- How a table came to be. -/
inductive Origin where
  /-- On the way to another table. -/
  | implied
  /-- Through dotted keys. -/
  | dotted
  | header
deriving DecidableEq

/-- What stands under a key. -/
inductive Item where
  | value (v : Json)
  | table (origin : Origin) (fields : List (String × Item))
  /-- An array of tables, the latest one first. -/
  | tables (latest : List (String × Item)) (earlier : List (List (String × Item)))

/-- The keys of a table with what stands under them. -/
abbrev Fields := List (String × Item)

/-- The fields with another item under a key. -/
def Fields.replace (fields : Fields) (key : String) (item : Item) : Fields :=
  fields.map fun f => if f.1 == key then (key, item) else f

/-- Changes the table at a path; tables that are missing on the way are made. Dotted keys do not
lead into a table with a header. -/
def changeAt (dotted : Bool) (change : Origin → Fields → Option Fields) :
    List String → Origin → Fields → Option Fields
  | [], origin, fields => change origin fields
  | key :: path, _, fields =>
    match fields.lookup key with
    | none =>
      let origin := if dotted then Origin.dotted else .implied
      (changeAt dotted change path origin []).map
        fun inner => fields ++ [(key, .table origin inner)]
    | some (.value _) => none
    | some (.table origin inner) =>
      if dotted && origin == .header then none
      else (changeAt dotted change path origin inner).map
        fun inner => fields.replace key (.table origin inner)
    | some (.tables latest earlier) =>
      (changeAt dotted change path .header latest).map
        fun latest => fields.replace key (.tables latest earlier)

/-- Puts a value under a new key; a table takes dotted keys if they made it, and plain keys
otherwise. -/
def addValue (isDotted : Bool) (key : String) (v : Json) (origin : Origin) (fields : Fields) :
    Option Fields :=
  if (origin == .dotted) != isDotted || (fields.lookup key).isSome then none
  else some (fields ++ [(key, .value v)])

/-- Puts a value under a key, whose parts before the last are given as a path, into the table at
another path. -/
def Fields.setValue (root : Fields) (table path : List String) (key : String) (v : Json) :
    Option Fields :=
  changeAt false (changeAt true (addValue (!path.isEmpty) key v) path) table .header root

/-- Opens the table of a header. -/
def openTable (key : String) (_ : Origin) (fields : Fields) : Option Fields :=
  match fields.lookup key with
  | none => some (fields ++ [(key, .table .header [])])
  | some (.table .implied inner) => some (fields.replace key (.table .header inner))
  | _ => none

/-- Opens one more table of an array of tables. -/
def openNextTable (key : String) (_ : Origin) (fields : Fields) : Option Fields :=
  match fields.lookup key with
  | none => some (fields ++ [(key, .tables [] [])])
  | some (.tables latest earlier) => some (fields.replace key (.tables [] (latest :: earlier)))
  | _ => none

mutual

/-- An item as a value. -/
def Item.toJson : Item → Json
  | .value v => v
  | .table _ fields => .obj (fieldsToJson fields)
  | .tables latest earlier => .arr (tablesToJson earlier [.obj (fieldsToJson latest)])

/-- The fields of a table as values. -/
def fieldsToJson : List (String × Item) → List (String × Json)
  | [] => []
  | (key, item) :: rest => (key, Item.toJson item) :: fieldsToJson rest

/-- Tables as values, in front of the given ones; the first table becomes the last. -/
def tablesToJson : List (List (String × Item)) → List Json → List Json
  | [], done => done
  | fields :: rest, done => tablesToJson rest (.obj (fieldsToJson fields) :: done)

end

end DesignCompiler.Toml
