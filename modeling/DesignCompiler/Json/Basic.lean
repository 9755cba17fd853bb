import DesignCompiler.KeyMap

/-!
# JSON values

A JSON value keeps what its text can show: whole numbers and doubles are told apart, and an object
lists its fields in the order in which they were written, repeated names included.
`Json.canonical` forgets that order: it keeps the last field of each name and puts the names in
ascending order.
-/

namespace DesignCompiler

/-- A JSON value. -/
inductive Json where
  | null
  | bool (b : Bool)
  /-- A number written without fraction and exponent. -/
  | int (n : Int)
  | float (x : Float)
  | str (s : String)
  | arr (items : List Json)
  | obj (fields : List (String × Json))
deriving Inhabited, Repr, BEq

namespace Json

/-- A double as a value; what is no number has no numeral. -/
def ofFloat (x : Float) : Json :=
  if x.isFinite then .float x else .null

/-- A natural number as a value. -/
def ofNat (n : Nat) : Json :=
  .int n

/-- The value, or null where there is none. -/
def ofOption {α : Type} (encode : α → Json) : Option α → Json
  | some a => encode a
  | none => .null

/-- The values of a list in order. -/
def ofList {α : Type} (encode : α → Json) (items : List α) : Json :=
  .arr (items.map encode)

/-- A map as an object. -/
def ofKeyMap (m : KeyMap Json) : Json :=
  .obj m.entries

/-- A list of texts as a value. -/
def ofStrings (items : List String) : Json :=
  ofList .str items

mutual

/-- The number of arrays and objects around the innermost value. -/
def depth : Json → Nat
  | .arr items => depthItems items + 1
  | .obj fields => depthFields fields + 1
  | _ => 0

/-- The largest depth among items. -/
def depthItems : List Json → Nat
  | [] => 0
  | v :: rest => max (depth v) (depthItems rest)

/-- The largest depth among fields. -/
def depthFields : List (String × Json) → Nat
  | [] => 0
  | (_, v) :: rest => max (depth v) (depthFields rest)

end

mutual

/-- Whether every number in the value is finite. -/
def isFinite : Json → Bool
  | .float x => x.isFinite
  | .arr items => finiteItems items
  | .obj fields => finiteFields fields
  | _ => true

/-- Whether every number among the items is finite. -/
def finiteItems : List Json → Bool
  | [] => true
  | v :: rest => isFinite v && finiteItems rest

/-- Whether every number among the fields is finite. -/
def finiteFields : List (String × Json) → Bool
  | [] => true
  | (_, v) :: rest => isFinite v && finiteFields rest

end

mutual

/-- The value with the names of every object ascending and without repetition; the last field of a
name counts. -/
def canonical : Json → Json
  | .arr items => .arr (canonicalItems items)
  | .obj fields => .obj (KeyMap.ofList (canonicalFields fields)).entries
  | v => v

/-- Every item in canonical form. -/
def canonicalItems : List Json → List Json
  | [] => []
  | v :: rest => canonical v :: canonicalItems rest

/-- Every field's value in canonical form. -/
def canonicalFields : List (String × Json) → List (String × Json)
  | [] => []
  | (k, v) :: rest => (k, canonical v) :: canonicalFields rest

end

/-- The value of the last field with the given name. -/
def lastField? (fields : List (String × Json)) (name : String) : Option Json :=
  (fields.reverse.find? fun f => f.1 == name).map (·.2)

/-- The value of a field of an object. -/
def field? (name : String) : Json → Option Json
  | .obj fields => lastField? fields name
  | _ => none

end Json

end DesignCompiler
