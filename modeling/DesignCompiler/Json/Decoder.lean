import DesignCompiler.Json.Basic

/-!
# Records in JSON

How typed records are read from JSON values. A record is an object, whose unknown fields are
passed over, or an array of its fields in their declared order, from which trailing fields may be
missing. Nothing is converted: a field has the kind of value that it asks for, and null stands for
absence only where a field may be absent.
-/

namespace DesignCompiler

namespace Json

/-- The text of a value. -/
def string? : Json → Option String
  | .str s => some s
  | _ => none

/-- The truth value of a value. -/
def bool? : Json → Option Bool
  | .bool b => some b
  | _ => none

/-- The double of a number; whole numbers are converted. -/
def anyFloat? : Json → Option Float
  | .int n => some (Float.ofInt n)
  | .float x => some x
  | _ => none

/-- The double of a number within the range of doubles. -/
def float? (v : Json) : Option Float :=
  v.anyFloat?.filter Float.isFinite

/-- The natural number of a value, if it is below a bound and written as a whole number. -/
def natBelow? (bound : Nat) : Json → Option Nat
  | .int (.ofNat n) => if n < bound then some n else none
  | _ => none

/-- A 32-bit natural number. -/
def nat32? (v : Json) : Option Nat :=
  v.natBelow? 4294967296

/-- A 64-bit natural number. -/
def nat64? (v : Json) : Option Nat :=
  v.natBelow? 18446744073709551616

/-- The items of an array, each read by itself. -/
def list? {α : Type} (read : Json → Option α) : Json → Option (List α)
  | .arr items => items.mapM read
  | _ => none

/-- The word that stands for one of several cases: a text, or an object with that text as its only
name and null as its value. -/
def word? : Json → Option String
  | .str s => some s
  | .obj [(s, .null)] => some s
  | _ => none

/-- Whether an item of a list occurs again behind it. -/
def hasRepeats : List String → Bool
  | [] => false
  | s :: rest => rest.contains s || hasRepeats rest

end Json

/-- A record value, before its fields are read. -/
inductive Record where
  | named (fields : List (String × Json))
  /-- The declared names with the values at their positions. -/
  | listed (fields : List (String × Json))

namespace Record

/-- The record in a value; an array must not have more items than the record has names. -/
def ofJson? (names : List String) : Json → Option Record
  | .obj fields => some (.named fields)
  | .arr items => if items.length ≤ names.length then some (.listed (names.zip items)) else none
  | _ => none

/-- The record in a value, in which no declared field may be written twice. -/
def ofJsonOnce? (names : List String) (v : Json) : Option Record :=
  match ofJson? names v with
  | some (.named fields) =>
    if Json.hasRepeats ((fields.map (·.1)).filter names.contains) then none
    else some (.named fields)
  | r => r

/-- The value of a field, if there is one. -/
def value? (r : Record) (name : String) : Option Json :=
  match r with
  | .named fields => Json.lastField? fields name
  | .listed fields => fields.lookup name

/-- Whether the record is written as an array. -/
def isListed : Record → Bool
  | .named _ => false
  | .listed _ => true

variable {α : Type}

/-- A field that must be there. -/
def required (r : Record) (name : String) (read : Json → Option α) : Option α :=
  (r.value? name).bind read

/-- A field with a default. -/
def withDefault (r : Record) (name : String) (default : α) (read : Json → Option α) : Option α :=
  match r.value? name with
  | none => some default
  | some v => read v

/-- A field that may be missing or null. -/
def nullable (r : Record) (name : String) (read : Json → Option α) : Option (Option α) :=
  match r.value? name with
  | none | some .null => some none
  | some v => (read v).map some

/-- A field that may be null, and may be missing only from an object. -/
def nullableItem (r : Record) (name : String) (read : Json → Option α) : Option (Option α) :=
  if r.isListed && (r.value? name).isNone then none else r.nullable name read

end Record

end DesignCompiler
