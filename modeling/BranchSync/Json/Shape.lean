import BranchSync.Json.Value

/-!
# Shapes of JSON documents

The conventions by which a document stands for a typed value. A record is an object, in which
unknown fields are ignored, or the list of its fields in order. A choice is the name of an
alternative without content, or an object whose only field is the name with the content. Each
reader answers nothing for a document of another shape.
-/

namespace BranchSync.Json

variable {α : Type}

/-- A reader of documents of one type. -/
abbrev Decoder (α : Type) := Json → Option α

/-- Read a text. -/
def asString : Decoder String
  | .string s => some s
  | _ => none

/-- Read a truth value. -/
def asBool : Decoder Bool
  | .bool b => some b
  | _ => none

/-- Read an integer that is not negative and below a bound. -/
def asNatBelow (bound : Nat) : Decoder Nat
  | .integer n => if 0 ≤ n ∧ n.toNat < bound then some n.toNat else none
  | _ => none

/-- Read an octet. -/
def asUInt8 : Decoder UInt8 := fun j => (asNatBelow UInt8.size j).map UInt8.ofNat

/-- Read an integer below 2^32. -/
def asUInt32 : Decoder UInt32 := fun j => (asNatBelow UInt32.size j).map UInt32.ofNat

/-- Read an integer below 2^64. -/
def asUInt64 : Decoder UInt64 := fun j => (asNatBelow UInt64.size j).map UInt64.ofNat

/-- Read every document of a list. -/
def eachOf (decode : Decoder α) : List Json → Option (List α)
  | [] => some []
  | j :: rest => do
    let value ← decode j
    let values ← eachOf decode rest
    pure (value :: values)

/-- Read a list of values of one type. -/
def asList (decode : Decoder α) : Decoder (List α)
  | .array items => eachOf decode items
  | _ => none

/-- Read a value that may be null. -/
def asOption (decode : Decoder α) : Decoder (Option α)
  | .null => some none
  | j => (decode j).map some

/-- Read the fields of an object as pairs of a name and a value of one type. -/
def eachField (decode : Decoder α) : List (String × Json) → Option (List (String × α))
  | [] => some []
  | (name, j) :: rest => do
    let value ← decode j
    let values ← eachField decode rest
    pure ((name, value) :: values)

/-- The documents of named fields, found in an object. -/
def fieldsOfObject (names : List String) : Json → Option (List (Option Json))
  | .object fields => some (names.map fun name => lookup name fields)
  | _ => none

/-- The documents of the fields of a record, from either of its forms; the list has to be
complete. -/
def fieldsOfRecord (names : List String) : Json → Option (List (Option Json))
  | .array items => if items.length = names.length then some (items.map some) else none
  | j => fieldsOfObject names j

/-- The documents of the fields of a record in which every field may be left out, in the list
form from the end. -/
def fieldsOfPartialRecord (names : List String) : Json → Option (List (Option Json))
  | .array items =>
    if items.length ≤ names.length then
      some (items.map some ++ List.replicate (names.length - items.length) none)
    else none
  | j => fieldsOfObject names j

/-- Read a field that has to be there. -/
def required (decode : Decoder α) : Option Json → Option α
  | none => none
  | some j => decode j

/-- Read a field that may be missing or null. -/
def optional (decode : Decoder α) : Option Json → Option (Option α)
  | none => some none
  | some j => asOption decode j

/-- Read a field that has a default when it is missing. -/
def orDefault (decode : Decoder α) (value : α) : Option Json → Option α
  | none => some value
  | some j => decode j

/-- The name of the alternative that a choice takes, and the content if it is there. -/
def alternative : Json → Option (String × Option Json)
  | .string name => some (name, none)
  | .object [(name, content)] => some (name, some content)
  | _ => none

/-- Whether the content of an alternative without content is indeed absent or null. -/
def isUnit : Option Json → Bool
  | none => true
  | some .null => true
  | some _ => false

/-- The document of an alternative with content. -/
def tagged (name : String) (content : Json) : Json := .object [(name, content)]

end BranchSync.Json
