/-!
# JSON documents

Documents as trees. Integers are kept apart from other numbers, because only integers are ever
asked for; of any other number the document keeps the text it was written as.
-/

namespace BranchSync

/-- A JSON document. -/
inductive Json where
  | null
  | bool (value : Bool)
  | integer (value : Int)
  | fraction (text : String)
  | string (value : String)
  | array (items : List Json)
  | object (fields : List (String × Json))

namespace Json

/-- The value of the first field of a name. -/
def lookup (name : String) : List (String × Json) → Option Json
  | [] => none
  | (key, value) :: rest => if key = name then some value else lookup name rest

/-- A natural number as a document. -/
def ofNat (n : Nat) : Json := .integer n

/-- A list of texts as a document. -/
def strings (texts : List String) : Json := .array (texts.map .string)

/-- An optional value as a document, absence being null. -/
def ofOption {α : Type} (f : α → Json) : Option α → Json
  | none => .null
  | some value => f value

end Json

end BranchSync
