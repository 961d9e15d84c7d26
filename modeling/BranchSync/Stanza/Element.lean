import BranchSync.Stanza.Error
import BranchSync.Table

/-!
# Incoming elements

A client's text arrives as parse events in document order: a start tag with its attributes, a
piece of text, or an end tag. Events need not be balanced. An attribute that is present but
empty differs from one that is absent.
-/

namespace BranchSync

/-- An incoming element without its content. -/
structure Element where
  name : String
  attributes : Table String
  deriving DecidableEq

namespace Element

/-- The element with attributes set in order, so that later ones win. -/
def ofAttributes (name : String) (attributes : List (String × String)) : Element :=
  ⟨name, .ofList attributes⟩

/-- The element with one more attribute set. -/
def withAttribute (e : Element) (key value : String) : Element :=
  { e with attributes := e.attributes.insert key value }

/-- The value of an attribute. -/
def attribute? (e : Element) (key : String) : Option String :=
  e.attributes.get? key

/-- The value of an attribute that has to be present. -/
def require (e : Element) (key : String) : Except ProtocolError String :=
  match e.attribute? key with
  | some value => .ok value
  | none => .error (.missingAttribute e.name key)

end Element

/-- One event of the incoming document. -/
inductive ParseEvent where
  | openTag (element : Element)
  | text (content : String)
  | closeTag (name : String)
  deriving DecidableEq

end BranchSync
