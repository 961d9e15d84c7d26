/-!
# Outgoing stanzas

A response is either a result with child stanzas or an error with a message for the user. A
stanza has ordered attributes, of which the first with a given name counts, and may have text.
-/

namespace BranchSync

/-- An outgoing element. -/
structure OutStanza where
  name : String
  attributes : List (String × String)
  text : Option String
  deriving DecidableEq, Repr

namespace OutStanza

/-- A stanza without attributes and text. -/
def named (name : String) : OutStanza := ⟨name, [], none⟩

/-- The stanza with an attribute appended. -/
def withAttribute (s : OutStanza) (key value : String) : OutStanza :=
  { s with attributes := s.attributes ++ [(key, value)] }

/-- The stanza with its text replaced. -/
def withText (s : OutStanza) (text : String) : OutStanza :=
  { s with text := some text }

/-- The value of the first attribute of a name. -/
def attribute? (s : OutStanza) (key : String) : Option String :=
  (s.attributes.find? fun a => a.1 == key).map Prod.snd

end OutStanza

/-- The answer to one request. -/
inductive Response where
  | result (children : List OutStanza)
  | error (message : String)
  deriving DecidableEq, Repr

namespace Response

/-- Whether the response is an error. -/
def isError : Response → Bool
  | .result _ => false
  | .error _ => true

/-- The message of an error. -/
def errorMessage? : Response → Option String
  | .result _ => none
  | .error message => some message

/-- The first child of a result with a given name. -/
def child? : Response → String → Option OutStanza
  | .result children, name => children.find? fun c => c.name == name
  | .error _, _ => none

end Response

end BranchSync
