import BranchSync.Stanza.Error

/-!
# Packs as element text

A pack travels as base64. It is written in the standard alphabet with filling; it is read
with blanks ignored, in either alphabet, with or without filling. When neither alphabet fits,
the refusal is that of the alphabet tried first.
-/

namespace BranchSync.Payload

open Text

/-- The text of an outgoing pack. -/
def encode (pack : List UInt8) : String :=
  Base64.encode pack

/-- Read payload octets from which the blanks have been removed. -/
def decodeCompact (compact : List UInt8) : Except ProtocolError (List UInt8) :=
  match Base64.decode .urlSafe compact with
  | .ok bytes => .ok bytes
  | .error first =>
    match Base64.decode .standard compact with
    | .ok bytes => .ok bytes
    | .error _ => .error (.payloadEncoding first)

/-- Read the text of an incoming pack. -/
def decode (text : String) : Except ProtocolError (List UInt8) :=
  decodeCompact ((octets text).filter fun b => !isBlank b)

end BranchSync.Payload
