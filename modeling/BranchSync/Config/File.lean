import BranchSync.Config.Settings
import BranchSync.Server.Error
import BranchSync.Text.Octets
import BranchSync.Toml.Document
import BranchSync.Toml.Writer

/-!
# Settings in a file

Settings are kept as a TOML document with one key per setting. Reading takes the default for
every key that is missing and ignores keys it does not know; a known key with a value of the
wrong type or out of range refuses the document. Writing gives every setting that is present,
in a fixed order; integers of TOML end at 2^63 - 1, so a larger size cannot be written.
-/

namespace BranchSync.Settings

open Toml

/-- Read a key, or take the default if it is missing. -/
def fromKey {α : Type} (decode : Item → Option α) (value : α) (key : String)
    (entries : Entries) : Option α :=
  match entries.get? key with
  | none => some value
  | some item => decode item

/-- The text of an item. -/
def asText : Item → Option String
  | .string value => some value
  | _ => none

/-- The truth value of an item. -/
def asFlag : Item → Option Bool
  | .boolean value => some value
  | _ => none

/-- The integer of an item, which has to be a natural number below a bound. -/
def asBelow (bound : Nat) : Item → Option Nat
  | .integer value => if 0 ≤ value ∧ value.toNat < bound then some value.toNat else none
  | _ => none

/-- The socket address that an item is the text of. -/
def asAddress : Item → Option Net.SocketAddress
  | .string value => Net.SocketAddress.ofText? value
  | _ => none

/-- Settings from the table of a document. -/
def ofEntries? (entries : Entries) : Option Settings := do
  let address ← fromKey asAddress default.bindAddress "bind_addr" entries
  let size ← fromKey (fun i => (asBelow UInt64.size i).map UInt64.ofNat) default.maxPackSize
    "max_pack_size" entries
  let verify ← fromKey asFlag default.verifyStartTip "verify_start_tip" entries
  let depth ← fromKey (fun i => (asBelow UInt32.size i).map fun n => some (UInt32.ofNat n))
    default.exportDepth "export_depth" entries
  let filter ← fromKey asText default.logFilter "log_filter" entries
  pure ⟨address, size, verify, depth, filter⟩

/-- Settings from the text of a document. -/
def ofToml (document : String) : Except ServerError Settings :=
  match (Toml.read? document).bind ofEntries? with
  | some settings => .ok settings
  | none => .error .configuration

/-- Settings from a file, given by its octets if it exists. -/
def ofFile (content : Option (List UInt8)) : Except ServerError Settings :=
  match content with
  | none => .error (.file .notFound)
  | some bytes =>
    match Text.ofOctets? bytes with
    | none => .error (.file .notText)
    | some document => ofToml document

/-- The assignments that settings are written as. -/
def toEntries (s : Settings) : List (String × Scalar) :=
  [("bind_addr", .string s.bindAddress.display), ("max_pack_size", .integer s.maxPackSize.toNat),
    ("verify_start_tip", .boolean s.verifyStartTip)] ++
  (match s.exportDepth with
    | none => []
    | some count => [("export_depth", .integer count.toNat)]) ++
  [("log_filter", .string s.logFilter)]

/-- Settings as the text of a document, unless the size is too large to be written. -/
def toToml (s : Settings) : Except ServerError String :=
  if s.maxPackSize.toNat < Toml.integerBound then .ok (render s.toEntries) else .error .configuration

end BranchSync.Settings
