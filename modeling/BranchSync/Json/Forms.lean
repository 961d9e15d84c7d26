import BranchSync.Config.Settings
import BranchSync.Json.Shape
import BranchSync.Stanza.Element
import BranchSync.Stanza.Response

/-!
# JSON forms of the domain

How each type of the domain is written as a JSON document and read back. Reading accepts more
than writing produces (a record as a list, unknown fields, an explicit null), but what was
read is written in one way only.
-/

namespace BranchSync

open Json

namespace CommitId

/-- A commit id is the list of its octets. -/
def toJson (id : CommitId) : Json :=
  .array (id.octets.map fun b => .ofNat b.toNat)

/-- Read a commit id. -/
def ofJson? : Decoder CommitId := fun j => do
  let bytes ← asList asUInt8 j
  (ofOctets bytes).toOption

end CommitId

namespace Tip

/-- A tip is a choice between emptiness and a commit. -/
def toJson : Tip → Json
  | .empty => .string "Empty"
  | .commit id => tagged "Commit" id.toJson

/-- Read a tip. -/
def ofJson? : Decoder Tip := fun j =>
  match alternative j with
  | some ("Empty", content) => if isUnit content then some .empty else none
  | some ("Commit", some content) => (CommitId.ofJson? content).map .commit
  | _ => none

end Tip

namespace TipRef

/-- A reference is a choice between a tip and a token. -/
def toJson : TipRef → Json
  | .tip value => tagged "Tip" value.toJson
  | .token text => tagged "Opaque" (.string text)

/-- Read a reference. -/
def ofJson? : Decoder TipRef := fun j =>
  match alternative j with
  | some ("Tip", some content) => (Tip.ofJson? content).map .tip
  | some ("Opaque", some content) => (asString content).map .token
  | _ => none

end TipRef

namespace BranchRef

/-- A target is a record of account and branch. -/
def toJson (target : BranchRef) : Json :=
  .object [("account_user", .string target.user), ("branch", .string target.branch)]

/-- Read a target. -/
def ofJson? : Decoder BranchRef := fun j =>
  match fieldsOfRecord ["account_user", "branch"] j with
  | some [user, branch] => do
    let user ← required asString user
    let branch ← required asString branch
    pure ⟨user, branch⟩
  | _ => none

end BranchRef

namespace AccessToken

/-- A grant is its text. -/
def toJson (token : AccessToken) : Json := .string token.text

/-- Read a grant; the text is taken as it is. -/
def ofJson? : Decoder AccessToken := fun j => (asString j).map AccessToken.mk

end AccessToken

namespace Principal

/-- A principal is a choice; grants are written in increasing order. -/
def toJson : Principal → Json
  | .account user => tagged "Account" (.object [("user", .string user)])
  | .delegated grants =>
    tagged "Delegated" (.object [("grants", .array (grants.tokens.map AccessToken.toJson))])

/-- Read a principal. The content of either alternative has to be an object. -/
def ofJson? : Decoder Principal := fun j =>
  match alternative j with
  | some ("Account", some content) =>
    match fieldsOfObject ["user"] content with
    | some [user] => (required asString user).map .account
    | _ => none
  | some ("Delegated", some content) =>
    match fieldsOfObject ["grants"] content with
    | some [grants] =>
      (required (asList AccessToken.ofJson?) grants).map fun tokens => .delegated (.ofList tokens)
    | _ => none
  | _ => none

end Principal

namespace Element

/-- An element is a record whose attributes are an object of texts. -/
def toJson (e : Element) : Json :=
  .object [("name", .string e.name),
    ("attributes", .object (e.attributes.entries.map fun a => (a.1, .string a.2)))]

/-- Read the attributes of an element. -/
def attributesOfJson? : Decoder (Table String)
  | .object fields => (eachField asString fields).map Table.ofList
  | _ => none

/-- Read an element. -/
def ofJson? : Decoder Element := fun j =>
  match fieldsOfRecord ["name", "attributes"] j with
  | some [name, attributes] => do
    let name ← required asString name
    let attributes ← required attributesOfJson? attributes
    pure ⟨name, attributes⟩
  | _ => none

end Element

namespace OutStanza

/-- A stanza is a record whose attributes are a list of pairs. -/
def toJson (s : OutStanza) : Json :=
  .object [("name", .string s.name),
    ("attributes", .array (s.attributes.map fun a => strings [a.1, a.2])),
    ("text", ofOption .string s.text)]

/-- Read one attribute of a stanza. -/
def attributeOfJson? : Decoder (String × String)
  | .array [key, value] => do
    let key ← asString key
    let value ← asString value
    pure (key, value)
  | _ => none

/-- Read a stanza. -/
def ofJson? : Decoder OutStanza := fun j =>
  match fieldsOfRecord ["name", "attributes", "text"] j with
  | some [name, attributes, text] => do
    let name ← required asString name
    let attributes ← required (asList attributeOfJson?) attributes
    let text ← optional asString text
    pure ⟨name, attributes, text⟩
  | _ => none

end OutStanza

namespace Response

/-- A response is a choice between a list of stanzas and an error message. -/
def toJson : Response → Json
  | .result children => tagged "Result" (.array (children.map OutStanza.toJson))
  | .error message => tagged "Error" (.object [("message", .string message)])

/-- Read a response. -/
def ofJson? : Decoder Response := fun j =>
  match alternative j with
  | some ("Result", some content) => (asList OutStanza.ofJson? content).map .result
  | some ("Error", some content) =>
    match fieldsOfObject ["message"] content with
    | some [message] => (required asString message).map .error
    | _ => none
  | _ => none

end Response

namespace Depth

/-- A depth is a choice between no limit and a number. -/
def toJson : Depth → Json
  | .unbounded => .string "Unbounded"
  | .limited count => tagged "Limited" (.ofNat count.toNat)

/-- Read a depth. -/
def ofJson? : Decoder Depth := fun j =>
  match alternative j with
  | some ("Unbounded", content) => if isUnit content then some .unbounded else none
  | some ("Limited", some content) => (asUInt32 content).map .limited
  | _ => none

end Depth

namespace SyncPolicy

/-- A policy is a record. -/
def toJson (p : SyncPolicy) : Json :=
  .object [("verify_start_tip", .bool p.verifyStartTip),
    ("max_payload_size", ofOption (fun max => .ofNat max.toNat) p.maxPayloadSize),
    ("export_depth", p.exportDepth.toJson)]

/-- Read a policy. -/
def ofJson? : Decoder SyncPolicy := fun j =>
  match fieldsOfRecord ["verify_start_tip", "max_payload_size", "export_depth"] j with
  | some [verify, size, depth] => do
    let verify ← required asBool verify
    let size ← optional asUInt64 size
    let depth ← required Depth.ofJson? depth
    pure ⟨verify, size, depth⟩
  | _ => none

end SyncPolicy

namespace Settings

/-- Settings are a record. -/
def toJson (s : Settings) : Json :=
  .object [("bind_addr", .string s.bindAddress.display),
    ("max_pack_size", .ofNat s.maxPackSize.toNat),
    ("verify_start_tip", .bool s.verifyStartTip),
    ("export_depth", ofOption (fun count => .ofNat count.toNat) s.exportDepth),
    ("log_filter", .string s.logFilter)]

/-- Read a socket address. -/
def addressOfJson? : Decoder Net.SocketAddress := fun j => do
  let text ← asString j
  Net.SocketAddress.ofText? text

/-- Read settings; what is missing takes its default. -/
def ofJson? : Decoder Settings := fun j =>
  match fieldsOfPartialRecord
    ["bind_addr", "max_pack_size", "verify_start_tip", "export_depth", "log_filter"] j with
  | some [address, size, verify, depth, filter] => do
    let address ← orDefault addressOfJson? default.bindAddress address
    let size ← orDefault asUInt64 default.maxPackSize size
    let verify ← orDefault asBool default.verifyStartTip verify
    let depth ← orDefault (asOption asUInt32) default.exportDepth depth
    let filter ← orDefault asString default.logFilter filter
    pure ⟨address, size, verify, depth, filter⟩
  | _ => none

end Settings

end BranchSync
