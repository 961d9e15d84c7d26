import BranchSync.Json.Forms
import BranchSync.Proofs.Json.Shapes
import BranchSync.Proofs.Net.Addresses

/-!
# JSON forms are stable

Every value is read back from the document that it is written as. So a document that was accepted in
any of its spellings has a normal form, the document that its value is written as, and taking the
normal form again changes nothing. The forms are listed in `JsonForm`, so that this is one statement
about all of them.
-/

namespace BranchSync

open Json

/-- A commit id is read back. -/
theorem CommitId.ofJson?_toJson (id : CommitId) : ofJson? id.toJson = some id := by
  have hoctets : asList asUInt8 id.toJson = some id.octets := asList_map asUInt8_ofNat id.octets
  simp only [ofJson?, hoctets, Option.bind_eq_bind, Option.bind_some, ofOctets_octets]
  rfl

/-- A tip is read back. -/
theorem Tip.ofJson?_toJson (tip : Tip) : ofJson? tip.toJson = some tip := by
  cases tip with
  | empty => rfl
  | commit id => simp [ofJson?, toJson, alternative, tagged, CommitId.ofJson?_toJson]

/-- A reference is read back. -/
theorem TipRef.ofJson?_toJson (reference : TipRef) :
    ofJson? reference.toJson = some reference := by
  cases reference with
  | tip value => simp [ofJson?, toJson, alternative, tagged, Tip.ofJson?_toJson]
  | token text => rfl

/-- A target is read back. -/
theorem BranchRef.ofJson?_toJson (target : BranchRef) : ofJson? target.toJson = some target :=
  rfl

/-- A grant is read back. -/
theorem AccessToken.ofJson?_toJson (token : AccessToken) : ofJson? token.toJson = some token :=
  rfl

/-- A principal is read back. -/
theorem Principal.ofJson?_toJson (principal : Principal) :
    ofJson? principal.toJson = some principal := by
  cases principal with
  | account user => rfl
  | delegated grants =>
    have htokens := asList_map AccessToken.ofJson?_toJson grants.tokens
    simp [ofJson?, toJson, alternative, tagged, fieldsOfObject, lookup, required, htokens,
      TokenSet.ofList_tokens]

/-- An element is read back. -/
theorem Element.ofJson?_toJson (e : Element) : ofJson? e.toJson = some e := by
  have hentries : eachField asString (e.attributes.entries.map fun a => (a.1, .string a.2)) =
      some e.attributes.entries := eachField_map asString_string _
  have hattributes : attributesOfJson?
      (.object (e.attributes.entries.map fun a => (a.1, .string a.2))) = some e.attributes := by
    rw [attributesOfJson?, hentries, Option.map_some, Table.ofList_entries]
  have hfields : fieldsOfRecord ["name", "attributes"] e.toJson =
      some [some (.string e.name),
        some (.object (e.attributes.entries.map fun a => (a.1, .string a.2)))] := rfl
  simp only [ofJson?, hfields, required, asString, hattributes, Option.bind_eq_bind,
    Option.bind_some, Option.pure_def]

/-- An attribute of a stanza is read back. -/
theorem OutStanza.attributeOfJson?_strings (a : String × String) :
    attributeOfJson? (strings [a.1, a.2]) = some a :=
  rfl

/-- A stanza is read back. -/
theorem OutStanza.ofJson?_toJson (s : OutStanza) : ofJson? s.toJson = some s := by
  have hattributes : asList attributeOfJson? (.array (s.attributes.map fun a => strings [a.1, a.2])) =
      some s.attributes := asList_map attributeOfJson?_strings _
  have htext : asOption asString (ofOption .string s.text) = some s.text :=
    asOption_ofOption asString_string (fun _ => Json.noConfusion) _
  have hfields : fieldsOfRecord ["name", "attributes", "text"] s.toJson =
      some [some (.string s.name), some (.array (s.attributes.map fun a => strings [a.1, a.2])),
        some (ofOption .string s.text)] := rfl
  simp only [ofJson?, hfields, required, Json.optional, asString, hattributes, htext,
    Option.bind_eq_bind, Option.bind_some, Option.pure_def]

/-- A response is read back. -/
theorem Response.ofJson?_toJson (response : Response) :
    ofJson? response.toJson = some response := by
  cases response with
  | result children =>
    have hchildren := asList_map OutStanza.ofJson?_toJson children
    simp [ofJson?, toJson, alternative, tagged, hchildren]
  | error message => rfl

/-- A depth is read back. -/
theorem Depth.ofJson?_toJson (depth : Depth) : ofJson? depth.toJson = some depth := by
  cases depth with
  | unbounded => rfl
  | limited count => simp [ofJson?, toJson, alternative, tagged, asUInt32_ofNat]

/-- A policy is read back. -/
theorem SyncPolicy.ofJson?_toJson (p : SyncPolicy) : ofJson? p.toJson = some p := by
  have hsize : asOption asUInt64 (ofOption (fun max => .ofNat max.toNat) p.maxPayloadSize) =
      some p.maxPayloadSize := asOption_ofOption asUInt64_ofNat (fun _ => Json.noConfusion) _
  have hfields : fieldsOfRecord ["verify_start_tip", "max_payload_size", "export_depth"] p.toJson =
      some [some (.bool p.verifyStartTip),
        some (ofOption (fun max => .ofNat max.toNat) p.maxPayloadSize),
        some p.exportDepth.toJson] := rfl
  simp only [ofJson?, hfields, required, Json.optional, asBool, hsize, Depth.ofJson?_toJson,
    Option.bind_eq_bind, Option.bind_some, Option.pure_def]

/-- Settings are read back. -/
theorem Settings.ofJson?_toJson (s : Settings) : ofJson? s.toJson = some s := by
  have haddress : addressOfJson? (.string s.bindAddress.display) = some s.bindAddress :=
    Net.SocketAddress.ofText?_display s.bindAddress
  have hdepth : asOption asUInt32 (ofOption (fun count => .ofNat count.toNat) s.exportDepth) =
      some s.exportDepth := asOption_ofOption asUInt32_ofNat (fun _ => Json.noConfusion) _
  have hfields : fieldsOfPartialRecord
      ["bind_addr", "max_pack_size", "verify_start_tip", "export_depth", "log_filter"] s.toJson =
      some [some (.string s.bindAddress.display), some (.ofNat s.maxPackSize.toNat),
        some (.bool s.verifyStartTip),
        some (ofOption (fun count => .ofNat count.toNat) s.exportDepth),
        some (.string s.logFilter)] := rfl
  simp only [ofJson?, hfields, orDefault, asBool, asString, haddress, hdepth, asUInt64_ofNat,
    Option.bind_eq_bind, Option.bind_some, Option.pure_def]

/-- The types that have a JSON form. -/
inductive JsonForm where
  | commitId
  | tip
  | tipRef
  | branchRef
  | accessToken
  | principal
  | element
  | outStanza
  | response
  | depth
  | syncPolicy
  | settings
  deriving DecidableEq

namespace JsonForm

/-- The values of a form. -/
def Value : JsonForm → Type
  | .commitId => CommitId
  | .tip => Tip
  | .tipRef => TipRef
  | .branchRef => BranchRef
  | .accessToken => AccessToken
  | .principal => Principal
  | .element => Element
  | .outStanza => OutStanza
  | .response => Response
  | .depth => Depth
  | .syncPolicy => SyncPolicy
  | .settings => Settings

/-- Write a value. -/
def write : (form : JsonForm) → form.Value → Json
  | .commitId => CommitId.toJson
  | .tip => Tip.toJson
  | .tipRef => TipRef.toJson
  | .branchRef => BranchRef.toJson
  | .accessToken => AccessToken.toJson
  | .principal => Principal.toJson
  | .element => Element.toJson
  | .outStanza => OutStanza.toJson
  | .response => Response.toJson
  | .depth => Depth.toJson
  | .syncPolicy => SyncPolicy.toJson
  | .settings => Settings.toJson

/-- Read a value. -/
def read? : (form : JsonForm) → Decoder form.Value
  | .commitId => CommitId.ofJson?
  | .tip => Tip.ofJson?
  | .tipRef => TipRef.ofJson?
  | .branchRef => BranchRef.ofJson?
  | .accessToken => AccessToken.ofJson?
  | .principal => Principal.ofJson?
  | .element => Element.ofJson?
  | .outStanza => OutStanza.ofJson?
  | .response => Response.ofJson?
  | .depth => Depth.ofJson?
  | .syncPolicy => SyncPolicy.ofJson?
  | .settings => Settings.ofJson?

/-- The normal form of a document: what its value is written as. -/
def normalize (form : JsonForm) (document : Json) : Option Json :=
  (form.read? document).map form.write

/-- Every value is read back from what it is written as. -/
theorem read?_write (form : JsonForm) (value : form.Value) :
    form.read? (form.write value) = some value := by
  cases form with
  | commitId => exact CommitId.ofJson?_toJson value
  | tip => exact Tip.ofJson?_toJson value
  | tipRef => exact TipRef.ofJson?_toJson value
  | branchRef => exact BranchRef.ofJson?_toJson value
  | accessToken => exact AccessToken.ofJson?_toJson value
  | principal => exact Principal.ofJson?_toJson value
  | element => exact Element.ofJson?_toJson value
  | outStanza => exact OutStanza.ofJson?_toJson value
  | response => exact Response.ofJson?_toJson value
  | depth => exact Depth.ofJson?_toJson value
  | syncPolicy => exact SyncPolicy.ofJson?_toJson value
  | settings => exact Settings.ofJson?_toJson value

/-- In every form, each value is read back from what it is written as, whether it was read from a
document in any of its spellings or made otherwise, and taking the normal form of a document twice is
taking it once. -/
theorem stable (form : JsonForm) :
    (∀ document value, form.read? document = some value →
        form.read? (form.write value) = some value) ∧
      (∀ document, (form.normalize document).bind form.normalize = form.normalize document) ∧
      ∀ value, form.read? (form.write value) = some value := by
  refine ⟨fun _ value _ => form.read?_write value, ?_, form.read?_write⟩
  intro document
  unfold normalize
  cases form.read? document with
  | none => rfl
  | some value => rw [Option.map_some, Option.bind_some, form.read?_write, Option.map_some]

end JsonForm

end BranchSync
