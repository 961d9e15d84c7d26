import BranchSync.Json.Value
import BranchSync.Server.Service
import BranchSync.Stanza.Vocabulary

/-!
# Status pages

A server answers two web requests, one for its health and one for what it offers. Both can be
read or asked for their headers only. A target is a path, or an absolute one that begins with a
scheme and an authority; which ones these are does not matter, and neither do the query and the
fragment. Apart from that a path is taken literally.
-/

namespace BranchSync

/-- The answer to a web request. A body is always a JSON document. -/
structure WebResponse where
  status : Nat
  contentType : Option String
  allow : Option String
  body : Option Json

/-- The pages that exist. -/
inductive StatusPage where
  | health
  | info
  deriving DecidableEq, Repr

namespace StatusPage

/-- A character of the name of a scheme. -/
def isSchemeChar (c : Char) : Bool :=
  c.isAlphanum || c == '+' || c == '-' || c == '.' || c == '~'

/-- The path of an absolute target without query and fragment. It begins at the first slash
after the authority, and is the root if there is none. What has no authority has no path. -/
def absolutePath (target : List Char) : List Char :=
  match target.dropWhile isSchemeChar with
  | ':' :: '/' :: '/' :: place =>
    if (place.takeWhile (· != '/')).isEmpty then []
    else
      match place.dropWhile (· != '/') with
      | [] => ['/']
      | path => path
  | _ => []

/-- The path of a request target, without query and fragment. -/
def pathOf (target : String) : String :=
  match target.toList.takeWhile fun c => c != '?' && c != '#' with
  | '/' :: path => String.ofList ('/' :: path)
  | written => String.ofList (absolutePath written)

/-- The page at a path. -/
def ofPath? (path : String) : Option StatusPage :=
  if path = "/v1/health" then some .health
  else if path = "/v1/info" then some .info
  else none

/-- The document that a page shows. -/
def document (page : StatusPage) (service : Service) : Json :=
  match page with
  | .health => .object [("status", .string "ok")]
  | .info =>
    let policy := service.settings.policy
    .object [("name", .string "tipsync-server"), ("version", .string "0.1.0"),
      ("stanzas", .strings [Vocabulary.syncPull, Vocabulary.syncPush]),
      ("verify_start_tip", .bool policy.verifyStartTip),
      ("max_payload_size", .ofOption (fun max => .ofNat max.toNat) policy.maxPayloadSize),
      ("sessions_opened", .ofNat service.opened)]

end StatusPage

/-- Answer a web request: a page is read with `GET`, its headers alone are asked for with
`HEAD`, and no other method applies. -/
def Service.respond (service : Service) (method target : String) : WebResponse :=
  match StatusPage.ofPath? (StatusPage.pathOf target) with
  | none => ⟨404, none, none, none⟩
  | some page =>
    if method = "GET" then ⟨200, some "application/json", none, some (page.document service)⟩
    else if method = "HEAD" then ⟨200, some "application/json", none, none⟩
    else ⟨405, none, some "GET,HEAD", none⟩

end BranchSync
