import Workflow.Service.Answer
import Workflow.Service.Path
import Workflow.Text.Uppercase

/-!
# The service

Each kind of request has an address of its own, to which it is posted. A call is
answered with a status and a body: a call to an unknown address, by the wrong
method, or with a body that is no such request is told so.

## Main definitions

* `Endpoint` — the addresses for requests
* `Call`, `Response` — what comes in and what goes out
* `Place` — what the service has at a path
* `Call.respond` — the response to a call
-/

namespace Workflow

open Schema

/-- An address for requests. -/
inductive Endpoint where
  | mergeNode
  | block
  | blockStarter
  | deleteNode
  | swapNode
  | insertStep
  | parallelBranches
  | replacePlaceholder
  deriving DecidableEq, Repr

namespace Endpoint

/-- All addresses, in the order in which they are listed. -/
def all : List Endpoint :=
  [mergeNode, block, blockStarter, deleteNode, swapNode, insertStep, parallelBranches,
    replacePlaceholder]

/-- The name of an address in the list of addresses. -/
def name : Endpoint → String
  | mergeNode => "merge_node"
  | block => "block"
  | blockStarter => "block_starter"
  | deleteNode => "delete_node"
  | swapNode => "swap_node"
  | insertStep => "insert_step"
  | parallelBranches => "parallel_branches"
  | replacePlaceholder => "replace_placeholder"

/-- The path of an address. -/
def path : Endpoint → String
  | mergeNode => "/api/flows/merge-node"
  | block => "/api/flows/block"
  | blockStarter => "/api/flows/block-starter"
  | deleteNode => "/api/flows/delete-node"
  | swapNode => "/api/flows/swap-node"
  | insertStep => "/api/flows/insert-step"
  | parallelBranches => "/api/flows/parallel-branches"
  | replacePlaceholder => "/api/flows/replace-placeholder"

/-- The address with a given path. -/
def ofPath? (path : String) : Option Endpoint := all.find? (·.path = path)

/-- The record that is posted to an address. -/
def shape : Endpoint → RequestShape
  | mergeNode => .ask .merge
  | block => .ask .block
  | blockStarter => .ask .starter
  | deleteNode => .delete
  | swapNode => .swap
  | insertStep => .insert
  | parallelBranches => .setBranches
  | replacePlaceholder => .fill

@[simp] theorem ofPath?_path (endpoint : Endpoint) : ofPath? endpoint.path = some endpoint := by
  cases endpoint <;> decide +kernel

end Endpoint

/-- A call to the service. -/
structure Call where
  method : String
  target : String
  body : Option Json
  deriving DecidableEq, Repr

/-- What a call is answered with. -/
structure Response where
  status : Nat
  body : Json
  deriving DecidableEq, Repr

namespace Response

/-- A response that only says what went wrong. -/
def detail (status : Nat) (message : String) : Response :=
  ⟨status, .obj [("detail", .str message)]⟩

/-- No such address. -/
def notFound : Response := detail 404 "Not Found"

/-- An address that takes another method. -/
def wrongMethod : Response := detail 405 "Method Not Allowed"

/-- A body that is not the record that is due. -/
def invalid (faults : List Fault) : Response :=
  ⟨422, .arr (faults.map fun fault => (fault.within (.field "body")).toJson .request)⟩

/-- The response to a request that was understood. -/
def ofAnswer : Except Missing Answer → Response
  | .ok answer => ⟨200, answer.toJson⟩
  | .error missing => detail 404 missing.message

/-- The service is up, and where its addresses are. -/
def health : Response :=
  ⟨200, .obj [("status", .str "ok"), ("version", .str "0.1.0"),
    ("endpoints", .obj (Endpoint.all.map fun endpoint => (endpoint.name, .str endpoint.path)))]⟩

end Response

namespace Endpoint

/-- The request in the body of a call. A body that is absent or `null` is missing. -/
def request (endpoint : Endpoint) : Option Json → Checked Request
  | none | some .null => .fault .missing .null
  | some body => endpoint.shape.check body

/-- The response to a post, with what is left of the supply. -/
def respond (endpoint : Endpoint) (limits : Limits) (body : Option Json) (supply : Supply) :
    Response × Supply :=
  match endpoint.request body with
  | .faulty faults => (.invalid faults, supply)
  | .valid request =>
    let (answer, rest) := request.answer limits supply
    (.ofAnswer answer, rest)

end Endpoint

/-- What the service has at a path. -/
inductive Place where
  | root
  /-- A page that describes the service to people. -/
  | page
  | endpoint (endpoint : Endpoint)
  deriving DecidableEq, Repr

namespace Place

/-- The paths of the pages that describe the service. -/
def pages : List String := ["/docs", "/docs/oauth2-redirect", "/openapi.json", "/redoc"]

/-- The place at exactly the given path. -/
def at? (path : String) : Option Place :=
  if path = "/" then some root
  else if path ∈ pages then some page
  else (Endpoint.ofPath? path).map endpoint

/-- A path without the line feed at its end, if there is one. -/
def withoutLineFeed (path : List Char) : List Char :=
  if path.getLast? = some '\n' then path.dropLast else path

/-- A path without the slashes at its end, if there are any. -/
def withoutSlashes (path : List Char) : List Char := (path.reverse.dropWhile (· = '/')).reverse

/-- The place to which a path leads. One line feed at the end of the path plays no
part, and slashes at its end are left out where that leads to a place. -/
def ofPath? (path : String) : Option Place :=
  let find path := at? (String.ofList (withoutLineFeed path))
  (find path.toList).or (find (withoutSlashes path.toList))

/-- The place to which a target leads. -/
def ofTarget? (target : String) : Option Place := ofPath? (Target.pathOf target)

/-- An address is reached by its own path. -/
@[simp] theorem ofTarget?_path (endpoint : Endpoint) :
    ofTarget? endpoint.path = some (.endpoint endpoint) := by
  cases endpoint <;> decide +kernel

end Place

/-- The response to a call, with what is left of the supply. The text of a page is not
modelled. -/
def Call.respond (call : Call) (limits : Limits) (supply : Supply) : Response × Supply :=
  let method := Text.upper call.method
  match Place.ofTarget? call.target with
  | none => (.notFound, supply)
  | some .root => (if method = "GET" then .health else .wrongMethod, supply)
  | some .page => (if method = "GET" ∨ method = "HEAD" then ⟨200, .null⟩ else .wrongMethod, supply)
  | some (.endpoint endpoint) =>
    if method = "POST" then endpoint.respond limits call.body supply else (.wrongMethod, supply)

end Workflow
