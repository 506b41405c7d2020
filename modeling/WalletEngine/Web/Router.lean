import WalletEngine.Fault
import WalletEngine.Http.MediaType
import WalletEngine.Relay.Coordinator

/-! # The web surface

Two routes: one says that the service is there, the other hands a message on to the coordinator.
Pages of any origin may ask; every answer says so. A request is looked at in a fixed order: its
path, its method, the type of its content, the length of its body, the text, the message in it, and
only then does the coordinator see it.
-/

namespace WalletEngine.Web
variable {m : Type → Type} [Monad m]

/-- A request to the surface. -/
structure Request where
  method : String
  /-- The path with what follows it. -/
  target : String
  headers : List (String × String)
  body : Bytes

/-- An answer of the surface. -/
structure Response where
  status : Nat
  headers : List (String × String)
  body : String
  deriving DecidableEq, Repr

/-- The routes. -/
inductive Route where
  | health
  | relay
  deriving DecidableEq, Repr

def Route.path : Route → String
  | .health => "/health"
  | .relay => "/bridge"

/-- The methods that a route allows, as the `allow` header names them. -/
def Route.allowed : Route → String
  | .health => "GET,HEAD"
  | .relay => "POST"

def Route.at? (path : String) : Option Route :=
  [Route.health, .relay].find? (·.path = path)

/-- The first value of a header. -/
def Request.header? (r : Request) (name : String) : Option String :=
  (r.headers.find? fun (n, _) => n.map Char.toLower = name).map (·.2)

/-- The path of a request, without query and fragment. -/
def Request.path (r : Request) : String :=
  String.ofList (r.target.toList.takeWhile fun c => c != '?' && c != '#')

/-- The headers that let pages of any origin read an answer. -/
def openHeaders : List (String × String) :=
  [("access-control-allow-origin", "*"),
   ("vary", "origin, access-control-request-method, access-control-request-headers")]

/-- The headers that let pages of any origin send any request. -/
def preflightHeaders : List (String × String) :=
  [("access-control-allow-headers", "*"), ("access-control-allow-methods", "*")]

namespace Response

/-- An answer without a body. -/
def empty (status : Nat) (headers : List (String × String)) : Response :=
  { status, headers, body := "" }

def plain (status : Nat) (text : String) : Response :=
  { status, headers := [("content-type", "text/plain; charset=utf-8")], body := text }

def json (status : Nat) (value : Json) : Response :=
  { status, headers := [("content-type", "application/json")], body := value.compact }

/-- An answer with the text of a fault. -/
def fault (status : Nat) (fault : Fault) : Response :=
  json status (.object [("error", .string fault.message)])

/-- The answer with more headers. -/
def addHeaders (r : Response) (headers : List (String × String)) : Response :=
  { r with headers := r.headers ++ headers }

end Response

def allowHeader (route : Route) : List (String × String) := [("allow", route.allowed)]

/-- The most bytes that the body of a message may have. -/
def bodyLimit : Nat := 2097152

/-- The value in the body of a request; what follows it does not count. -/
def readBody (r : Request) : Except Response Json :=
  if !(((r.header? "content-type").bind Http.MediaType.parse?).elim false (·.isJson)) then
    .error (.plain 415 "Expected request with `Content-Type: application/json`")
  else if bodyLimit < r.body.length then
    .error (.plain 413 "Failed to buffer the request body: length limit exceeded")
  else match Json.parsePrefix (Symbol.ofBytes r.body) with
    | .ok message => .ok message
    | .error problem =>
      let path := Json.pathText problem.path
      .error (.plain 400 ("Failed to parse the request body as JSON: " ++
        (if path.isEmpty then "" else path ++ ": ") ++ problem.message))

/-- Hands the message of a request on to the coordinator. -/
def relay (line : Relay.Line m) (r : Request) : m Response := do
  match readBody r with
  | .error response => return response
  | .ok message =>
    match Relay.Request.ofMessage message with
    | .error refusal => return .fault 400 (.refused refusal)
    | .ok request =>
      match ← line.request request with
      | some reply => return .json 200 reply.toJson
      | none => return .fault 503 .closed

def liveness (name : String) : Response :=
  .json 200 (.object [("service", .string name), ("status", .string "ok")])

/-- The answer to a request, for the service with a name. -/
def respond (name : String) (line : Relay.Line m) (r : Request) : m Response := do
  let answer ← match Route.at? r.path with
    | none => pure (if r.method = "OPTIONS" then .empty 200 preflightHeaders else .empty 404 [])
    | some route =>
      match route, r.method with
      | _, "OPTIONS" => pure (.empty 200 (preflightHeaders ++ allowHeader route))
      | .health, "GET" => pure (liveness name)
      | .health, "HEAD" => pure { liveness name with body := "" }
      | .relay, "POST" => relay line r
      | route, _ => pure (.empty 405 (allowHeader route))
  return answer.addHeaders openHeaders

def serviceName : String := "driftwallet"

end WalletEngine.Web
