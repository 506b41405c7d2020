import WalletEngine.Http.Exchange

/-! # Redirections

A response may refer to another place, and the request is then made there. Some of these responses ask
for a request that only reads, and has no body, in place of the first one. An exchange follows them a
number of times; what would not end fails.
-/

namespace WalletEngine.Http
open Url (breakAt)

/-- A response with the reference to another place in it. -/
structure Answer where
  response : Response
  location : Option String
  deriving DecidableEq, Repr

/-- The place that a path is in. -/
def above (path : String) : String :=
  String.ofList (path.toList.reverse.dropWhile (· != '/')).reverse

/-- The address that is meant by a reference from another one. -/
def Url.join? (names : Names) (base : Url) (reference : String) : Option Url :=
  let cs := reference.toList
  match scheme? cs, cs with
  | some _, _ => parse? names reference
  | none, '/' :: '/' :: _ => parse? names (base.scheme ++ ":" ++ reference)
  | none, _ =>
    let (path, rest) := breakAt (fun c => c == '?' || c == '#') cs
    let target := match path, rest with
      | '/' :: _, _ => reference
      | [], '?' :: _ => base.path ++ reference
      | [], _ => base.target ++ reference
      | _, _ => above base.path ++ reference
    parse? names (base.scheme ++ "://" ++ base.authority ++ target)

/-- The request that a status asks for in place of one, if it asks for another at all. -/
def Request.again? (r : Request) (status : UInt16) (url : Url) : Option Request :=
  let reading : Request := { method := .get, url, body := none }
  match status.toNat with
  | 301 | 302 => some (if r.method = .post then reading else { r with url })
  | 303 => some reading
  | 307 | 308 => some { r with url }
  | _ => none

/-- A request, and the address that has referred to its own. -/
structure Hop where
  request : Request
  referrer : Option Url := none

/-- What is told of the address that has referred to this one; nothing, if it was a protected one and
this one is not. -/
def Hop.referrerText (h : Hop) : Option String :=
  (h.referrer.filter fun url => !(h.request.url.scheme = "http" && url.scheme = "https")).map
    fun url => { url.anonymous with fragment := none }.text

/-- Where an answer leads. -/
inductive Lead where
  /-- It is the last one. -/
  | done
  /-- It refers to a place where nobody can be asked. -/
  | lost
  | next (hop : Hop)

/-- The request that an answer asks for in place of the one that it answers. -/
def Hop.again? (names : Names) (h : Hop) (a : Answer) : Option Request := do
  h.request.again? a.response.status (← h.request.url.join? names (← a.location))

def Hop.lead (names : Names) (h : Hop) (a : Answer) : Lead :=
  match h.again? names a with
  | none => .done
  | some request =>
    if request.url.host.isNone || (request.url.scheme != "http" && request.url.scheme != "https") then
      .lost
    else .next { request := { request with url := request.url.anonymous }, referrer := h.request.url }

/-- How often a request is made at most, with ten redirections. -/
def mostHops : Nat := 11

/-- Makes an exchange of single requests, at most so many of them. -/
def follow {m : Type → Type} [Monad m] (names : Names) (once : Hop → m (Option Answer)) :
    Nat → Hop → m (Option Response)
  | 0, _ => return none
  | left + 1, hop => do
    match ← once hop with
    | none => return none
    | some answer =>
      match hop.lead names answer with
      | .done => return some answer.response
      | .lost => return none
      | .next hop => follow names once left hop

end WalletEngine.Http
