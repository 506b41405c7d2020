import WalletEngine.Http.Url
import WalletEngine.Json.Decoder

/-! # Exchanges

One request goes out and one response comes back, from wherever the request was led, or the exchange
fails. A response may end before all of its body has come; what was announced then never arrives.
-/

namespace WalletEngine.Http

/-- The methods that the engine uses. -/
inductive Method where
  | get
  | post
  deriving DecidableEq, Repr

def Method.name : Method → String
  | .get => "GET"
  | .post => "POST"

/-- A request of the engine. A body is always JSON. -/
structure Request where
  method : Method
  url : Url
  body : Option String
  deriving DecidableEq, Repr

/-- A response. -/
structure Response where
  status : UInt16
  body : Bytes
  /-- Whether the body came to its announced end. -/
  complete : Bool
  deriving DecidableEq, Repr

/-- Makes an exchange; nothing comes back if there is no connection, no response in time or no end of
redirections. -/
abbrev Exchange (m : Type → Type) := Request → m (Option Response)

namespace Response

def isSuccess (r : Response) : Bool := 200 ≤ r.status && r.status < 300

/-- The bytes of the body; a status that allows no body has none. -/
def bytes? (r : Response) : Option Bytes :=
  if r.status == 204 || r.status == 304 then some []
  else if r.complete then some r.body else none

/-- The body as text; a body that did not arrive whole is empty. -/
def text (r : Response) : String := Utf8.lenient (r.bytes?.getD [])

/-- The body as a value of a type, if it arrived whole and is one. -/
def decode? {α : Type} (d : Json.Decoder α) (r : Response) : Option α := do
  (d.decode (Symbol.ofBytes (← r.bytes?))).toOption

end Response
end WalletEngine.Http
