import WalletEngine.Http.Wire
import WalletEngine.Web.Router

/-! # The web surface on the wire

How requests of pages are read from a connection and answers are written to it. A connection serves
for one request.
-/

namespace WalletEngine.Web

/-- Reads a request from what has come of it; without a length it has no body. -/
def Request.read (received : Bytes) (ended : Bool) : Http.Reading Request :=
  let framing (_ : String) (headers : List (String × String)) : Http.Framing :=
    .of headers (.length 0)
  match Http.Message.read framing received ended with
  | .done { first, headers, body, .. } =>
    match first.splitOn " " with
    | [method, target, _] => .done { method, target, headers, body }
    | _ => .malformed
  | .more => .more
  | .malformed => .malformed

/-- The words for a status. -/
def reason : Nat → String
  | 200 => "OK"
  | 400 => "Bad Request"
  | 404 => "Not Found"
  | 405 => "Method Not Allowed"
  | 413 => "Payload Too Large"
  | 415 => "Unsupported Media Type"
  | 503 => "Service Unavailable"
  | _ => ""

def Response.wire (r : Response) : Bytes :=
  let body := Bytes.ofText r.body
  Http.Message.wire s!"HTTP/1.1 {r.status} {reason r.status}"
    (r.headers ++ [("content-length", toString body.length), ("connection", "close")]) body

end WalletEngine.Web
