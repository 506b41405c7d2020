import WalletEngine.Bytes.Hex
import WalletEngine.Http.Redirect

/-! # Messages on the wire

A message is a first line, headers, an empty line and a body. The body ends where the headers say,
or with the connection. Reading is a function of what has come so far and of whether more can come,
so a connection is read by asking again after every piece.
-/

namespace WalletEngine.Http

/-- A message as it is sent. -/
structure Message where
  first : String
  headers : List (String × String)
  body : Bytes
  /-- Whether the body came to its announced end. -/
  complete : Bool
  deriving DecidableEq, Repr

/-- How far the reading of a message has come. -/
inductive Reading (α : Type) where
  | done (a : α)
  /-- More has to come. -/
  | more
  | malformed
  deriving DecidableEq, Repr

def ascii (s : String) : Bytes := Bytes.ofText s

/-- What comes before and after the first occurrence of a mark. -/
def splitFirst? (mark : Bytes) (before : Bytes) : Bytes → Option (Bytes × Bytes)
  | [] => none
  | b :: rest =>
    if mark.isPrefixOf (b :: rest) then some (before.reverse, (b :: rest).drop mark.length)
    else splitFirst? mark (b :: before) rest

def header? (line : String) : Option (String × String) :=
  match line.toList.span (· != ':') with
  | (name@(_ :: _), _ :: value) =>
    some (String.ofList (name.map Char.toLower),
      String.ofList (((value.dropWhile (· == ' ')).reverse.dropWhile (· == ' ')).reverse))
  | _ => none

/-- How the end of a body is found. -/
inductive Framing where
  | length (n : Nat)
  | chunked
  | untilClosed
  deriving DecidableEq, Repr

/-- The framing that headers announce; `default` holds if they announce none. -/
def Framing.of (headers : List (String × String)) (default : Framing) : Framing :=
  if (headers.lookup "transfer-encoding").any (·.map Char.toLower = "chunked") then .chunked
  else match headers.lookup "content-length" with
    | some digits => match digits.toNat? with
      | some n => .length n
      | none => default
    | none => default

def hexNumber? (digits : Bytes) : Option Nat :=
  if digits.isEmpty then none
  else digits.foldlM (fun n b => (Hex.value? b).map (16 * n + ·)) 0

/-- Puts the chunks of a body together; at most `fuel` of them. -/
def readChunks (read : Bytes) : Nat → Bytes → Reading Bytes
  | 0, _ => .malformed
  | fuel + 1, rest =>
    match splitFirst? (ascii "\r\n") [] rest with
    | none => .more
    | some (line, rest) =>
      match hexNumber? (line.takeWhile fun b => (Hex.value? b).isSome) with
      | none => .malformed
      | some 0 => .done read
      | some n =>
        if rest.length < n + 2 then .more
        else readChunks (read ++ rest.take n) fuel (rest.drop (n + 2))

/-- Reads a body from what has come of it; `ended` says that no more will come. -/
def readBody (framing : Framing) (rest : Bytes) (ended : Bool) : Reading (Bytes × Bool) :=
  match framing with
  | .length n =>
    if n ≤ rest.length then .done (rest.take n, true)
    else if ended then .done (rest, false)
    else .more
  | .untilClosed => if ended then .done (rest, true) else .more
  | .chunked =>
    match readChunks [] (rest.length + 1) rest with
    | .done body => .done (body, true)
    | .malformed => .malformed
    | .more => if ended then .done ([], false) else .more

/-- Reads a message from what has come of it; the first line and the headers settle its framing. -/
def Message.read (framing : String → List (String × String) → Framing) (received : Bytes)
    (ended : Bool) : Reading Message :=
  match splitFirst? (ascii "\r\n\r\n") [] received with
  | none => if ended then .malformed else .more
  | some (head, rest) =>
    match (Utf8.lenient head).splitOn "\r\n" with
    | [] => .malformed
    | first :: lines =>
      let headers := lines.filterMap header?
      match readBody (framing first headers) rest ended with
      | .done (body, complete) => .done { first, headers, body, complete }
      | .more => .more
      | .malformed => .malformed

def Message.wire (first : String) (headers : List (String × String)) (body : Bytes) : Bytes :=
  ascii (first ++ "\r\n" ++ String.join (headers.map fun (name, value) =>
    name ++ ": " ++ value ++ "\r\n") ++ "\r\n") ++ body

/-- A request as bytes; the connection serves for it alone. -/
def Hop.wire (h : Hop) : Bytes :=
  let r := h.request
  let body := Bytes.ofText (r.body.getD "")
  let referrer := h.referrerText.toList.map fun text => ("referer", text)
  let content := if r.body.isSome then
      [("content-type", "application/json"), ("content-length", toString body.length)]
    else []
  Message.wire s!"{r.method.name} {r.url.target} HTTP/1.1"
    ([("accept", "*/*"), ("host", r.url.authority), ("connection", "close")] ++ referrer ++ content)
    body

def status? (first : String) : Option Nat :=
  match first.splitOn " " with
  | _ :: code :: _ => code.toNat?
  | _ => none

/-- Reads a response. One that allows no body has none, whatever its headers say. -/
def Answer.read (received : Bytes) (ended : Bool) : Reading Answer :=
  let framing (first : String) (headers : List (String × String)) : Framing :=
    if status? first = some 204 || status? first = some 304 then .length 0
    else .of headers .untilClosed
  match Message.read framing received ended with
  | .done message =>
    match status? message.first with
    | some code =>
      let response : Response :=
        { status := UInt16.ofNat code, body := message.body, complete := message.complete }
      .done { response, location := message.headers.lookup "location" }
    | none => .malformed
  | .more => .more
  | .malformed => .malformed

end WalletEngine.Http
