import WalletEngine.Web.Wire
import Std.Async.DNS
import Std.Async.TCP
import Std.Async.Timer

/-! # The real network

Exchanges over connections of their own, each within a time limit, and the connections of pages.
There is no encrypted transport: an address that asks for one cannot be reached. Nor are there tables of
international names.
-/

namespace WalletEngine.Shell
open Std.Async (Async)
open Std.Async.TCP.Socket (Client Server)
open Std.Net (IPAddr SocketAddress)

/-- The most bytes that are taken from a connection at a time. -/
def pieceSize : UInt64 := 65536

/-- Reads from a connection until a message is there. -/
partial def receive {α : Type} (client : Client) (read : Bytes → Bool → Http.Reading α)
    (received : Bytes) : Async (Option α) := do
  let piece ← client.recv? pieceSize
  let received := received ++ (piece.map ByteArray.toList).getD []
  match read received piece.isNone with
  | .done a => return some a
  | .malformed => return none
  | .more => if piece.isNone then return none else receive client read received

def sendBytes (client : Client) (bytes : Bytes) : Async Unit :=
  client.send (ByteArray.mk bytes.toArray)

def names : Http.Names := fun _ => none

def socketAddress (address : IPAddr) (port : UInt16) : SocketAddress :=
  match address with
  | .v4 address => .v4 { addr := address, port }
  | .v6 address => .v6 { addr := address, port }

/-- A host name as the resolver takes it, without the brackets of a numeric address. -/
def resolverName (host : String) : String :=
  String.ofList (host.toList.filter fun c => c != '[' && c != ']')

/-- Makes one request, however long it takes. -/
def requestOnce (hop : Http.Hop) : Async (Option Http.Answer) := do
  let url := hop.request.url
  if url.scheme != "http" then return none
  match url.host, Http.Url.usualPort? url.scheme with
  | some name, some usual =>
    let port := url.port.getD usual
    let addresses ← Std.Async.DNS.getAddrInfo (resolverName name) (toString port)
    match addresses[0]? with
    | none => return none
    | some address =>
      let client ← Client.mk
      client.connect (socketAddress address (UInt16.ofNat port))
      sendBytes client hop.wire
      receive client Http.Answer.read []
  | _, _ => return none

/-- Makes an exchange within a number of milliseconds. -/
def exchange (limit : Nat) : Http.Exchange Async := fun r => do
  let patience : Async (Option Http.Response) := do
    Std.Async.sleep (.ofNat limit)
    return none
  try Async.race (Http.follow names requestOnce Http.mostHops { request := r }) patience
  catch _ => return none

/-- Answers the request of one connection. -/
def converse (respond : Web.Request → Async Web.Response) (client : Client) : Async Unit := do
  match ← receive client Web.Request.read [] with
  | none => return
  | some r =>
    sendBytes client (← respond r).wire
    client.shutdown

/-- Accepts connections for ever; each is answered on its own. -/
partial def acceptAll (server : Server) (respond : Web.Request → Async Web.Response) :
    Async Unit := do
  let client ← server.accept
  Std.Async.background (converse respond client)
  acceptAll server respond

/-- Listens at a port of all addresses of the machine. -/
def bind (port : UInt16) : IO Server := do
  let server ← Server.mk
  server.bind (.v4 { addr := .ofParts 0 0 0 0, port })
  server.listen 128
  return server

end WalletEngine.Shell
