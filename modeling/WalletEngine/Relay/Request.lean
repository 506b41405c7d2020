import WalletEngine.Json.Variant
import WalletEngine.Transfer.Basic

/-! # Requests to the coordinator

A request is written as an object with the member `type`. A message that is no request is refused in
one of two ways: its kind is not known at all, or the kind is known and the rest does not fit it.
-/

namespace WalletEngine.Relay

/-- What the coordinator is asked for. -/
inductive Request where
  | walletStatus
  | nodeHealth
  | simulatorHealth
  | sign (transfer : Transfer)
  deriving DecidableEq, Repr

/-- The kinds of requests. -/
inductive Kind where
  | walletStatus
  | nodeHealth
  | simulatorHealth
  | sign
  deriving DecidableEq, Repr

def Kind.name : Kind → String
  | .walletStatus => "GET_WALLET_STATUS"
  | .nodeHealth => "NODE_HEALTH_CHECK"
  | .simulatorHealth => "SIMULATOR_HEALTH_CHECK"
  | .sign => "SIGN_TRANSACTION"

def Kind.all : List Kind := [.walletStatus, .nodeHealth, .simulatorHealth, .sign]

def Kind.named? (name : String) : Option Kind :=
  Kind.all.find? fun k => k.name = name

/-- Why a message is no request. -/
inductive Refusal where
  /-- The kind of the message is not known. -/
  | unsupported (kind : String)
  /-- The message does not fit its kind. -/
  | malformed (kind : String) (cause : Json.Cause)
  deriving DecidableEq, Repr

namespace Request

def kind : Request → Kind
  | .walletStatus => .walletStatus
  | .nodeHealth => .nodeHealth
  | .simulatorHealth => .simulatorHealth
  | .sign _ => .sign

def toJson (r : Request) : Json :=
  .object <| ("type", .string r.kind.name) :: match r with
    | .sign transfer => [("transaction", transfer.toJson)]
    | _ => []

def signFields : List Json.Field := [.required "transaction" Transfer.decoder]

def ofSignContent (content : Json) : Except Json.Cause Request := do
  let (transfer, _) ← Json.Decoder.takeRecord "struct variant Request::SignTransaction"
    "struct variant Request::SignTransaction with 1 element" signFields .kept content
  return .sign transfer

/-- A request without a payload; members beside the tag do not count, elements behind it do. -/
def ofPlainContent (request : Request) : Json → Except Json.Cause Request
  | .array (first :: rest) =>
    .error (.wrongLength (first :: rest).length (Json.Content.kept.fewer 0))
  | _ => .ok request

/-- A request from its kind and what belongs to it. -/
def ofContent : Kind → Json → Except Json.Cause Request
  | .walletStatus => ofPlainContent .walletStatus
  | .nodeHealth => ofPlainContent .nodeHealth
  | .simulatorHealth => ofPlainContent .simulatorHealth
  | .sign => ofSignContent

def decoder : Json.Decoder Request :=
  .tagged "internally tagged enum Request" "type"
    (fun name => match Kind.named? name with
      | some kind => .ok kind
      | none => .error (.unknownVariant name (Kind.all.map Kind.name)))
    ofContent

def claimedKind (message : Json) : String :=
  ((message.member? "type").bind Json.text?).getD "<missing>"

def ofMessage (message : Json) : Except Refusal Request :=
  match decoder.ofTree .value message with
  | .ok request => .ok request
  | .error cause =>
    let kind := claimedKind message
    .error (if (Kind.named? kind).isSome then .malformed kind cause else .unsupported kind)

end Request
end WalletEngine.Relay
