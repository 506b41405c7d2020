import WalletEngine.Liveness.Report

/-! # Replies of the coordinator

Every reply is written as the object of its own members, without a tag.
-/

namespace WalletEngine.Relay
open Json (Decoder)

/-- Whether there is a wallet, and its public view. -/
structure WalletStatus where
  hasWallet : Bool
  wallet : Option WalletView
  deriving DecidableEq, Repr

/-- The outcome of a probe, without its time. -/
structure HealthStatus where
  connected : Bool
  status : Option UInt16
  error : Option String
  deriving DecidableEq, Repr

/-- The outcome of a request for a signature. -/
structure SignatureResult where
  success : Bool
  signature : Option String
  error : Option String
  deriving DecidableEq, Repr

/-- An error as a text. -/
structure ErrorReply where
  error : String
  deriving DecidableEq, Repr

/-- What the coordinator replies. -/
inductive Reply where
  | wallet (status : WalletStatus)
  | health (status : HealthStatus)
  | signature (result : SignatureResult)
  | error (reply : ErrorReply)
  deriving DecidableEq, Repr

def WalletStatus.toJson (s : WalletStatus) : Json :=
  .object [("hasWallet", .bool s.hasWallet), ("wallet", .ofOption WalletView.toJson s.wallet)]

def WalletStatus.decoder : Decoder WalletStatus :=
  .record "WalletStatus" [.required "hasWallet" .bool, .nullable "wallet" WalletView.decoder]
    fun (hasWallet, wallet, _) => { hasWallet, wallet }

/-- The status of a wallet that may not be there. -/
def WalletStatus.of (wallet : Option Wallet) : WalletStatus :=
  { hasWallet := wallet.isSome, wallet := wallet.map Wallet.view }

/-- The outcome of a probe as a value. -/
def HealthStatus.toJson (s : HealthStatus) : Json :=
  .object (Liveness.Report.statusMembers s.connected s.status s.error)

/-- Reads the outcome of a probe. -/
def HealthStatus.decoder : Decoder HealthStatus :=
  .record "HealthStatus"
    [.required "connected" .bool, .optional "status" .uint16, .optional "error" .string]
    fun (connected, status, error, _) => { connected, status, error }

/-- The outcome that a report tells of. -/
def HealthStatus.of (r : Liveness.Report) : HealthStatus :=
  { connected := r.connected, status := r.status, error := r.error }

/-- The outcome of a request for a signature as a value. -/
def SignatureResult.toJson (r : SignatureResult) : Json :=
  .object <| ("success", .bool r.success) :: Json.optionalMember "signature" .string r.signature ++
    Json.optionalMember "error" .string r.error

/-- Reads the outcome of a request for a signature. -/
def SignatureResult.decoder : Decoder SignatureResult :=
  .record "SignatureResult"
    [.required "success" .bool, .optional "signature" .string, .optional "error" .string]
    fun (success, signature, error, _) => { success, signature, error }

def SignatureResult.signed (signature : String) : SignatureResult :=
  { success := true, signature := some signature, error := none }

def SignatureResult.failed (error : String) : SignatureResult :=
  { success := false, signature := none, error := some error }

def ErrorReply.toJson (r : ErrorReply) : Json := .object [("error", .string r.error)]

def ErrorReply.decoder : Decoder ErrorReply :=
  .record "ErrorReply" [.required "error" .string] fun (error, _) => { error }

def Reply.toJson : Reply → Json
  | .wallet status => status.toJson
  | .health status => status.toJson
  | .signature result => result.toJson
  | .error reply => reply.toJson

def WalletStatus.shown (s : WalletStatus) : String :=
  Text.quotedRecord "WalletStatus"
    [("has_wallet", toString s.hasWallet), ("wallet", Text.quotedOption WalletView.shown s.wallet)]

def HealthStatus.shown (s : HealthStatus) : String :=
  Text.quotedRecord "HealthStatus" [("connected", toString s.connected),
    ("status", Text.quotedOption toString s.status), ("error", Text.quotedOption Text.quoted s.error)]

def SignatureResult.shown (r : SignatureResult) : String :=
  Text.quotedRecord "SignatureResult" [("success", toString r.success),
    ("signature", Text.quotedOption Text.quoted r.signature),
    ("error", Text.quotedOption Text.quoted r.error)]

def ErrorReply.shown (r : ErrorReply) : String :=
  Text.quotedRecord "ErrorReply" [("error", Text.quoted r.error)]

/-- A reply as it is quoted where another one was expected. -/
def Reply.shown : Reply → String
  | .wallet status => "WalletStatus(" ++ status.shown ++ ")"
  | .health status => "Health(" ++ status.shown ++ ")"
  | .signature result => "Signature(" ++ result.shown ++ ")"
  | .error reply => "Error(" ++ reply.shown ++ ")"

def Reply.signature? : Reply → Option String
  | .signature result => result.signature
  | _ => none

end WalletEngine.Relay
