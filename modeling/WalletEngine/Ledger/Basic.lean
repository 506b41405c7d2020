import WalletEngine.Liveness.Report
import WalletEngine.Transfer.Basic
import WalletEngine.Transfer.History

/-! # The remote ledger

What the engine asks of the ledger and how the ledger may refuse. The calls are a record over an
arbitrary monad, so that a ledger may be a client of a server, a script, or an adversary in a proof.
-/

namespace WalletEngine

/-- Why a call of the ledger gave no answer. -/
inductive Ledger.Fault where
  /-- The ledger could not be reached. -/
  | transport (reason : String)
  /-- The ledger answered with a status that is no success. -/
  | status (code : UInt16) (body : String)
  /-- The ledger refused. -/
  | rejected (reason : String)
  /-- The answer was not understood. -/
  | decode (reason : String)
  deriving DecidableEq, Repr

def Ledger.Fault.message : Ledger.Fault → String
  | .transport reason => "transport: " ++ reason
  | .status code body => s!"http {code}: {body}"
  | .rejected reason => "rejected: " ++ reason
  | .decode reason => "decode: " ++ reason

def Liveness.Report.ofOutcome (outcome : Except Ledger.Fault Probe) (now : Time.Instant) :
    Report :=
  match outcome with
  | .ok probe => .ofProbe probe now
  | .error fault => .unreachable fault.message now

/-- What the ledger answers to an accepted transfer. -/
structure Ledger.Receipt where
  hash : Option String
  deriving DecidableEq, Repr

/-- What the ledger answers to an accepted request for funds. -/
structure Ledger.FaucetReceipt where
  status : String
  balance : Option Binary64
  deriving DecidableEq, Repr

/-- The calls of a ledger within `m`. -/
structure Ledger (m : Type → Type) where
  /-- Probes the liveness endpoint of a service. -/
  health : Liveness.Service → m (Except Ledger.Fault Liveness.Probe)
  /-- The balance of an address. -/
  balance : String → m (Except Ledger.Fault Binary64)
  /-- The history of an address. -/
  history : String → m (Except Ledger.Fault (List Transfer.HistoryEntry))
  /-- Hands in a transfer. -/
  submit : SignedTransfer → m (Except Ledger.Fault Ledger.Receipt)
  /-- Asks for funds. -/
  faucet : String → Binary64 → m (Except Ledger.Fault Ledger.FaucetReceipt)

namespace Ledger
open Json (Decoder)

def Receipt.toJson (r : Receipt) : Json := .object [("hash", .ofOption .string r.hash)]

def Receipt.decoder : Decoder Receipt :=
  .record "SubmitReceipt" [.nullable "hash" .string] fun (hash, _) => { hash }

/-- A receipt for funds as a value. -/
def FaucetReceipt.toJson (r : FaucetReceipt) : Json :=
  .object [("status", .string r.status), ("balance", .ofOption .float r.balance)]

/-- Reads a receipt for funds. -/
def FaucetReceipt.decoder : Decoder FaucetReceipt :=
  .record "FaucetReceipt" [.required "status" .string, .nullable "balance" .float]
    fun (status, balance, _) => { status, balance }

end Ledger
end WalletEngine
