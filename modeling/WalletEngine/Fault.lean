import WalletEngine.Ledger.Basic
import WalletEngine.Relay.Request
import WalletEngine.Store.Basic
import WalletEngine.Transfer.Amount

/-! # Why an action of the wallet failed

Every surface answers with one of these causes. The text of a cause is fixed here; a surface that
hands a failure on as text loses the cause but keeps the wording.
-/

namespace WalletEngine

/-- Why an action of the wallet failed. -/
inductive Fault where
  | keyring (fault : Keyring.Fault)
  | store (fault : Store.Fault)
  /-- A balance or a history could not be fetched. -/
  | connectivity (fault : Ledger.Fault)
  /-- A transfer was not signed. -/
  | signing (reason : String)
  /-- The ledger did not take a transfer or a request for funds. -/
  | submission (fault : Ledger.Fault)
  /-- A page acted before it was connected. -/
  | unauthorized
  | invalidAmount (fault : Transfer.AmountFault)
  | missingRecipient
  | noWallet
  /-- A message to the coordinator was no request. -/
  | refused (refusal : Relay.Refusal)
  /-- The coordinator is not running any more. -/
  | closed
  /-- The coordinator answered with an error. -/
  | answered (error : String)
  /-- The user did not approve a transfer. -/
  | rejected
  deriving DecidableEq, Repr

def Relay.Refusal.message : Relay.Refusal → String
  | .unsupported kind => "unsupported request: " ++ kind
  | .malformed kind cause => s!"bridge: malformed {kind}: " ++ cause.message

def Fault.message : Fault → String
  | .keyring fault => fault.message
  | .store fault => fault.message
  | .connectivity fault => "connectivity: " ++ fault.message
  | .signing reason => "signing failed: " ++ reason
  | .submission fault => "submission failed: " ++ fault.message
  | .unauthorized => "unauthorized: call connect() first"
  | .invalidAmount fault => "invalid amount: " ++ fault.message
  | .missingRecipient => "missing recipient"
  | .noWallet => "no wallet"
  | .refused refusal => refusal.message
  | .closed => "bridge: closed"
  | .answered error => "bridge: " ++ error
  | .rejected => "signing request rejected"

/-- An action within `m` that may fail. -/
abbrev Action (m : Type → Type) := ExceptT Fault m

/-- A fault of the store as a fault of the wallet. -/
def Action.ofStore {m : Type → Type} [Monad m] {α : Type} (action : ExceptT Store.Fault m α) :
    Action m α :=
  action.adapt Fault.store

end WalletEngine
