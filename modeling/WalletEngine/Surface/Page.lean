import WalletEngine.Relay.Coordinator

/-! # The surface of a page

A page is not trusted and holds no key. It has to connect before anything else works; from then on
it acts for the connected address only. Signatures come from the coordinator, which may refuse them.
-/

namespace WalletEngine.Surface
open Relay
variable {m : Type → Type} [Monad m]

/-- What a page works with. -/
structure Page (m : Type → Type) where
  host : Host m
  line : Line m
  ledger : Ledger m

/-- The address that a page is connected to. -/
abbrev Session := Option String

namespace Page

/-- Asks for the wallet. The session is the address of the wallet, or none if there is no wallet. -/
def connect (p : Page m) : Action m Session := do
  match ← p.line.ask .walletStatus with
  | .wallet status => return (status.wallet.filter fun _ => status.hasWallet).map (·.address)
  | .error reply => throw (.answered reply.error)
  | reply => throw (.answered ("unexpected reply " ++ reply.shown))

def connected (session : Session) : Action m String :=
  match session with
  | some address => return address
  | none => throw .unauthorized

/-- The signature in a reply. A refusal by the owner is told by its text. -/
def signatureOf : Reply → Except Fault String
  | .signature { success := true, signature := some signature, .. } => .ok signature
  | .signature { success := true, signature := none, .. } => .error (.signing "empty signature")
  | .signature { success := false, error, .. } =>
    let reason := error.getD ""
    .error (if reason = Fault.rejected.message then .rejected else .signing reason)
  | .error reply => .error (.answered reply.error)
  | reply => .error (.answered ("unexpected reply " ++ reply.shown))

def sign (p : Page m) (session : Session) (t : Transfer) : Action m String := do
  discard <| connected session
  signatureOf (← p.line.ask (.sign t))

/-- Makes, signs and hands in a transfer from the connected address. -/
def send (p : Page m) (session : Session) (recipient : String) (amount : Binary64) :
    Action m Ledger.Receipt := do
  let sender ← connected session
  let recipient := Text.trim recipient
  if recipient.isEmpty then throw .missingRecipient
  let amount ← Signing.checkAmount amount
  let t : Transfer :=
    { sender, recipient, amount, timestamp := ← p.host.millis, nonce := ← p.host.freshNonce }
  let signature ← p.sign session t
  match ← p.ledger.submit (t.signed signature) with
  | .ok receipt => return receipt
  | .error fault => throw (.submission fault)

/-- The balance of the connected address. -/
def balance (p : Page m) (session : Session) : Action m Binary64 := do
  let address ← connected session
  match ← p.ledger.balance address with
  | .ok balance => return balance
  | .error fault => throw (.connectivity fault)

/-- What a page may call. -/
inductive Call where
  | connect
  | address
  | isConnected
  | sign (transfer : Transfer)
  | send (recipient : String) (amount : Binary64)
  | balance
  deriving DecidableEq, Repr

/-- What a call is answered with. -/
inductive Answer where
  | session (session : Session)
  | flag (flag : Bool)
  | signature (signature : String)
  | receipt (receipt : Ledger.Receipt)
  | balance (balance : Binary64)

/-- One call in a session, with the session that holds afterwards. A connection replaces the
session; one that fails keeps it, and so do all other calls. -/
def step (p : Page m) (session : Session) : Call → m (Except Fault Answer × Session)
  | .connect => do
    match ← p.connect.run with
    | .ok session => return (.ok (.session session), session)
    | .error fault => return (.error fault, session)
  | .address => return (.ok (.session session), session)
  | .isConnected => return (.ok (.flag session.isSome), session)
  | .sign t => do return ((← (p.sign session t).run).map .signature, session)
  | .send recipient amount => do
    return ((← (p.send session recipient amount).run).map .receipt, session)
  | .balance => do return ((← (p.balance session).run).map .balance, session)

end Page
end WalletEngine.Surface
