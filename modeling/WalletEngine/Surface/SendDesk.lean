import WalletEngine.Signing

/-! # The surface of the owner

The owner fills in a form. It is checked before anything leaves the process and emptied only when
the ledger has taken the transfer, so a send that failed can be tried again without typing. After
every success the desk asks for a refresh of what is shown.
-/

namespace WalletEngine.Surface
variable {m : Type → Type} [Monad m]

/-- What the owner typed. -/
structure SendForm where
  recipient : String
  amount : String
  deriving DecidableEq, Repr

namespace SendForm

def blank : SendForm := ⟨"", ""⟩

/-- Nothing is typed. -/
def isBlank (f : SendForm) : Bool := f.recipient.isEmpty && f.amount.isEmpty

/-- The recipient and the amount of a form. The recipient is looked at first. -/
def check (f : SendForm) : Except Fault (String × Binary64) := do
  let recipient := Text.trim f.recipient
  if recipient.isEmpty then throw .missingRecipient
  let amount ← (Transfer.readAmount f.amount).mapError Fault.invalidAmount
  return (recipient, amount)

end SendForm

/-- What the desk works with. -/
structure SendDesk (m : Type → Type) where
  host : Host m
  store : Store
  ledger : Ledger m
  /-- Asks for a refresh. -/
  refresh : m Unit

namespace SendDesk

/-- The address of the stored wallet. -/
def address (d : SendDesk m) : Action m String := do
  return (← Signing.loadWallet d.host d.store).address

def handIn (d : SendDesk m) (form : SendForm) : Action m Ledger.Receipt := do
  let (recipient, amount) ← form.check
  let sender ← d.address
  let t : Transfer :=
    { sender, recipient, amount, timestamp := ← d.host.millis, nonce := ← d.host.freshNonce }
  let signed ← Signing.signTransfer d.host d.store t
  match ← d.ledger.submit signed with
  | .ok receipt => return receipt
  | .error fault => throw (.submission fault)

/-- Sends the transfer of a form. The answer has the form as it is left. -/
def submit (d : SendDesk m) (form : SendForm) : m (Except Fault Ledger.Receipt × SendForm) := do
  match ← (d.handIn form).run with
  | .ok receipt =>
    d.refresh
    return (.ok receipt, .blank)
  | .error fault => return (.error fault, form)

/-- Asks the ledger for funds and stores the balance that it tells. -/
def requestFunds (d : SendDesk m) (amount : Binary64) : Action m Ledger.FaucetReceipt := do
  let amount ← Signing.checkAmount amount
  let address ← d.address
  match ← d.ledger.faucet address amount with
  | .error fault => throw (.submission fault)
  | .ok receipt =>
    if let some balance := receipt.balance then
      discard <| Action.ofStore (d.store.setBalance d.host none balance)
    d.refresh
    return receipt

end SendDesk
end WalletEngine.Surface
