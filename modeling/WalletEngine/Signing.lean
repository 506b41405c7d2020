import WalletEngine.Fault

/-! # Signing transfers

The one way to a signature: the amount must be allowed, there must be a wallet, and the transfer
must come from its address. Whether the owner wants it is asked elsewhere, before.
-/

namespace WalletEngine.Signing
variable {m : Type → Type} [Monad m]

def checkAmount (x : Binary64) : Action m Binary64 :=
  (Transfer.checkAmount x).mapError Fault.invalidAmount

def loadWallet (host : Host m) (store : Store) : Action m Wallet := do
  match ← Action.ofStore (store.load host) with
  | some wallet => return wallet
  | none => throw .noWallet

/-- The signature of a wallet for a transfer from its own address. -/
def signWith (wallet : Wallet) (t : Transfer) : Except Fault String :=
  if t.sender = wallet.address then .ok (Keyring.signature wallet.secret t.toJson)
  else .error (.signing s!"sender {t.sender} is not this wallet")

def sign (host : Host m) (store : Store) (t : Transfer) : Action m String := do
  discard <| checkAmount t.amount
  let wallet ← loadWallet host store
  signWith wallet t

def signTransfer (host : Host m) (store : Store) (t : Transfer) : Action m SignedTransfer := do
  return t.signed (← sign host store t)

/-- Whether a signed transfer has the signature of the stored wallet. -/
def verify (host : Host m) (store : Store) (r : SignedTransfer) : Action m Bool := do
  let wallet ← loadWallet host store
  return r.verifies wallet.secret

end WalletEngine.Signing
