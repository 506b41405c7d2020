import WalletEngine.Liveness.Report

/-! # The stored image

One file holds everything that outlives a process: the wallet, a version that counts its changes,
and the latest overview of the services. Every change of the image is a pure function here; what is
not the wallet does not count as a change of it.
-/

namespace WalletEngine.Store

/-- The content of the stored file. -/
structure Image where
  version : UInt64
  wallet : Option Wallet
  health : Option Liveness.Overview
  deriving DecidableEq

/-- Why the image was not changed. -/
inductive Conflict where
  | noWallet
  /-- Somebody changed the wallet since the expected version. -/
  | version (expected actual : UInt64)
  deriving DecidableEq, Repr

namespace Image
open Json (Decoder)

/-- The image of a store that was never written. -/
def empty : Image := ⟨0, none, none⟩

def toJson (i : Image) : Json :=
  .object [("version", .integer i.version.toNat), ("wallet", .ofOption Wallet.toJson i.wallet),
    ("health", .ofOption Liveness.Overview.toJson i.health)]

def decoder : Decoder Image :=
  .record "StoreFile"
    [.withDefault "version" .uint64 0, .optional "wallet" Wallet.decoder,
     .optional "health" Liveness.Overview.decoder]
    fun (version, wallet, health, _) => { version, wallet, health }

/-- The image with a wallet in it, at the next version. -/
def withWallet (i : Image) (w : Wallet) : Image :=
  { i with wallet := some w, version := i.version + 1 }

/-- The image with another balance. `expected` is the version that the change is based on; without
it the change applies to any. An equal balance is no change. The answer has the version that holds
afterwards and the new image, if there is one. -/
def setBalance (i : Image) (expected : Option UInt64) (balance : Binary64) :
    Except Conflict (UInt64 × Option Image) :=
  match expected.filter (· != i.version), i.wallet with
  | some v, _ => .error (.version v i.version)
  | none, none => .error .noWallet
  | none, some w =>
    if w.balance.equals balance then .ok (i.version, none)
    else
      let changed := i.withWallet { w with balance }
      .ok (changed.version, some changed)

def withHealth (i : Image) (overview : Liveness.Overview) : Image :=
  { i with health := some overview }

end Image
end WalletEngine.Store
