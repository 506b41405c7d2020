import WalletEngine.Json.Record
import WalletEngine.Keyring.Derivation
import WalletEngine.Time.InstantReader

/-! # The wallet

A wallet is made once from a secret; afterwards only its balance changes. Its public view leaves the
secret out and is all that other surfaces are given.
-/

namespace WalletEngine

def Time.Instant.toJson (t : Time.Instant) : Json := .string t.text

def Time.Instant.decoder : Json.Decoder Time.Instant :=
  .spelled "an RFC 3339 formatted date and time string" fun s =>
    (Time.Instant.parse s).mapError Time.StampFault.message

/-- The stored wallet. -/
structure Wallet where
  address : String
  identity : String
  secret : Keyring.Secret
  balance : Binary64
  createdAt : Time.Instant
  deriving DecidableEq

/-- What other surfaces see of a wallet. -/
structure WalletView where
  address : String
  identity : String
  balance : Binary64
  createdAt : Time.Instant
  deriving DecidableEq, Repr

namespace Wallet
open Json (Field Decoder)

def ofSecret (secret : Keyring.Secret) (createdAt : Time.Instant) : Wallet where
  address := Keyring.address secret
  identity := Keyring.identity secret
  secret := secret
  balance := .zero false
  createdAt := createdAt

/-- The view without the secret. -/
def view (w : Wallet) : WalletView where
  address := w.address
  identity := w.identity
  balance := w.balance
  createdAt := w.createdAt

def toJson (w : Wallet) : Json :=
  .object [("address", .string w.address), ("publicKey", .string w.identity),
    ("privateKey", w.secret.toJson), ("balance", .float w.balance),
    ("createdAt", w.createdAt.toJson)]

def fields : List Field :=
  [.required "address" .string, .required "publicKey" .string,
   .required "privateKey" Keyring.Secret.decoder, .required "balance" .float,
   .required "createdAt" Time.Instant.decoder]

/-- Reads a stored wallet. -/
def decoder : Decoder Wallet :=
  .record "WalletRecord" fields fun (address, identity, secret, balance, createdAt, _) =>
    { address, identity, secret, balance, createdAt }

def shown (w : Wallet) : String :=
  Text.quotedRecord "WalletRecord" [("address", Text.quoted w.address),
    ("public_identity", Text.quoted w.identity), ("secret", w.secret.shown),
    ("balance", w.balance.text .listing), ("created_at", w.createdAt.text)]

end Wallet

namespace WalletView
open Json (Field Decoder)

def toJson (v : WalletView) : Json :=
  .object [("address", .string v.address), ("publicKey", .string v.identity),
    ("balance", .float v.balance), ("createdAt", v.createdAt.toJson)]

def shown (v : WalletView) : String :=
  Text.quotedRecord "WalletView" [("address", Text.quoted v.address),
    ("public_identity", Text.quoted v.identity), ("balance", v.balance.text .listing),
    ("created_at", v.createdAt.text)]

def decoder : Decoder WalletView :=
  .record "WalletView"
    [.required "address" .string, .required "publicKey" .string, .required "balance" .float,
     .required "createdAt" Time.Instant.decoder]
    fun (address, identity, balance, createdAt, _) => { address, identity, balance, createdAt }

end WalletView
end WalletEngine
