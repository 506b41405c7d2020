import WalletEngine.Keyring.Secret
import WalletEngine.Bytes.Hmac
import WalletEngine.Json.Printer

/-! # What is derived from a secret

Address, public identity and signing key are digests of the digits of the secret followed by a word
that tells them apart. A signature is the keyed digest of the canonical text of a message, so
whoever knows the secret can check it by computing it again.
-/

namespace WalletEngine.Keyring

def addressLength : Nat := 20

/-- The digest of the digits of a secret followed by a word. -/
def derive (secret : Secret) (word : String) : Bytes :=
  Sha256.digest (Bytes.ofText secret.toHex ++ Bytes.ofText word)

def address (secret : Secret) : String :=
  Hex.encode ((derive secret "address_salt").take addressLength)

def identity (secret : Secret) : String :=
  Hex.encode (derive secret "pubkey_salt")

/-- The bytes of a message that are signed: its compact text. -/
def canonical (message : Json) : Bytes :=
  Bytes.ofText message.compact

/-- The keyed digest of a message. -/
def authenticate (secret : Secret) (message : Json) : Bytes :=
  Hmac.code (derive secret "signing_key") (canonical message)

def signature (secret : Secret) (message : Json) : String :=
  Hex.encode (authenticate secret message)

/-- Whether a text is the signature of a message, in digits of either case. -/
def verifies (secret : Secret) (message : Json) (text : String) : Bool :=
  match Hex.decode text with
  | .ok bytes => bytes == authenticate secret message
  | .error _ => false

end WalletEngine.Keyring
