import WalletEngine.Json.Record
import WalletEngine.Keyring.Derivation

/-! # Transfers

The body of a transfer is what is signed; the order of its members is part of its text. A signed
transfer is the body with one more member at the end.
-/

namespace WalletEngine

/-- The body of a transfer. -/
structure Transfer where
  sender : String
  recipient : String
  amount : Binary64
  /-- Milliseconds from the start of 1970. -/
  timestamp : Int64
  nonce : String
  deriving DecidableEq, Repr

/-- A transfer with its signature, as the ledger takes it. -/
structure SignedTransfer extends Transfer where
  signature : String
  deriving DecidableEq, Repr

namespace Transfer
open Json (Field Decoder)

def signed (t : Transfer) (signature : String) : SignedTransfer :=
  { t with signature }

/-- The members of the body, in the order in which they are signed. -/
def members (t : Transfer) : List (String × Json) :=
  [("from", .string t.sender), ("to", .string t.recipient), ("amount", .float t.amount),
   ("timestamp", .integer t.timestamp.toInt), ("nonce", .string t.nonce)]

/-- The body as a value. -/
def toJson (t : Transfer) : Json := .object t.members

def fields : List Field :=
  [.required "from" .string, .required "to" .string, .required "amount" .float,
   .required "timestamp" .int64, .required "nonce" .string]

def ofRow : Json.Row fields → Transfer
  | (sender, recipient, amount, timestamp, nonce, _) =>
    { sender, recipient, amount, timestamp, nonce }

/-- Reads the body of a transfer. -/
def decoder : Decoder Transfer :=
  .record "UnsignedTransaction" fields ofRow

end Transfer

namespace SignedTransfer
open Json (Field Decoder)

/-- The body without its signature. -/
def unsigned (r : SignedTransfer) : Transfer := r.toTransfer

def toJson (r : SignedTransfer) : Json :=
  .object (r.toTransfer.members ++ [("signature", .string r.signature)])

def fields : List Field :=
  [.required "from" .string, .required "to" .string, .required "amount" .float,
   .required "timestamp" .int64, .required "nonce" .string, .required "signature" .string]

def decoder : Decoder SignedTransfer :=
  .record "TransactionRecord" fields
    fun (sender, recipient, amount, timestamp, nonce, signature, _) =>
      { sender, recipient, amount, timestamp, nonce, signature }

def verifies (secret : Keyring.Secret) (r : SignedTransfer) : Bool :=
  Keyring.verifies secret r.unsigned.toJson r.signature

end SignedTransfer
end WalletEngine
