import WalletEngine.Json.Record

/-! # Entries of a history

The ledger owns the shape of its entries. Five members are known, each of which may be absent; all
others are kept as they came.
-/

namespace WalletEngine.Transfer

/-- One entry of the history of an address. -/
structure HistoryEntry where
  sender : Option String
  recipient : Option String
  amount : Option Binary64
  timestamp : Option Int64
  hash : Option String
  /-- The members that are not known, sorted by name. -/
  others : List (String × Json)

namespace HistoryEntry
open Json (Field Decoder)

/-- An entry as a value; a known member that is absent is written as `null`. -/
def toJson (e : HistoryEntry) : Json :=
  .object <|
    [("from", .ofOption .string e.sender), ("to", .ofOption .string e.recipient),
     ("amount", .ofOption .float e.amount),
     ("timestamp", .ofOption (fun t => .integer t.toInt) e.timestamp),
     ("hash", .ofOption .string e.hash)] ++ e.others

/-- The known members. -/
def fields : List Field :=
  [.optional "from" .string, .optional "to" .string, .optional "amount" .float,
   .optional "timestamp" .int64, .optional "hash" .string]

def decoder : Decoder HistoryEntry :=
  .openRecord "HistoryEntry" fields fun (sender, recipient, amount, timestamp, hash, _) others =>
    { sender, recipient, amount, timestamp, hash, others }

end HistoryEntry
end WalletEngine.Transfer
