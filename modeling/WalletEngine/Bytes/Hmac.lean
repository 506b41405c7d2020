import WalletEngine.Bytes.Sha256

/-! # Keyed digests

HMAC over SHA-256: the key is brought to one block, and the message is hashed twice under two masks
of it.
-/

namespace WalletEngine.Hmac

def blockLength : Nat := 64

/-- The key as exactly one block: long keys are hashed first, short ones filled with zeros. -/
def blockKey (key : Bytes) : Bytes :=
  let short := if key.length > blockLength then Sha256.digest key else key
  short ++ List.replicate (blockLength - short.length) 0

def code (key message : Bytes) : Bytes :=
  let block := blockKey key
  let inner := Sha256.digest (block.map (· ^^^ 0x36) ++ message)
  Sha256.digest (block.map (· ^^^ 0x5c) ++ inner)

/-- A code has thirty-two bytes. -/
theorem length_code (key message : Bytes) : (code key message).length = 32 :=
  Sha256.length_digest _

end WalletEngine.Hmac
