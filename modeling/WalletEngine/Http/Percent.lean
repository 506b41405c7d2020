import WalletEngine.Bytes.Basic

/-! # Percent encoding

Bytes that a part of an address may not hold are written as a percent sign and two uppercase
hexadecimal digits. Each part has its own set of such characters; control characters and everything
beyond ASCII belong to all of them.
-/

namespace WalletEngine.Http

/-- The uppercase digit of a number below sixteen. -/
def upperDigit (n : Nat) : Char :=
  if n < 10 then Char.ofNat (48 + n) else Char.ofNat (55 + n)

/-- A byte as a percent sign and two digits. -/
def percentByte (b : UInt8) : List Char :=
  ['%', upperDigit (b.toNat / 16), upperDigit (b.toNat % 16)]

def fragmentSet : List Char := [' ', '"', '<', '>', '\x60']

def pathSet : List Char := fragmentSet ++ ['#', '?', '\x7b', '\x7d']

def querySet : List Char := [' ', '"', '#', '<', '>']

/-- The characters that are encoded in a query of one of the well-known schemes. -/
def specialQuerySet : List Char := '\'' :: querySet

/-- The characters that are encoded in a name or a password. -/
def userSet : List Char :=
  pathSet ++ ['/', ':', ';', '=', '@', '[', '\\', ']', '^', '|']

/-- A character, encoded if it is in the set, a control character or not ASCII. -/
def encodeChar (set : List Char) (c : Char) : List Char :=
  if c.toNat < 0x20 || 0x7e < c.toNat || set.contains c then
    (String.utf8EncodeChar c).flatMap percentByte
  else [c]

def encodeChars (set : List Char) (cs : List Char) : List Char :=
  cs.flatMap (encodeChar set)

end WalletEngine.Http
