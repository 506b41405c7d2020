import WalletEngine.Bytes.Utf8

/-! # Symbols of a received text

A text that arrives as bytes need not be UTF-8 throughout. It is read as symbols: characters, and
the bytes that belong to none. Readers count places in bytes, as the sender does.
-/

namespace WalletEngine

/-- A character of a received text, or a byte that is part of no character. -/
inductive Symbol where
  | char (c : Char)
  | stray (b : UInt8)
  deriving DecidableEq, Repr

namespace Symbol

def ofText (s : String) : List Symbol :=
  s.toList.map .char

def ofBytes (bs : Bytes) : List Symbol :=
  (Utf8.pieces bs).flatMap fun
    | .whole c => [.char c]
    | .broken bytes => bytes.map .stray

/-- The number of bytes that a symbol takes. -/
def size : Symbol → Nat
  | .char c => c.utf8Size
  | .stray _ => 1

/-- The number of bytes that symbols take together. -/
def totalSize (text : List Symbol) : Nat :=
  text.foldl (fun n s => n + s.size) 0

def isDigit : Symbol → Bool
  | .char c => c.isDigit
  | .stray _ => false

/-- One of the characters before the space. -/
def isControl : Symbol → Bool
  | .char c => c.toNat < 0x20
  | .stray _ => false

end Symbol
end WalletEngine
