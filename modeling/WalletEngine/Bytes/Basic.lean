/-! # Byte strings

Byte strings are lists, so that encoders and digests are plain recursion. A text has one byte
string, its UTF-8 form; the way back is in `Bytes.Utf8`.
-/

namespace WalletEngine

/-- A finite sequence of bytes. -/
abbrev Bytes := List UInt8

namespace Bytes

/-- The UTF-8 form of a text. -/
def ofText (s : String) : Bytes :=
  s.toList.flatMap String.utf8EncodeChar

theorem ofText_ofList (cs : List Char) :
    ofText (String.ofList cs) = cs.flatMap String.utf8EncodeChar := by
  simp [ofText]

/-- A word as four bytes, the most significant first. -/
def ofWord (w : UInt32) : Bytes :=
  [(w >>> 24).toUInt8, (w >>> 16).toUInt8, (w >>> 8).toUInt8, w.toUInt8]

/-- Reads four bytes at a time as words, the most significant byte first; up to three bytes at the
end that do not fill a word are dropped. -/
def toWords : Bytes → List UInt32
  | a :: b :: c :: d :: rest =>
    (a.toUInt32 <<< 24 ||| b.toUInt32 <<< 16 ||| c.toUInt32 <<< 8 ||| d.toUInt32) :: toWords rest
  | _ => []

end Bytes
end WalletEngine
