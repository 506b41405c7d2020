import WalletEngine.Bytes.Basic

/-! # Reading UTF-8

A byte string splits uniquely into characters and broken runs, where a broken run is a longest start
of a character that the next byte does not continue, or a single byte that starts none. A strict
reader refuses broken runs; a lenient one shows each of them as one replacement character.
-/

namespace WalletEngine.Utf8

/-- A part of a byte string: a whole character, or bytes that form none. -/
inductive Piece where
  | whole (c : Char)
  | broken (bytes : Bytes)
  deriving DecidableEq, Repr

/-- What the first byte of a character says: its payload bits, how many bytes follow, and the range
that the next byte must lie in, which is narrower where a shorter form or a surrogate would start.
-/
def lead? (b : UInt8) : Option (Nat × Nat × Nat × Nat) :=
  let n := b.toNat
  if 0xc2 ≤ n && n ≤ 0xdf then some (n - 0xc0, 1, 0x80, 0xbf)
  else if n == 0xe0 then some (0, 2, 0xa0, 0xbf)
  else if n == 0xed then some (0xd, 2, 0x80, 0x9f)
  else if 0xe1 ≤ n && n ≤ 0xef then some (n - 0xe0, 2, 0x80, 0xbf)
  else if n == 0xf0 then some (0, 3, 0x90, 0xbf)
  else if 0xf1 ≤ n && n ≤ 0xf3 then some (n - 0xf0, 3, 0x80, 0xbf)
  else if n == 0xf4 then some (4, 3, 0x80, 0x8f)
  else none

/-- Reads up to `count` continuation bytes, the first within `low` and `high`. The answer holds the
bytes taken, the code point so far and whether all of them were there. -/
def continuation (low high : Nat) (acc : Nat) : Nat → Bytes → Bytes × Nat × Bool
  | 0, _ => ([], acc, true)
  | _ + 1, [] => ([], acc, false)
  | count + 1, b :: rest =>
    if low ≤ b.toNat && b.toNat ≤ high then
      let (taken, value, complete) := continuation 0x80 0xbf (acc * 64 + b.toNat % 64) count rest
      (b :: taken, value, complete)
    else ([], acc, false)

/-- The first piece of a byte string that starts with `b`. -/
def firstPiece (b : UInt8) (rest : Bytes) : Piece :=
  if b.toNat < 0x80 then .whole (Char.ofNat b.toNat)
  else match lead? b with
    | none => .broken [b]
    | some (payload, count, low, high) =>
      match continuation low high payload count rest with
      | (_, value, true) => .whole (Char.ofNat value)
      | (taken, _, false) => .broken (b :: taken)

/-- The number of bytes in a piece, at least one. -/
def Piece.length : Piece → Nat
  | .whole c => c.utf8Size
  | .broken bytes => max 1 bytes.length

def pieces : Bytes → List Piece
  | [] => []
  | b :: rest =>
    let piece := firstPiece b rest
    piece :: pieces (rest.drop (piece.length - 1))
termination_by bs => bs.length

def Piece.char? : Piece → Option Char
  | .whole c => some c
  | .broken _ => none

/-- The text that a byte string is the UTF-8 form of. -/
def decode? (bs : Bytes) : Option String :=
  String.ofList <$> (pieces bs).mapM Piece.char?

/-- The text of a byte string, with U+FFFD for each broken run. -/
def lenient (bs : Bytes) : String :=
  String.ofList <| (pieces bs).map fun piece => piece.char?.getD '\ufffd'

/-- A continuation byte that is in range is taken. -/
theorem continuation_cons {low high acc count : Nat} {b : UInt8} {rest taken : Bytes}
    {value : Nat} (low_le : low ≤ b.toNat) (le_high : b.toNat ≤ high)
    (h : continuation 0x80 0xbf (acc * 64 + b.toNat % 64) count rest = (taken, value, true)) :
    continuation low high acc (count + 1) (b :: rest) = (b :: taken, value, true) := by
  simp [continuation, low_le, le_high, h]

/-! ## Characters by the number of their bytes

A code point is below `0x80`, `0x800`, `0x10000` or `0x110000`, and its form has one to four bytes. The
first of them tells how many there are, the others carry six bits each.
-/

section Widths
variable {n : Nat} {b b1 b2 b3 : UInt8}

/-- What the first byte announces is there. -/
theorem firstPiece_of_lead {payload count low high value : Nat} {rest taken : Bytes}
    (hmulti : 0x80 ≤ b.toNat) (hlead : lead? b = some (payload, count, low, high))
    (hcontinuation : continuation low high payload count rest = (taken, value, true)) :
    firstPiece b rest = .whole (Char.ofNat value) := by
  rw [firstPiece, if_neg (Nat.not_lt.mpr hmulti), hlead]
  simp only [hcontinuation]

theorem firstPiece_one (h : b.toNat = n) (hhigh : n < 0x80) (rest : Bytes) :
    firstPiece b rest = .whole (Char.ofNat n) := by
  rw [firstPiece, if_pos (h ▸ hhigh), h]

theorem firstPiece_two (h : b.toNat = n / 64 % 32 + 192) (h1 : b1.toNat = n % 64 + 128)
    (hlow : 0x80 ≤ n) (hhigh : n < 0x800) (rest : Bytes) :
    firstPiece b (b1 :: rest) = .whole (Char.ofNat n) := by
  have hlead : lead? b = some (n / 64, 1, 0x80, 0xbf) := by
    simp only [lead?, h]
    rw [if_pos (by simp; omega)]
    simp
    omega
  have hvalue : n / 64 * 64 + b1.toNat % 64 = n := by omega
  have hone : continuation 0x80 0xbf (n / 64) 1 (b1 :: rest) = ([b1], n, true) :=
    continuation_cons (by omega) (by omega) (by rw [hvalue, continuation])
  exact firstPiece_of_lead (by omega) hlead hone

/-- A second byte in the range that the first one of three allows is neither the start of a shorter
form nor of a surrogate. -/
theorem lead?_three (h : b.toNat = n / 4096 % 16 + 224) (h1 : b1.toNat = n / 64 % 64 + 128)
    (hlow : 0x800 ≤ n) (hhigh : n < 0x10000) (hvalid : n < 0xd800 ∨ 0xdfff < n) :
    ∃ low high, lead? b = some (n / 4096, 2, low, high) ∧ low ≤ b1.toNat ∧ b1.toNat ≤ high := by
  rcases Nat.lt_or_ge n 0x1000 with hsmall | hlarge
  · exact ⟨0xa0, 0xbf, by rw [lead?]; grind, by omega, by omega⟩
  · by_cases hsurrogate : n / 4096 = 13
    · exact ⟨0x80, 0x9f, by rw [lead?]; grind, by omega, by omega⟩
    · exact ⟨0x80, 0xbf, by rw [lead?]; grind, by omega, by omega⟩

theorem firstPiece_three (h : b.toNat = n / 4096 % 16 + 224) (h1 : b1.toNat = n / 64 % 64 + 128)
    (h2 : b2.toNat = n % 64 + 128) (hlow : 0x800 ≤ n) (hhigh : n < 0x10000)
    (hvalid : n < 0xd800 ∨ 0xdfff < n) (rest : Bytes) :
    firstPiece b (b1 :: b2 :: rest) = .whole (Char.ofNat n) := by
  obtain ⟨low, high, hlead, hge, hle⟩ := lead?_three h h1 hlow hhigh hvalid
  have hvalue : (n / 4096 * 64 + b1.toNat % 64) * 64 + b2.toNat % 64 = n := by omega
  have hlast : continuation 0x80 0xbf (n / 4096 * 64 + b1.toNat % 64) 1 (b2 :: rest) =
      ([b2], n, true) :=
    continuation_cons (by omega) (by omega) (by rw [hvalue, continuation])
  exact firstPiece_of_lead (by omega) hlead (continuation_cons hge hle hlast)

/-- A second byte in the range that the first one of four allows is neither the start of a shorter
form nor beyond the last code point. -/
theorem lead?_four (h : b.toNat = n / 262144 % 8 + 240) (h1 : b1.toNat = n / 4096 % 64 + 128)
    (hlow : 0x10000 ≤ n) (hhigh : n < 0x110000) :
    ∃ low high, lead? b = some (n / 262144, 3, low, high) ∧ low ≤ b1.toNat ∧ b1.toNat ≤ high := by
  rcases Nat.lt_or_ge n 0x40000 with hsmall | hlarge
  · exact ⟨0x90, 0xbf, by rw [lead?]; grind, by omega, by omega⟩
  · by_cases hlast : n / 262144 = 4
    · exact ⟨0x80, 0x8f, by rw [lead?]; grind, by omega, by omega⟩
    · exact ⟨0x80, 0xbf, by rw [lead?]; grind, by omega, by omega⟩

theorem firstPiece_four (h : b.toNat = n / 262144 % 8 + 240)
    (h1 : b1.toNat = n / 4096 % 64 + 128) (h2 : b2.toNat = n / 64 % 64 + 128)
    (h3 : b3.toNat = n % 64 + 128) (hlow : 0x10000 ≤ n) (hhigh : n < 0x110000) (rest : Bytes) :
    firstPiece b (b1 :: b2 :: b3 :: rest) = .whole (Char.ofNat n) := by
  obtain ⟨low, high, hlead, hge, hle⟩ := lead?_four h h1 hlow hhigh
  have hvalue : ((n / 262144 * 64 + b1.toNat % 64) * 64 + b2.toNat % 64) * 64 + b3.toNat % 64 =
      n := by omega
  have hlast : continuation 0x80 0xbf ((n / 262144 * 64 + b1.toNat % 64) * 64 + b2.toNat % 64) 1
      (b3 :: rest) = ([b3], n, true) :=
    continuation_cons (by omega) (by omega) (by rw [hvalue, continuation])
  have hthird : continuation 0x80 0xbf (n / 262144 * 64 + b1.toNat % 64) 2 (b2 :: b3 :: rest) =
      ([b2, b3], n, true) := continuation_cons (by omega) (by omega) hlast
  exact firstPiece_of_lead (by omega) hlead (continuation_cons hge hle hthird)

end Widths

/-- The form of a character is read as the character. -/
theorem firstPiece_of_encode {c : Char} {b : UInt8} {tail : Bytes}
    (h : String.utf8EncodeChar c = b :: tail) (rest : Bytes) :
    firstPiece b (tail ++ rest) = .whole c := by
  have hvalid : c.toNat < 0xd800 ∨ 0xdfff < c.toNat ∧ c.toNat < 0x110000 := c.valid
  have hbyte {m : Nat} (hm : m < 256) : (UInt8.ofNat m).toNat = m :=
    UInt8.toNat_ofNat_of_lt' hm
  have hval : c.val.toNat = c.toNat := rfl
  rw [← Char.ofNat_toNat c]
  simp only [String.utf8EncodeChar, hval] at h
  split at h
  next hone =>
    obtain ⟨rfl, rfl⟩ := List.cons.inj h
    exact firstPiece_one (hbyte (by omega)) (by omega) rest
  split at h
  next htwo =>
    obtain ⟨rfl, rfl⟩ := List.cons.inj h
    exact firstPiece_two (hbyte (by omega)) (hbyte (by omega)) (by omega) (by omega) rest
  split at h
  next hthree =>
    obtain ⟨rfl, rfl⟩ := List.cons.inj h
    exact firstPiece_three (hbyte (by omega)) (hbyte (by omega)) (hbyte (by omega)) (by omega)
      (by omega) (by omega) rest
  next hfour =>
    obtain ⟨rfl, rfl⟩ := List.cons.inj h
    exact firstPiece_four (hbyte (by omega)) (hbyte (by omega)) (hbyte (by omega))
      (hbyte (by omega)) (by omega) (by omega) rest

theorem pieces_encode (c : Char) (rest : Bytes) :
    pieces (String.utf8EncodeChar c ++ rest) = .whole c :: pieces rest := by
  obtain ⟨b, tail, h⟩ := List.exists_cons_of_ne_nil (String.utf8EncodeChar_ne_nil (c := c))
  have size : c.utf8Size = tail.length + 1 := by
    rw [← String.length_utf8EncodeChar, h, List.length_cons]
  rw [h, List.cons_append, pieces, firstPiece_of_encode h]
  simp [Piece.length, size]

theorem pieces_ofText (s : String) : pieces (Bytes.ofText s) = s.toList.map .whole := by
  rw [Bytes.ofText]
  induction s.toList with
  | nil => simp [pieces]
  | cons c cs ih => rw [List.flatMap_cons, pieces_encode, ih, List.map_cons]

/-- A text is read back from its form. -/
theorem decode?_ofText (s : String) : decode? (Bytes.ofText s) = some s := by
  have whole : ∀ cs : List Char, (cs.map Piece.whole).mapM Piece.char? = some cs := by
    intro cs
    induction cs with
    | nil => rfl
    | cons c cs ih => simp [Piece.char?, ih]
  rw [decode?, pieces_ofText, whole]
  simp

end WalletEngine.Utf8
