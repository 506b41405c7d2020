import WalletEngine.Bytes.Basic
import WalletEngine.Text.Quoted

/-! # Hexadecimal text

Each byte is written as two lowercase digits. Reading accepts digits of either case and names the
first thing that is wrong: an odd number of bytes before any byte that is no digit.
-/

namespace WalletEngine.Hex

/-- The lowercase digit of a number below sixteen. -/
def digit (n : Nat) : Char :=
  if n < 10 then Char.ofNat (48 + n) else Char.ofNat (87 + n)

/-- The value of a digit given as an ASCII code, in either case. -/
def value? (b : UInt8) : Option Nat :=
  let n := b.toNat
  if 48 ≤ n && n ≤ 57 then some (n - 48)
  else if 97 ≤ n && n ≤ 102 then some (n - 87)
  else if 65 ≤ n && n ≤ 70 then some (n - 55)
  else none

/-- The two digits of a byte. -/
def ofByte (b : UInt8) : List Char :=
  [digit (b.toNat / 16), digit (b.toNat % 16)]

def encode (bs : Bytes) : String :=
  String.ofList (bs.flatMap ofByte)

/-- Why a text is not hexadecimal. -/
inductive Problem where
  /-- The digits do not pair up. -/
  | oddLength
  /-- The byte at this index is no digit. -/
  | notDigit (byte : UInt8) (index : Nat)
  deriving DecidableEq, Repr

/-- The wording of a problem; a byte that is no digit is shown as the Latin-1 character it names. -/
def Problem.message : Problem → String
  | .oddLength => "Odd number of digits"
  | .notDigit byte index =>
    "Invalid character " ++ Text.quotedChar (Char.ofNat byte.toNat) ++ " at position " ++
      toString index

/-- Reads pairs of digits; `index` is the number of bytes before the pair. -/
def decodePairs (index : Nat) : Bytes → Except Problem Bytes
  | hi :: lo :: rest =>
    match value? hi, value? lo with
    | none, _ => .error (.notDigit hi index)
    | some _, none => .error (.notDigit lo (index + 1))
    | some h, some l => (UInt8.ofNat (16 * h + l) :: ·) <$> decodePairs (index + 2) rest
  | _ => .ok []

/-- The byte string that a text of hexadecimal digits stands for. -/
def decode (s : String) : Except Problem Bytes :=
  let bs := Bytes.ofText s
  if bs.length % 2 = 1 then .error .oddLength else decodePairs 0 bs

theorem utf8EncodeChar_digit {n : Nat} (h : n < 16) :
    String.utf8EncodeChar (digit n) = [UInt8.ofNat (digit n).toNat] := by
  have all : ∀ n : Fin 16, String.utf8EncodeChar (digit n) = [UInt8.ofNat (digit n).toNat] := by
    decide
  exact all ⟨n, h⟩

theorem value?_digit {n : Nat} (h : n < 16) :
    value? (UInt8.ofNat (digit n).toNat) = some n := by
  have all : ∀ n : Fin 16, value? (UInt8.ofNat (digit n).toNat) = some n.val := by decide
  exact all ⟨n, h⟩

/-- The ASCII codes of the digits of a byte string. -/
theorem ofText_encode (bs : Bytes) :
    Bytes.ofText (encode bs) = bs.flatMap fun b =>
      [UInt8.ofNat (digit (b.toNat / 16)).toNat, UInt8.ofNat (digit (b.toNat % 16)).toNat] := by
  rw [encode, Bytes.ofText_ofList, List.flatMap_assoc]
  congr 1
  funext b
  have hi : b.toNat / 16 < 16 := by have := b.toNat_lt; omega
  have lo : b.toNat % 16 < 16 := by omega
  simp [ofByte, utf8EncodeChar_digit hi, utf8EncodeChar_digit lo]

theorem length_ofText_encode (bs : Bytes) : (Bytes.ofText (encode bs)).length = 2 * bs.length := by
  rw [ofText_encode]
  induction bs with
  | nil => rfl
  | cons b bs ih => simp [ih]; omega

/-- What is written is read back. -/
theorem decode_encode (bs : Bytes) : decode (encode bs) = .ok bs := by
  have pairs : ∀ index, decodePairs index (Bytes.ofText (encode bs)) = .ok bs := by
    rw [ofText_encode]
    induction bs with
    | nil => intro; rfl
    | cons b bs ih =>
      intro index
      have hi : b.toNat / 16 < 16 := by have := b.toNat_lt; omega
      have lo : b.toNat % 16 < 16 := by omega
      have back : 16 * (b.toNat / 16) + b.toNat % 16 = b.toNat := by omega
      simp only [List.flatMap_cons, List.cons_append, List.nil_append, decodePairs,
        value?_digit hi, value?_digit lo, ih, back, UInt8.ofNat_toNat]
      rfl
  simp [decode, length_ofText_encode, pairs]

/-- A text of digits holds nothing else. -/
theorem mem_encode {bs : Bytes} {c : Char} (h : c ∈ (encode bs).toList) :
    ∃ n < 16, c = digit n := by
  simp only [encode, ofByte, String.toList_ofList, List.mem_flatMap, List.mem_cons,
    List.not_mem_nil, or_false] at h
  obtain ⟨b, _, rfl | rfl⟩ := h
  · exact ⟨_, by have := b.toNat_lt; omega, rfl⟩
  · exact ⟨_, by omega, rfl⟩

end WalletEngine.Hex
