import WalletEngine.Bytes.Basic

/-! # The SHA-256 digest

The message is padded to whole blocks of 64 bytes, each block is expanded to 64 words, and the
compression function folds them into eight state words. This is FIPS 180-4 on byte strings.
-/

namespace WalletEngine.Sha256

/-- Rotation of a word to the right by fewer than 32 places. -/
def rotate (x : UInt32) (n : UInt32) : UInt32 :=
  x >>> n ||| x <<< (32 - n)

/-- The eight words that a compression round works on. -/
structure State where
  a : UInt32
  b : UInt32
  c : UInt32
  d : UInt32
  e : UInt32
  f : UInt32
  g : UInt32
  h : UInt32
  deriving DecidableEq, Repr

/-- The state before the first block: the fractions of the square roots of the first primes. -/
def State.initial : State :=
  ⟨0x6a09e667, 0xbb67ae85, 0x3c6ef372, 0xa54ff53a, 0x510e527f, 0x9b05688c, 0x1f83d9ab, 0x5be0cd19⟩

/-- The addend of each round: the fractions of the cube roots of the first 64 primes. -/
def roundConstants : List UInt32 :=
  [0x428a2f98, 0x71374491, 0xb5c0fbcf, 0xe9b5dba5, 0x3956c25b, 0x59f111f1, 0x923f82a4, 0xab1c5ed5,
   0xd807aa98, 0x12835b01, 0x243185be, 0x550c7dc3, 0x72be5d74, 0x80deb1fe, 0x9bdc06a7, 0xc19bf174,
   0xe49b69c1, 0xefbe4786, 0x0fc19dc6, 0x240ca1cc, 0x2de92c6f, 0x4a7484aa, 0x5cb0a9dc, 0x76f988da,
   0x983e5152, 0xa831c66d, 0xb00327c8, 0xbf597fc7, 0xc6e00bf3, 0xd5a79147, 0x06ca6351, 0x14292967,
   0x27b70a85, 0x2e1b2138, 0x4d2c6dfc, 0x53380d13, 0x650a7354, 0x766a0abb, 0x81c2c92e, 0x92722c85,
   0xa2bfe8a1, 0xa81a664b, 0xc24b8b70, 0xc76c51a3, 0xd192e819, 0xd6990624, 0xf40e3585, 0x106aa070,
   0x19a4c116, 0x1e376c08, 0x2748774c, 0x34b0bcb5, 0x391c0cb3, 0x4ed8aa4a, 0x5b9cca4f, 0x682e6ff3,
   0x748f82ee, 0x78a5636f, 0x84c87814, 0x8cc70208, 0x90befffa, 0xa4506ceb, 0xbef9a3f7, 0xc67178f2]

/-- Appends one word to the message schedule. -/
def extend (w : Array UInt32) : Array UInt32 :=
  let t := w.size
  let x := w.getD (t - 15) 0
  let y := w.getD (t - 2) 0
  let low := rotate x 7 ^^^ rotate x 18 ^^^ x >>> 3
  let high := rotate y 17 ^^^ rotate y 19 ^^^ y >>> 10
  w.push (high + w.getD (t - 7) 0 + low + w.getD (t - 16) 0)

/-- The 64 words that a block of sixteen words expands to. -/
def schedule (block : List UInt32) : List UInt32 :=
  ((List.range 48).foldl (fun w _ => extend w) block.toArray).toList

/-- One compression round with the sum of its schedule word and its constant. -/
def State.round (s : State) (addend : UInt32) : State :=
  let t₁ := s.h + (rotate s.e 6 ^^^ rotate s.e 11 ^^^ rotate s.e 25) +
    (s.e &&& s.f ^^^ ~~~s.e &&& s.g) + addend
  let t₂ := (rotate s.a 2 ^^^ rotate s.a 13 ^^^ rotate s.a 22) +
    (s.a &&& s.b ^^^ s.a &&& s.c ^^^ s.b &&& s.c)
  ⟨t₁ + t₂, s.a, s.b, s.c, s.d + t₁, s.e, s.f, s.g⟩

/-- Folds one block of sixteen words into the state. -/
def State.absorb (s : State) (block : List UInt32) : State :=
  let r := (List.zipWith (· + ·) (schedule block) roundConstants).foldl State.round s
  ⟨s.a + r.a, s.b + r.b, s.c + r.c, s.d + r.d, s.e + r.e, s.f + r.f, s.g + r.g, s.h + r.h⟩

/-- The message followed by a one bit, zeros, and its length in bits as eight bytes. -/
def pad (message : Bytes) : Bytes :=
  let n := message.length
  let zeros := (119 - n % 64) % 64
  let bits := 8 * n
  message ++ 0x80 :: List.replicate zeros 0 ++
    Bytes.ofWord (UInt32.ofNat (bits / UInt32.size)) ++ Bytes.ofWord (UInt32.ofNat bits)

/-- Folds the words of a padded message into the state, sixteen at a time. -/
def State.absorbAll (s : State) (words : List UInt32) : State :=
  if words.length < 16 then s else (s.absorb (words.take 16)).absorbAll (words.drop 16)
termination_by words.length
decreasing_by grind

def State.toBytes (s : State) : Bytes :=
  [s.a, s.b, s.c, s.d, s.e, s.f, s.g, s.h].flatMap Bytes.ofWord

def digest (message : Bytes) : Bytes :=
  (State.initial.absorbAll (pad message).toWords).toBytes

/-- A digest has thirty-two bytes. -/
theorem length_digest (message : Bytes) : (digest message).length = 32 := by
  simp [digest, State.toBytes, Bytes.ofWord]

end WalletEngine.Sha256
