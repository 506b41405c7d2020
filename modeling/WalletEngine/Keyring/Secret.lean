import WalletEngine.Bytes.Hex
import WalletEngine.Json.Decoder
import WalletEngine.Text.Blank

/-! # The secret of a wallet

Thirty-two bytes, written as sixty-four hexadecimal digits. The type shows its content in no way but
`toHex`; what diagnostics print of it is a fixed text.
-/

namespace WalletEngine.Keyring

def secretLength : Nat := 32

/-- The one secret that a wallet is made from. -/
structure Secret where
  bytes : Bytes
  length_bytes : bytes.length = secretLength
  deriving DecidableEq

/-- Why there is no secret. -/
inductive Fault where
  | notHex (problem : Hex.Problem)
  | wrongLength (length : Nat)
  | randomUnavailable (reason : String)
  deriving DecidableEq, Repr

def Fault.message : Fault → String
  | .notHex problem => "invalid secret: " ++ problem.message
  | .wrongLength length => s!"invalid secret: expected {secretLength} bytes, got {length}"
  | .randomUnavailable reason => "random source unavailable: " ++ reason

namespace Secret

def ofBytes (bytes : Bytes) : Except Fault Secret :=
  if h : bytes.length = secretLength then .ok ⟨bytes, h⟩ else .error (.wrongLength bytes.length)

/-- Reads a secret from its digits, with blanks around them. -/
def read (s : String) : Except Fault Secret :=
  match Hex.decode (Text.trim s) with
  | .ok bytes => ofBytes bytes
  | .error problem => .error (.notHex problem)

def toHex (secret : Secret) : String := Hex.encode secret.bytes

def shown (_ : Secret) : String := "Secret(<redacted>)"

def toJson (secret : Secret) : Json := .string secret.toHex

def decoder : Json.Decoder Secret :=
  Json.Decoder.string.refine fun s => (read s).mapError fun fault => .refused fault.message

/-- No digit is blank. -/
theorem isBlank_digit {n : Nat} (h : n < 16) : Text.isBlank (Hex.digit n) = false := by
  have all : ∀ n : Fin 16, Text.isBlank (Hex.digit n) = false := by decide
  exact all ⟨n, h⟩

/-- A secret is read back from its digits. -/
theorem read_toHex (secret : Secret) : read secret.toHex = .ok secret := by
  have solid : Text.trim (Hex.encode secret.bytes) = Hex.encode secret.bytes :=
    Text.trim_eq_self fun c hc => by
      obtain ⟨n, hn, rfl⟩ := Hex.mem_encode hc
      exact isBlank_digit hn
  simp [read, toHex, solid, Hex.decode_encode, ofBytes, secret.length_bytes]

end Secret
end WalletEngine.Keyring
