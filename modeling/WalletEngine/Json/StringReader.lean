import WalletEngine.Json.Reader
import WalletEngine.Bytes.Hex

/-! # Reading strings

The text between two quotes, with its escapes resolved. Escapes of the form `\uXXXX` name UTF-16
units, so a character beyond the first plane takes two of them. Control characters must be escaped,
and bytes that form no character are refused when the string has ended.
-/

namespace WalletEngine.Json.Reader

def hexValue? : Symbol → Option Nat
  | .char c => if c.toNat < 128 then Hex.value? (UInt8.ofNat c.toNat) else none
  | .stray _ => none

/-- The unit that four hexadecimal digits name. Four bytes are taken whether or not they are digits.
-/
def unit : Reader Nat := fun rest =>
  if Symbol.totalSize rest < 4 then .error { cause := .stringUnclosed, place := .fixed 0 }
  else match (rest.take 4).mapM hexValue? with
    | some values => .ok (values.foldl (fun n v => 16 * n + v) 0, rest.drop 4)
    | none => .error { cause := .escapeUnknown, place := .fixed (Symbol.totalSize rest - 4) }

/-- The next symbol must be `c`. -/
def secondEscape (c : Char) : Reader Unit := do
  match ← peek? with
  | none => failHere .stringUnclosed
  | some s => if s = .char c then skip else failNext .surrogateEscapeExpected

/-- The character of a unit escape, with the second escape of a pair. -/
def unitEscape : Reader Char := do
  let high ← unit
  if 0xdc00 ≤ high && high ≤ 0xdfff then failHere .surrogateAlone
  else if high < 0xd800 || 0xdbff < high then pure (Char.ofNat high)
  else
    secondEscape '\\'
    secondEscape 'u'
    let low ← unit
    if low < 0xdc00 || 0xdfff < low then failHere .surrogateAlone
    else pure (Char.ofNat (0x10000 + (high - 0xd800) * 0x400 + (low - 0xdc00)))

/-- The character that a letter after a backslash stands for. -/
def shortEscape? : Char → Option Char
  | '"' => some '"'
  | '\\' => some '\\'
  | '/' => some '/'
  | 'b' => some '\x08'
  | 'f' => some '\x0c'
  | 'n' => some '\n'
  | 'r' => some '\r'
  | 't' => some '\t'
  | _ => none

def escape : Reader Char := do
  match ← peek? with
  | none => failHere .stringUnclosed
  | some (.char 'u') => skip; unitEscape
  | some (.char c) =>
    match shortEscape? c with
    | some plain => skip; pure plain
    | none => failNext .escapeUnknown
  | some (.stray _) => failNext .escapeUnknown

/-- The symbols of a string up to its closing quote, which stays. -/
def stringSymbols : Nat → Reader (List Symbol)
  | 0 => failHere .stringUnclosed
  | fuel + 1 => do
    match ← peek? with
    | none => failHere .stringUnclosed
    | some (.char '"') => pure []
    | some (.char '\\') =>
      skip
      let c ← escape
      (.char c :: ·) <$> stringSymbols fuel
    | some s =>
      skip
      if s.isControl then failHere .controlCharacter
      else (s :: ·) <$> stringSymbols fuel

/-- A string from its opening quote, which is next, past its closing quote. -/
def string : Reader String := do
  skip
  let symbols ← stringSymbols ((← remaining) + 1)
  match symbols.mapM (fun | .char c => some c | .stray _ => none) with
  | some cs => skip; pure (String.ofList cs)
  | none => failHere .textNotUnicode

end WalletEngine.Json.Reader
