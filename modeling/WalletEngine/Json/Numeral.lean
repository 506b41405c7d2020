import WalletEngine.Json.Reader
import WalletEngine.Binary64.Rounding

/-! # Reading numbers

Digits are gathered in a 64-bit significand. An integer that fits stays an integer. Otherwise the
digits that do not fit are dropped, each counting as a power of ten when it stood before the point,
and the float is the rounded significand times or divided by a rounded power of ten: two roundings,
so the result need not be the number nearest to the text.
-/

namespace WalletEngine.Json.Reader

def digitValue : Symbol → Nat
  | .char c => c.toNat - 48
  | .stray _ => 0

def digits : Reader (List Symbol) := fun rest =>
  .ok (rest.takeWhile Symbol.isDigit, rest.dropWhile Symbol.isDigit)

/-- Appends digits to a significand while it fits 64 bits; the answer has the digits left over. -/
def absorb (significand : Nat) : List Symbol → Nat × List Symbol
  | [] => (significand, [])
  | d :: rest =>
    let next := 10 * significand + digitValue d
    if next < UInt64.size then absorb next rest else (significand, d :: rest)

/-- Divides by 1e308 until the exponent is within a table of powers of ten up to that one. -/
def shrink (x : Binary64) (exponent : Nat) : Nat → Binary64
  | 0 => x
  | fuel + 1 =>
    if exponent ≤ 308 || x.magnitude = 0 then x.div (.powerOfTen (min exponent 308))
    else shrink (x.div (.powerOfTen 308)) (exponent - 308) fuel

/-- The float with a significand and an exponent; nothing if it is too large. -/
def scale? (significand : Nat) (exponent : Int) : Option Binary64 :=
  let x := Binary64.ofNat significand
  if exponent < 0 then some (shrink x exponent.natAbs (exponent.natAbs / 308 + 1))
  else if significand = 0 then some x
  else if 308 < exponent then none
  else
    let y := x.mul (.powerOfTen exponent.toNat)
    if y.isFinite then some y else none

/-- A float with its sign, or a fault in front of what is left. -/
def scaled (negative : Bool) (significand : Nat) (exponent : Int) : Reader Number :=
  match scale? significand exponent with
  | some x => pure (.float (if negative then x.negate else x))
  | none => failHere .numberOutOfRange

/-- The largest exponent that is counted; beyond it a number is zero or out of range. -/
def exponentLimit : Nat := 0x7fffffff

/-- Digits of an exponent as a number, if it is within the limit; else what follows the digit that
takes it past the limit. -/
def exponentValue (acc : Nat) : List Symbol → Except (List Symbol) Nat
  | [] => .ok acc
  | d :: rest =>
    let next := 10 * acc + digitValue d
    if exponentLimit < next then .error rest else exponentValue next rest

/-- Keeps an exponent within the range in which it is counted. -/
def clampExponent (e : Int) : Int :=
  max (-(exponentLimit : Int) - 1) (min exponentLimit e)

/-- The exponent after its mark, and with it the number. -/
def withExponent (negative : Bool) (significand : Nat) (start : Int) : Reader Number := do
  skip
  let below ← do
    match ← peek? with
    | some (.char '+') => skip; pure false
    | some (.char '-') => skip; pure true
    | _ => pure false
  match ← peek? with
  | none => failHere .valueMissing
  | some s => if !s.isDigit then failNext .numberMalformed
  let ds ← digits
  match exponentValue 0 ds with
  | .ok e => scaled negative significand (clampExponent (if below then start - e else start + e))
  | .error unread =>
    if significand != 0 && !below then
      fun rest => failHere .numberOutOfRange (unread ++ rest)
    else pure (.float (.zero negative))

/-- An exponent if its mark is next, else the number as it stands. -/
def optionalExponent (negative : Bool) (significand : Nat) (start : Int) : Reader Number := do
  match ← peek? with
  | some (.char 'e') | some (.char 'E') => withExponent negative significand start
  | _ => scaled negative significand start

/-- The point, at least one digit, and an optional exponent. -/
def withFraction (negative : Bool) (significand : Nat) (start : Int) : Reader Number := do
  skip
  let ds ← digits
  let (whole, unread) := absorb significand ds
  if ds.isEmpty then
    match ← peek? with
    | some _ => failNext .numberMalformed
    | none => failNext .valueMissing
  optionalExponent negative whole (start - (ds.length - unread.length : Nat))

/-- A significand without point and exponent. Zero with a sign is a float, and so is a negative
number below the least integer of 64 bits. -/
def integral (negative : Bool) (significand : Nat) : Number :=
  if !negative then .integer significand
  else if significand = 0 || -(significand : Int) < Int64.minValue.toInt then
    .float (.ofRatio true significand 1)
  else .integer (-significand)

/-- A number after its sign. -/
def number (negative : Bool) : Reader Number := do
  match ← peek? with
  | none => failHere .valueMissing
  | some s => if !s.isDigit then failNext .numberMalformed
  let ds ← fun rest =>
    if rest.head? = some (.char '0') then .ok (rest.take 1, rest.tail) else digits rest
  if ds = [.char '0'] then
    if ((← peek?).map Symbol.isDigit).getD false then failNext .numberMalformed
  let (significand, unread) := absorb 0 ds
  match ← peek? with
  | some (.char '.') => withFraction negative significand unread.length
  | some (.char 'e') | some (.char 'E') => withExponent negative significand unread.length
  | _ =>
    if unread.isEmpty then pure (integral negative significand)
    else scaled negative significand unread.length

/-- A number with its sign; a minus or a digit is next. -/
def signedNumber : Reader Number := do
  match ← peek? with
  | some (.char '-') => skip; number true
  | _ => number false

end WalletEngine.Json.Reader
