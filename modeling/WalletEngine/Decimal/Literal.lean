import WalletEngine.Binary64.Rounding

/-! # Reading a number that a person typed

A literal is an optional sign before `inf`, `infinity` or `nan` in any case, or before digits with
an optional point and an optional exponent; at least one digit stands beside the point. The value is
the number nearest to the decimal, whatever its length.
-/

namespace WalletEngine.Decimal.Literal

def natOfDigits (ds : List Char) : Nat :=
  ds.foldl (fun n c => 10 * n + (c.toNat - 48)) 0

/-- The number nearest to `digits` times 10 ^ `exponent`. Exponents far outside the range of the
type are recognised before any power is formed. -/
def round (negative : Bool) (digits : Nat) (exponent : Int) : Binary64 :=
  let size : Int := exponent + (toString digits).length
  if digits = 0 || size < -400 then .zero negative
  else if 400 < size then .infinity negative
  else .ofRatio negative (digits * Power.num 10 exponent) (Power.den 10 exponent)

/-- An optional sign: whether it is a minus, and what follows. -/
def sign : List Char → Bool × List Char
  | '-' :: rest => (true, rest)
  | '+' :: rest => (false, rest)
  | cs => (false, cs)

/-- An exponent mark with a sign and at least one digit, or nothing at all; then the text ends. -/
def exponent? : List Char → Option Int
  | [] => some 0
  | mark :: rest =>
    let (negative, digits) := sign rest
    if (mark = 'e' || mark = 'E') && !digits.isEmpty && digits.all Char.isDigit then
      some (if negative then -natOfDigits digits else natOfDigits digits)
    else none

/-- Digits with an optional point and exponent, after the sign. -/
def unsigned? (negative : Bool) (cs : List Char) : Option Binary64 := do
  let whole := cs.takeWhile Char.isDigit
  let afterWhole := cs.dropWhile Char.isDigit
  let (fraction, rest) := match afterWhole with
    | '.' :: tail => (tail.takeWhile Char.isDigit, tail.dropWhile Char.isDigit)
    | rest => ([], rest)
  guard !(whole.isEmpty && fraction.isEmpty)
  let exponent ← exponent? rest
  return round negative (natOfDigits (whole ++ fraction)) (exponent - fraction.length)

/-- The number that a literal stands for. -/
def parse? (s : String) : Option Binary64 :=
  let (negative, body) := sign s.toList
  let word := String.ofList (body.map Char.toLower)
  if word = "inf" || word = "infinity" then some (.infinity negative)
  else if word = "nan" then some .nan
  else unsigned? negative body

end WalletEngine.Decimal.Literal
