import WalletEngine.Binary64.Basic

/-! # The shortest decimal of a number

Every finite number is printed with the fewest digits that read back as the same number, and among
those with the digits nearest to it. The reals that round to a number form an interval around it,
with its ends exactly when the mantissa is even. For each count of digits the two decimals next to
the number are tested; the first count with one in the interval wins.
-/

namespace WalletEngine

/-- The decimal `digits` times 10 ^ `exponent`. -/
structure Decimal where
  digits : Nat
  exponent : Int
  deriving DecidableEq, Repr

namespace Decimal

/-- A positive number together with the reals that round to it, all in the same unit: the exact
value, the lower and upper end, and whether the ends belong to it. -/
structure Interval where
  value : Nat
  lower : Nat
  upper : Nat
  closed : Bool
  /-- The unit as a fraction. -/
  unitNum : Nat
  unitDen : Nat

/-- The interval of the number `mantissa * 2 ^ exponent`, in quarters of its last place. Below a
power of two the neighbours are twice as dense. -/
def Interval.ofNumber (mantissa : Nat) (exponent : Int) : Interval :=
  { value := 4 * mantissa
    lower :=
      if mantissa = Binary64.leadingBit && exponent != -1074 then 4 * mantissa - 1
      else 4 * mantissa - 2
    upper := 4 * mantissa + 2
    closed := mantissa % 2 = 0
    unitNum := Power.num 2 (exponent - 2)
    unitDen := Power.den 2 (exponent - 2) }

/-- The decimal lies in the interval. Both are compared after multiplication with the unit's
denominator and, for a negative exponent, with its power of ten. -/
def Interval.contains (i : Interval) (d : Decimal) : Bool :=
  let scale := i.unitNum * Power.den 10 d.exponent
  let point := d.digits * Power.num 10 d.exponent * i.unitDen
  if i.closed then i.lower * scale ≤ point && point ≤ i.upper * scale
  else i.lower * scale < point && point < i.upper * scale

/-- Twice the value is at most the sum of the decimals `digits` and `digits + 1`: the lower one is
nearer, or as near. On a tie the even one is taken. -/
def Interval.nearest (i : Interval) (digits : Nat) (exponent : Int) : Nat :=
  let value := 2 * i.value * i.unitNum * Power.den 10 exponent
  let middle := (2 * digits + 1) * Power.num 10 exponent * i.unitDen
  if value < middle || (value == middle && digits % 2 == 0) then digits else digits + 1

/-- The greatest multiple of 10 ^ `exponent` that is at most the value, as a count. -/
def Interval.floor (i : Interval) (exponent : Int) : Nat :=
  i.value * i.unitNum * Power.den 10 exponent / (Power.num 10 exponent * i.unitDen)

/-- The decimal of the interval on one grid, if there is one. -/
def Interval.onGrid? (i : Interval) (exponent : Int) : Option Decimal :=
  let below := i.floor exponent
  let low := i.contains ⟨below, exponent⟩ && below != 0
  let high := i.contains ⟨below + 1, exponent⟩
  if low && high then some ⟨i.nearest below exponent, exponent⟩
  else if low then some ⟨below, exponent⟩
  else if high then some ⟨below + 1, exponent⟩
  else none

/-- The exponent of the leading digit of the value. -/
def Interval.leading (i : Interval) : Int :=
  let bits : Int := (i.value * i.unitNum).log2 - (i.unitDen.log2 : Int)
  let guess := Int.fdiv (bits * 30103) 100000
  if i.floor (guess + 1) = 0 then guess else guess + 1

/-- The first decimal found on the grids of `count` digits and more; seventeen digits always
suffice. -/
def Interval.search (i : Interval) (leading : Int) (count : Nat) : Nat → Decimal
  | 0 => ⟨i.floor (leading - 16), leading - 16⟩
  | fuel + 1 =>
    match i.onGrid? (leading - count + 1) with
    | some d => d
    | none => i.search leading (count + 1) fuel

/-- Takes the zeros at the end of the digits into the exponent. -/
def normalize (d : Decimal) : Nat → Decimal
  | 0 => d
  | fuel + 1 =>
    if d.digits != 0 && d.digits % 10 == 0 then normalize ⟨d.digits / 10, d.exponent + 1⟩ fuel
    else d

/-- The decimal with the fewest digits that rounds to the positive number
`mantissa * 2 ^ exponent`, and of those the nearest. -/
def shortest (mantissa : Nat) (exponent : Int) : Decimal :=
  let i := Interval.ofNumber mantissa exponent
  (i.search i.leading 1 17).normalize 17

end Decimal
end WalletEngine
