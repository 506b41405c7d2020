/-! # Binary64 numbers

A number is its 64 bits: a sign, eleven bits of exponent and 52 bits of fraction. The view of a
finite number is an integer times a power of two, so that rounding and printing are exact arithmetic
on naturals and no operation of the machine is trusted.
-/

namespace WalletEngine

/-- A double precision number of IEEE 754, given by its bits. -/
structure Binary64 where
  bits : UInt64
  deriving DecidableEq, Repr

namespace Binary64

def signBit : Nat := 0x8000000000000000

/-- The bound of the fraction. It is the unit of the exponent field, and the leading bit that the
mantissa of a normal number has before its fraction. -/
def leadingBit : Nat := 0x10000000000000

/-- The sign bit is set: for negative numbers and for negative zero. -/
def isNegative (x : Binary64) : Bool :=
  signBit ≤ x.bits.toNat

/-- The bits without the sign. Between finite numbers they are in the order of the absolute values,
and neighbouring numbers differ by one. -/
def magnitude (x : Binary64) : Nat :=
  x.bits.toNat % signBit

/-- The magnitude of the infinities; a larger one belongs to no number. -/
def infinityMagnitude : Nat := 0x7ff * leadingBit

/-- Rebuilds a number from its sign and its magnitude. -/
def ofMagnitude (negative : Bool) (magnitude : Nat) : Binary64 :=
  ⟨UInt64.ofNat (magnitude + if negative then signBit else 0)⟩

def zero (negative : Bool) : Binary64 := ofMagnitude negative 0

def infinity (negative : Bool) : Binary64 := ofMagnitude negative infinityMagnitude

/-- A value that is no number. -/
def nan : Binary64 := ofMagnitude false (infinityMagnitude + leadingBit / 2)

/-- What a number stands for. -/
inductive View where
  /-- No number at all. -/
  | nan
  /-- An infinity. -/
  | infinite (negative : Bool)
  /-- The integer `mantissa`, below 2 ^ 53, times 2 ^ `exponent`. -/
  | finite (negative : Bool) (mantissa : Nat) (exponent : Int)
  deriving DecidableEq, Repr

/-- The value of a number; the least exponent is that of the subnormal numbers. -/
def view (x : Binary64) : View :=
  let field : Nat := x.magnitude / leadingBit
  let fraction : Nat := x.magnitude % leadingBit
  if field = 0x7ff then
    if fraction = 0 then .infinite x.isNegative else .nan
  else if field = 0 then .finite x.isNegative fraction (-1074)
  else .finite x.isNegative (leadingBit + fraction) ((field : Int) - 1075)

/-- Neither an infinity nor a value that is no number. -/
def isFinite (x : Binary64) : Bool :=
  x.magnitude < infinityMagnitude

/-- The value that is no number, in any of its forms. -/
def isNaN (x : Binary64) : Bool :=
  infinityMagnitude < x.magnitude

/-- The place of a number on the line of all numbers, counted in steps between neighbours from
zero. The two zeros share a place. -/
def place (x : Binary64) : Int :=
  if x.isNegative then -x.magnitude else x.magnitude

/-- Equality of numbers: the zeros are equal, and what is no number equals nothing. -/
def equals (x y : Binary64) : Bool :=
  !x.isNaN && !y.isNaN && x.place == y.place

/-- The order of numbers; what is no number is not comparable. -/
def lessThan (x y : Binary64) : Bool :=
  !x.isNaN && !y.isNaN && x.place < y.place

/-- Strictly greater than zero; false of what is no number. -/
def isPositive (x : Binary64) : Bool :=
  (zero false).lessThan x

end Binary64

/-! ## Powers with an integer exponent

A power is a fraction of two naturals of which one is 1, so that scaling by it stays within the
naturals: multiply by the numerator on one side, by the denominator on the other.
-/

namespace Power

def num (base : Nat) (exponent : Int) : Nat := base.pow exponent.toNat

def den (base : Nat) (exponent : Int) : Nat := base.pow (-exponent).toNat

end Power
end WalletEngine
