import WalletEngine.Binary64.Basic

/-! # Rounding to binary64

A positive ratio of naturals is rounded to the nearest number, a tie to the even mantissa, and past
the largest finite number to infinity. Products and quotients of numbers are the exact result of the
mantissas, rounded once.
-/

namespace WalletEngine.Binary64

/-- The quotient rounded to the nearest natural, a tie to the even one. -/
def divEven (num den : Nat) : Nat :=
  let quotient := num / den
  let rest := 2 * (num % den)
  if den < rest || (rest == den && quotient % 2 == 1) then quotient + 1 else quotient

/-- The exponent at which `num / den` has a mantissa of 53 bits, or that of the subnormal numbers
where it is larger. -/
def exponentOf (num den : Nat) : Int :=
  let guess : Int := (num.log2 : Int) - den.log2
  let top := if num * Power.den 2 guess < den * Power.num 2 guess then guess - 1 else guess
  max (top - 52) (-1074)

/-- The number nearest to `num / den`, with the given sign. -/
def ofRatio (negative : Bool) (num den : Nat) : Binary64 :=
  if num = 0 || den = 0 then zero negative
  else
    let exponent := exponentOf num den
    let mantissa := divEven (num * Power.den 2 exponent) (den * Power.num 2 exponent)
    let magnitude := (exponent + 1074).toNat * leadingBit + mantissa
    ofMagnitude negative (min magnitude infinityMagnitude)

/-- The number nearest to a natural. -/
def ofNat (n : Nat) : Binary64 := ofRatio false n 1

/-- The number nearest to an integer. -/
def ofInt (n : Int) : Binary64 := ofRatio (n < 0) n.natAbs 1

def powerOfTen (n : Nat) : Binary64 := ofNat (Power.num 10 n)

/-- The same number with the other sign. -/
def negate (x : Binary64) : Binary64 := ofMagnitude (!x.isNegative) x.magnitude

/-- The product, rounded once. -/
def mul (x y : Binary64) : Binary64 :=
  match x.view, y.view with
  | .finite s m e, .finite t n f =>
    ofRatio (s != t) (m * n * Power.num 2 (e + f)) (Power.den 2 (e + f))
  | .infinite s, .infinite t => infinity (s != t)
  | .infinite s, .finite t n _ => if n = 0 then nan else infinity (s != t)
  | .finite s m _, .infinite t => if m = 0 then nan else infinity (s != t)
  | .nan, _ | _, .nan => nan

/-- The quotient, rounded once. -/
def div (x y : Binary64) : Binary64 :=
  match x.view, y.view with
  | .finite s m e, .finite t n f =>
    if n = 0 then if m = 0 then nan else infinity (s != t)
    else ofRatio (s != t) (m * Power.num 2 (e - f)) (n * Power.den 2 (e - f))
  | .infinite _, .infinite _ => nan
  | .infinite s, .finite t _ _ => infinity (s != t)
  | .finite s _ _, .infinite t => zero (s != t)
  | .nan, _ | _, .nan => nan

end WalletEngine.Binary64
