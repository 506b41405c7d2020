import WalletEngine.Decimal.Shortest

/-! # Notations for numbers

A notation writes the shortest decimal of a number either positionally or with an exponent. Records
use one that always shows a point or an exponent, so that a number never reads as an integer; so do
listings of values, with other bounds. Messages use one that is always positional and shows a point
only before a fraction.
-/

namespace WalletEngine
namespace Decimal

/-- How numbers are written. -/
structure Notation where
  /-- Whether a number whose leading digit counts 10 ^ `leading` is written positionally. -/
  positional : Int → Bool
  /-- Whether a positional integer ends in `.0`. -/
  pointed : Bool
  /-- Whether an exponent that is not negative has a plus. -/
  plus : Bool

/-- The notation of records: positional from 1e-5 up to below 1e16. -/
def Notation.record : Notation where
  positional leading := -5 ≤ leading && leading < 16
  pointed := true
  plus := true

/-- The notation of listings: positional from 1e-4 up to below 1e16. -/
def Notation.listing : Notation where
  positional leading := -4 ≤ leading && leading < 16
  pointed := true
  plus := false

def Notation.message : Notation where
  positional _ := true
  pointed := false
  plus := false

/-- The exponent of the leading digit. -/
def leading (d : Decimal) : Int :=
  d.exponent + (toString d.digits).length - 1

/-- Digits before and after a point. -/
def positionalText (pointed : Bool) (d : Decimal) : String :=
  let digits := (toString d.digits).toList
  if 0 ≤ d.exponent then
    String.ofList (digits ++ List.replicate d.exponent.toNat '0') ++ if pointed then ".0" else ""
  else
    let places := (-d.exponent).toNat
    let padded := List.replicate (places + 1 - digits.length) '0' ++ digits
    let whole := padded.length - places
    String.ofList (padded.take whole ++ '.' :: padded.drop whole)

/-- One digit, a point before any further digits, and an exponent. -/
def exponentText (plus : Bool) (d : Decimal) : String :=
  let sign := if d.leading < 0 then "e-" else if plus then "e+" else "e"
  let digits := match (toString d.digits).toList with
    | first :: rest@(_ :: _) => first :: '.' :: rest
    | digits => digits
  String.ofList digits ++ sign ++ toString d.leading.natAbs

def Notation.text (format : Notation) (d : Decimal) : String :=
  if format.positional d.leading then positionalText format.pointed d
  else exponentText format.plus d

end Decimal

namespace Binary64
open Decimal

/-- The text of a number in a notation; the special values are `NaN`, `inf` and `-inf`. -/
def text (format : Notation) (x : Binary64) : String :=
  match x.view with
  | .nan => "NaN"
  | .infinite negative => if negative then "-inf" else "inf"
  | .finite negative mantissa exponent =>
    let sign := if negative then "-" else ""
    let d := if mantissa = 0 then ⟨0, 0⟩ else shortest mantissa exponent
    sign ++ format.text d

end Binary64
end WalletEngine
