import WalletEngine.Decimal.Literal
import WalletEngine.Decimal.Notation
import WalletEngine.Text.Blank

/-! # Amounts of a transfer

An amount is a finite number above zero. A form gives it as text, in which blanks around it do not
count.
-/

namespace WalletEngine.Transfer

/-- Why a text or a number is no amount. -/
inductive AmountFault where
  | missing
  | notNumber (typed : String)
  | notFinite (amount : Binary64)
  | notPositive (amount : Binary64)
  deriving DecidableEq, Repr

def AmountFault.message : AmountFault → String
  | .missing => "amount is required"
  | .notNumber typed => "'" ++ typed ++ "' is not a number"
  | .notFinite amount => amount.text .message ++ " is not a number"
  | .notPositive amount => amount.text .message ++ " must be positive"

def checkAmount (x : Binary64) : Except AmountFault Binary64 :=
  if !x.isFinite then .error (.notFinite x)
  else if !x.isPositive then .error (.notPositive x)
  else .ok x

def readAmount (typed : String) : Except AmountFault Binary64 :=
  let text := Text.trim typed
  if text.isEmpty then .error .missing
  else match Decimal.Literal.parse? text with
    | none => .error (.notNumber text)
    | some x => checkAmount x

end WalletEngine.Transfer
