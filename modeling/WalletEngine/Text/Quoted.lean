import WalletEngine.Text.Visible

/-! # Quotations inside messages

A message quotes a piece of foreign text so that every character of it can be told apart: the usual
escapes for tab, line feed, carriage return and NUL, a backslash before the delimiter and before
itself, and the number of each character that would not be visible. A value with parts is quoted by
its name and the names of the parts.
-/

namespace WalletEngine.Text

/-- The lowercase hexadecimal digits of a number, without leading zeros. -/
def hexDigits (n : Nat) : List Char :=
  Nat.toDigits 16 n

/-- One character of a quotation; `delimiter` is the quote mark around it. -/
def quoteChar (delimiter c : Char) : List Char :=
  if c = '\t' then ['\\', 't']
  else if c = '\n' then ['\\', 'n']
  else if c = '\r' then ['\\', 'r']
  else if c = '\x00' then ['\\', '0']
  else if c = '\\' || c = delimiter then ['\\', c]
  else if isVisible c then [c]
  else ['\\', 'u', '\x7b'] ++ hexDigits c.toNat ++ ['\x7d']

def quoted (s : String) : String :=
  String.ofList ('"' :: s.toList.flatMap (quoteChar '"') ++ ['"'])

def quotedChar (c : Char) : String :=
  String.ofList ('\'' :: quoteChar '\'' c ++ ['\''])

def quotedOption {α : Type} (quote : α → String) : Option α → String
  | none => "None"
  | some a => "Some(" ++ quote a ++ ")"

/-- A value with the texts of its parts. -/
def quotedRecord (name : String) (parts : List (String × String)) : String :=
  name ++ " \x7b " ++ ", ".intercalate (parts.map fun (part, text) => part ++ ": " ++ text) ++ " \x7d"

end WalletEngine.Text
