import WalletEngine.Json.Value
import WalletEngine.Decimal.Notation
import WalletEngine.Text.Quoted

/-! # The text of a value

Two texts: a compact one without blanks, which is what is signed and sent, and an indented one,
which is what is stored. Strings escape only what JSON requires. A number that is not finite has no
text of its own and is written as `null`.
-/

namespace WalletEngine.Json

def escapeChar (c : Char) : List Char :=
  if c = '"' || c = '\\' then ['\\', c]
  else if c = '\x08' then ['\\', 'b']
  else if c = '\x0c' then ['\\', 'f']
  else if c = '\n' then ['\\', 'n']
  else if c = '\r' then ['\\', 'r']
  else if c = '\t' then ['\\', 't']
  else if c.toNat < 0x20 then
    ['\\', 'u', '0', '0'] ++ (Text.hexDigits (c.toNat / 16) ++ Text.hexDigits (c.toNat % 16))
  else [c]

/-- A string between its quotes. -/
def stringChars (s : String) : List Char :=
  '"' :: s.toList.flatMap escapeChar ++ ['"']

/-- A number, or `null` if it is not finite. -/
def numberChars : Number → List Char
  | .integer n => (toString n).toList
  | .float x => if x.isFinite then (x.text .record).toList else ['n', 'u', 'l', 'l']

/-- A truth value. -/
def boolChars (b : Bool) : List Char :=
  if b then ['t', 'r', 'u', 'e'] else ['f', 'a', 'l', 's', 'e']

/-- Parts with a comma between neighbours. -/
def commas : List (List Char) → List Char
  | [] => []
  | [part] => part
  | part :: rest => part ++ ',' :: commas rest

mutual

/-- The compact text as characters. -/
def chars : Json → List Char
  | .null => ['n', 'u', 'l', 'l']
  | .bool b => boolChars b
  | .number n => numberChars n
  | .string s => stringChars s
  | .array items => '[' :: commas (itemsChars items) ++ [']']
  | .object members => '\x7b' :: commas (membersChars members) ++ ['\x7d']

/-- The compact texts of the items of an array. -/
def itemsChars : List Json → List (List Char)
  | [] => []
  | item :: rest => item.chars :: itemsChars rest

/-- The compact texts of the members of an object. -/
def membersChars : List (String × Json) → List (List Char)
  | [] => []
  | (name, value) :: rest => (stringChars name ++ ':' :: value.chars) :: membersChars rest

end

/-- The text without blanks. -/
def compact (j : Json) : String := String.ofList j.chars

/-- A line break and two blanks for each enclosing container. -/
def newLine (depth : Nat) : List Char := '\n' :: List.replicate (2 * depth) ' '

/-- Parts on lines of their own between two brackets; without parts the brackets touch. -/
def lines (depth : Nat) (opening closing : Char) (parts : List (List Char)) : List Char :=
  if parts.isEmpty then [opening, closing]
  else
    opening :: commas (parts.map (newLine (depth + 1) ++ ·)) ++ newLine depth ++ [closing]

mutual

/-- The indented text inside `depth` containers. -/
def prettyChars (depth : Nat) : Json → List Char
  | .null => ['n', 'u', 'l', 'l']
  | .bool b => boolChars b
  | .number n => numberChars n
  | .string s => stringChars s
  | .array items => lines depth '[' ']' (prettyItems (depth + 1) items)
  | .object members => lines depth '\x7b' '\x7d' (prettyMembers (depth + 1) members)

/-- The indented texts of the items of an array. -/
def prettyItems (depth : Nat) : List Json → List (List Char)
  | [] => []
  | item :: rest => item.prettyChars depth :: prettyItems depth rest

/-- The indented texts of the members of an object. -/
def prettyMembers (depth : Nat) : List (String × Json) → List (List Char)
  | [] => []
  | (name, value) :: rest =>
    (stringChars name ++ ':' :: ' ' :: value.prettyChars depth) :: prettyMembers depth rest

end

/-- The text with one item or member on a line, indented by two blanks for each level. -/
def pretty (j : Json) : String := String.ofList (j.prettyChars 0)

end WalletEngine.Json
