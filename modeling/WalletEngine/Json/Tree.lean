import WalletEngine.Json.Numeral
import WalletEngine.Json.StringReader

/-! # Reading a value of any type

Trees are read in two forms. The sorted form orders members by name and keeps the last of each name;
the plain form keeps the members as they came, for content whose type is found out later.
-/

namespace WalletEngine.Json

namespace Reader

/-- A scalar that starts with `s`, which is next; nothing if `s` starts no scalar. -/
def scalar? (s : Symbol) : Option (Reader Json) :=
  match s with
  | .char 'n' => some do skip; word ['u', 'l', 'l']; pure .null
  | .char 't' => some do skip; word ['r', 'u', 'e']; pure (.bool true)
  | .char 'f' => some do skip; word ['a', 'l', 's', 'e']; pure (.bool false)
  | .char '"' => some (.string <$> string)
  | .char '-' => some (.number <$> signedNumber)
  | s => if s.isDigit then some (.number <$> signedNumber) else none

/-- A scalar, or a container that one of two readers reads from its opening bracket on. -/
def scalarOr (list object : Reader Json) : Reader Json := do
  match ← peekSolid? with
  | none => failNext .valueMissing
  | some s =>
    match scalar? s with
    | some read => read
    | none =>
      match s with
      | .char '[' => list
      | .char '\x7b' => object
      | _ => failNext .valueExpected

/-- A value inside which `depth` containers may be opened. Each object is given its members by
`arrange`. -/
def tree (arrange : List (String × Json) → List (String × Json)) : Nat → Reader Json
  | 0 => scalarOr (failNext .tooDeep) (failNext .tooDeep)
  | depth + 1 =>
    scalarOr
      (.array <$> list (depth + 1) fun _ => do
        elements (fun i => within (.index i) (tree arrange depth)) 0 ((← remaining) + 1))
      (.object <$> object (depth + 1) fun _ => do
        let members ← members string
          (fun name => do colon; within (.key name) (tree arrange depth)) true
          ((← remaining) + 1)
        pure (arrange members))

end Reader

/-- Reads a whole text as a value with sorted members. -/
def parse (text : List Symbol) : Except Problem Json :=
  Reader.run (Reader.tree sortMembers) text

/-- Reads a text as a value with sorted members, whatever follows it. -/
def parsePrefix (text : List Symbol) : Except Problem Json :=
  Reader.runPrefix (Reader.tree sortMembers) text

end WalletEngine.Json
