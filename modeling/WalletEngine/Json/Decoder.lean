import WalletEngine.Json.Tree

/-! # Decoders

A decoder reads a type in two ways: straight from a text, where a fault has a place, and from a tree
that was read before, where it has none. Both ways accept the same values and name the same causes.
-/

namespace WalletEngine.Json

/-- What a tree is: a value with sorted members, or content kept as it came. -/
inductive Content where
  | value
  | kept
  deriving DecidableEq, Repr

/-- Reads a type from texts and from trees. -/
structure Decoder (α : Type) where
  /-- Reads from a text; the number of containers that may still be opened is given. -/
  read : Nat → Reader α
  /-- Reads from a tree. -/
  ofTree : Content → Json → Except Cause α

namespace Decoder
open Reader
variable {α β : Type}

/-- The value of an outcome, or its cause as a fault in front of what is left. -/
def settle : Except Cause α → Reader α
  | .ok a => pure a
  | .error cause => failHere cause

/-- Passes over a value of the wrong type that starts with `s`. Scalars are read and named in full,
containers are not entered. -/
def mismatch (expected : String) (s : Symbol) : Reader α :=
  match scalar? s, s with
  | some read, _ => do failHere (.wrongType (found (← read)) expected)
  | none, .char '[' => failHere (.wrongType .sequence expected)
  | none, .char '\x7b' => failHere (.wrongType .map expected)
  | none, _ => failNext .valueExpected

/-- A type whose values are scalars. -/
def scalar (expected : String) (convert : Json → Except Cause α) : Decoder α where
  read _ := do
    match ← peekSolid? with
    | none => failNext .valueMissing
    | some s =>
      match scalar? s with
      | some read => settle (convert (← read))
      | none => mismatch expected s
  ofTree _ := convert

/-- Texts. -/
def string : Decoder String :=
  scalar "a string" fun
    | .string s => .ok s
    | j => .error (.wrongType (found j) "a string")

/-- Truth values. -/
def bool : Decoder Bool :=
  scalar "a boolean" fun
    | .bool b => .ok b
    | j => .error (.wrongType (found j) "a boolean")

/-- Numbers; an integer is rounded if it has to be. -/
def float : Decoder Binary64 :=
  scalar "f64" fun
    | .number (.float x) => .ok x
    | .number (.integer n) => .ok (.ofInt n)
    | j => .error (.wrongType (found j) "f64")

/-- Integers within bounds. A number with a point is of another type, even if it is whole. -/
def integer (expected : String) (low high : Int) (convert : Int → α) : Decoder α :=
  scalar expected fun
    | .number (.integer n) =>
      if low ≤ n && n ≤ high then .ok (convert n)
      else .error (.wrongValue (.number (.integer n)) expected)
    | j => .error (.wrongType (found j) expected)

/-- Signed integers of 64 bits. -/
def int64 : Decoder Int64 := integer "i64" Int64.minValue.toInt Int64.maxValue.toInt Int64.ofInt

/-- Natural numbers of 64 bits. -/
def uint64 : Decoder UInt64 := integer "u64" 0 (UInt64.size - 1) fun n => UInt64.ofNat n.toNat

/-- Natural numbers of 16 bits. -/
def uint16 : Decoder UInt16 := integer "u16" 0 (UInt16.size - 1) fun n => UInt16.ofNat n.toNat

/-- Texts that another reader understands; its refusal is a fault right behind the text. -/
def spelled (expected : String) (parse : String → Except String α) : Decoder α :=
  scalar expected fun
    | .string s => (parse s).mapError .refused
    | j => .error (.wrongType (found j) expected)

/-- A condition on a value that was read; the container around the value places the fault. -/
def refine (d : Decoder α) (f : α → Except Cause β) : Decoder β where
  read depth := do
    match f (← d.read depth) with
    | .ok b => pure b
    | .error cause => failWithin cause
  ofTree content j := do f (← d.ofTree content j)

/-- The decoder of an image of a type. -/
def map (f : α → β) (d : Decoder α) : Decoder β where
  read depth := f <$> d.read depth
  ofTree content j := f <$> d.ofTree content j

/-- `null`, or a value. -/
def optional (d : Decoder α) : Decoder (Option α) where
  read depth := do
    match ← peekSolid? with
    | some (.char 'n') => skip; word ['u', 'l', 'l']; pure none
    | _ => some <$> d.read depth
  ofTree content
    | .null => .ok none
    | j => some <$> d.ofTree content j

def list (d : Decoder α) : Decoder (List α) where
  read depth := do
    match ← peekSolid? with
    | none => failNext .valueMissing
    | some (.char '[') =>
      Reader.list depth fun inner => do
        elements (fun _ => d.read inner) 0 ((← remaining) + 1)
    | some s => mismatch "a sequence" s
  ofTree content
    | .array items => items.mapM (d.ofTree content)
    | j => .error (.wrongType (found j) "a sequence")

def any : Decoder Json where
  read := tree sortMembers
  ofTree _ j := .ok j

/-- Reads a whole text. -/
def decode (d : Decoder α) (text : List Symbol) : Except Problem α :=
  run d.read text

/-- Reads a value with sorted members. -/
def decodeTree (d : Decoder α) (j : Json) : Except Problem α :=
  (d.ofTree .value j).mapError fun cause => { cause }

end Decoder
end WalletEngine.Json
