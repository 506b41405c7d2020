import WalletEngine.Binary64.Basic

/-! # JSON values

A value keeps the members of an object in the order they are written, so the same type serves for
records, whose order is part of their text, for trees read with sorted keys, and for content that is
kept aside as it came. `insert` builds the sorted form, in which a later member replaces an earlier
one of the same name.
-/

namespace WalletEngine

/-- A number as it was written: an integer, or a number with a point, an exponent or more digits
than an integer may have. -/
inductive Number where
  | integer (n : Int)
  | float (x : Binary64)
  deriving DecidableEq, Repr

/-- A JSON value. -/
inductive Json where
  | null
  | bool (b : Bool)
  | number (n : Number)
  | string (s : String)
  | array (items : List Json)
  | object (members : List (String × Json))

namespace Json

/-- Adds a member to members sorted by name; one of the same name is replaced. -/
def insert (name : String) (value : Json) : List (String × Json) → List (String × Json)
  | [] => [(name, value)]
  | (n, v) :: rest =>
    if name < n then (name, value) :: (n, v) :: rest
    else if name = n then (name, value) :: rest
    else (n, v) :: insert name value rest

/-- Members in the order of their names, the last of each name. -/
def sortMembers (members : List (String × Json)) : List (String × Json) :=
  members.foldl (fun sorted m => insert m.1 m.2 sorted) []

mutual

/-- The value with the members of every object in it in the order of their names. -/
def sorted : Json → Json
  | .array items => .array (sortedItems items)
  | .object members => .object (sortMembers (sortedMembers members))
  | j => j

def sortedItems : List Json → List Json
  | [] => []
  | item :: rest => item.sorted :: sortedItems rest

/-- The members of an object, the value of each sorted. -/
def sortedMembers : List (String × Json) → List (String × Json)
  | [] => []
  | (name, value) :: rest => (name, value.sorted) :: sortedMembers rest

end

/-- The value of a member, if this is an object that has it. -/
def member? (name : String) : Json → Option Json
  | .object members => members.lookup name
  | _ => none

def text? : Json → Option String
  | .string s => some s
  | _ => none

def float (x : Binary64) : Json := .number (.float x)

def integer (n : Int) : Json := .number (.integer n)

def ofOption {α : Type} (encode : α → Json) : Option α → Json
  | none => .null
  | some a => encode a

/-- The member, unless there is nothing to write. -/
def optionalMember {α : Type} (name : String) (encode : α → Json) :
    Option α → List (String × Json)
  | none => []
  | some a => [(name, encode a)]

end Json
end WalletEngine
