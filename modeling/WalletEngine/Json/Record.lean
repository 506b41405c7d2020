import WalletEngine.Json.Decoder
import WalletEngine.Json.Skip

/-! # Records

A record type is described by its fields. It is read from an object, whose members may come in any
order and whose unknown members are passed over, or from a list of the fields in order. An open
record keeps the unknown members instead and is read from objects only.
-/

namespace WalletEngine.Json

/-- A field of a record: its name, its type, and its value where it is absent. -/
structure Field where
  name : String
  Carrier : Type
  decoder : Decoder Carrier
  /-- The value for an object without this member. -/
  absent : Option Carrier
  /-- The value for a list that ends before this field. -/
  absentInList : Option Carrier

namespace Field
variable {α : Type}

def required (name : String) (d : Decoder α) : Field :=
  ⟨name, α, d, none, none⟩

/-- A field that may be `null`, and absent from an object. -/
def nullable (name : String) (d : Decoder α) : Field :=
  ⟨name, Option α, d.optional, some none, none⟩

/-- A field with a value of its own where it is absent. -/
def withDefault (name : String) (d : Decoder α) (value : α) : Field :=
  ⟨name, α, d, some value, some value⟩

/-- A field that may be `null` or absent. -/
def optional (name : String) (d : Decoder α) : Field :=
  withDefault name d.optional none

end Field

/-- A value for each field. -/
def Row : List Field → Type
  | [] => Unit
  | f :: fs => f.Carrier × Row fs

/-- The fields that have been read so far. -/
def Slots : List Field → Type
  | [] => Unit
  | f :: fs => Option f.Carrier × Slots fs

namespace Slots
open Reader

/-- No field has been read. -/
def empty : (fs : List Field) → Slots fs
  | [] => ()
  | _ :: fs => (none, empty fs)

/-- All fields, with their values for an object where they are absent. The first that has none is
missing. -/
def complete : {fs : List Field} → Slots fs → Except Cause (Row fs)
  | [], _ => .ok ()
  | f :: _, (slot, slots) => do
    let value ← match slot <|> f.absent with
      | some value => .ok value
      | none => .error (.missingField f.name)
    let row ← slots.complete
    return (value, row)

/-- Reads the member `name` from the colon on, if there is such a field. A field is read once. -/
def readMember (depth : Nat) (name : String) : {fs : List Field} → Slots fs →
    Option (Reader (Slots fs))
  | [], _ => none
  | f :: _, (slot, slots) =>
    if f.name = name then
      some <|
        if slot.isSome then failWithin (.duplicateField name)
        else do
          colon
          let value ← f.decoder.read depth
          pure (some value, slots)
    else (slots.readMember depth name).map fun read => (slot, ·) <$> read

/-- Takes the member `name` of a tree, if there is such a field. -/
def takeMember (content : Content) (name : String) (value : Json) : {fs : List Field} → Slots fs →
    Option (Except Cause (Slots fs))
  | [], _ => none
  | f :: _, (slot, slots) =>
    if f.name = name then
      some <|
        if slot.isSome then .error (.duplicateField name)
        else do return (some (← f.decoder.ofTree content value), slots)
    else (slots.takeMember content name value).map fun taken => (slot, ·) <$> taken

end Slots

/-- Fields in order from the elements of a list. A list that is too short has the length `index`. -/
def readElements (depth : Nat) (expected : String) (index : Nat) :
    (fs : List Field) → Reader (Row fs)
  | [] => pure ()
  | f :: fs => do
    let value ← do
      match ← Reader.nextElement? (index == 0) (f.decoder.read depth) with
      | some value => pure value
      | none =>
        match f.absentInList with
        | some value => pure value
        | none => Reader.failWithin (.wrongLength index expected)
    let row ← readElements depth expected (index + 1) fs
    pure (value, row)

/-- Fields in order from the items of an array; the answer has the items left over. -/
def takeElements (content : Content) (expected : String) (index : Nat) :
    (fs : List Field) → List Json → Except Cause (Row fs × List Json)
  | [], items => .ok ((), items)
  | f :: fs, items => do
    let value ← match items with
      | item :: _ => f.decoder.ofTree content item
      | [] => match f.absentInList with
        | some value => .ok value
        | none => .error (.wrongLength index expected)
    let (row, rest) ← takeElements content expected (index + 1) fs items.tail
    return ((value, row), rest)

def elementCount (n : Nat) : String :=
  if n = 1 then "1 element" else s!"{n} elements"

/-- What is expected instead of a list with items left over. -/
def Content.fewer (content : Content) (taken : Nat) : String :=
  match content with
  | .value => "fewer elements in array"
  | .kept => elementCount taken ++ " in sequence"

namespace Decoder
open Reader
variable {α : Type} {fs : List Field}

/-- Reads members into slots until the object ends. `unknown` deals with a member that is no field,
from the colon on; what it answers is collected. -/
def readMembers {β : Type} (depth : Nat) (unknown : String → Reader β) (first : Bool) :
    Nat → Slots fs → Reader (Slots fs × List β)
  | 0, slots => pure (slots, [])
  | fuel + 1, slots => do
    match ← nextName? first Reader.string with
    | none => pure (slots, [])
    | some name =>
      match slots.readMember depth name with
      | some read => readMembers depth unknown false fuel (← read)
      | none =>
        let kept ← unknown name
        let (slots, rest) ← readMembers depth unknown false fuel slots
        pure (slots, kept :: rest)

/-- Takes the members of a tree into slots; the answer has the members that are no fields. -/
def takeMembers (content : Content) (slots : Slots fs) :
    List (String × Json) → Except Cause (Slots fs × List (String × Json))
  | [] => .ok (slots, [])
  | (name, value) :: rest =>
    match slots.takeMember content name value with
    | some taken => do takeMembers content (← taken) rest
    | none => do
      let (slots, others) ← takeMembers content slots rest
      return (slots, (name, value) :: others)

/-- The row of the slots; a missing field is placed by the container. -/
def finish (slots : Slots fs) : Reader (Row fs) :=
  match slots.complete with
  | .ok row => pure row
  | .error cause => failWithin cause

/-- A record from a list or an object in a text, which is next. `expected` names the record, `whole`
the record with its number of elements. -/
def readRecord (expected whole : String) (fs : List Field) (depth : Nat) : Reader (Row fs) := do
  match ← peekSolid? with
  | none => failNext .valueMissing
  | some (.char '[') => Reader.list depth fun inner => readElements inner whole 0 fs
  | some (.char '\x7b') =>
    Reader.object depth fun inner => do
      let (slots, _) ← readMembers inner (fun _ => do colon; skipValue) true ((← remaining) + 1)
        (Slots.empty fs)
      finish slots
  | some s => mismatch expected s

/-- A record from an array or an object. -/
def takeRecord (expected whole : String) (fs : List Field) (content : Content) :
    Json → Except Cause (Row fs)
  | .array items => do
    let (row, rest) ← takeElements content whole 0 fs items
    if rest.isEmpty then .ok row
    else .error (.wrongLength items.length (content.fewer (items.length - rest.length)))
  | .object members => do
    let (slots, _) ← takeMembers content (Slots.empty fs) members
    slots.complete
  | j => .error (.wrongType (found j) expected)

def record (name : String) (fs : List Field) (build : Row fs → α) : Decoder α :=
  let expected := "struct " ++ name
  let whole := expected ++ " with " ++ elementCount fs.length
  { read := fun depth => build <$> readRecord expected whole fs depth
    ofTree := fun content j => build <$> takeRecord expected whole fs content j }

/-- A record that keeps its unknown members, sorted by name. -/
def openRecord (name : String) (fs : List Field)
    (build : Row fs → List (String × Json) → α) : Decoder α where
  read depth := do
    match ← peekSolid? with
    | none => failNext .valueMissing
    | some (.char '\x7b') =>
      Reader.object depth fun inner => do
        let (slots, others) ← readMembers inner
          (fun name => do colon; (name, ·) <$> tree sortMembers inner) true ((← remaining) + 1)
          (Slots.empty fs)
        let row ← finish slots
        pure (build row (sortMembers others))
    | some s => mismatch ("struct " ++ name) s
  ofTree content
    | .object members => do
      let (slots, others) ← takeMembers content (Slots.empty fs) members
      let row ← slots.complete
      return build row (sortMembers others)
    | j => .error (.wrongType (found j) ("struct " ++ name))

end Decoder
end WalletEngine.Json
