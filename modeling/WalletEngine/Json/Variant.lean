import WalletEngine.Json.Record

/-! # Alternatives

Two ways to write one of several alternatives. A named alternative is a string, or an object whose
one member has that name and the value `null`. A tagged alternative is an object in which one
member, the tag, says what the others are; or a list whose first element is the tag. What belongs to
the tag is kept as it came until the tag is known, so faults in it have no place.
-/

namespace WalletEngine.Json.Decoder
open Reader
variable {α τ : Type}

def variantName (named : String → Except Cause τ) : Decoder τ :=
  scalar "variant identifier" fun
    | .string s => named s
    | j => .error (.wrongType (found j) "variant identifier")

/-- The value `null`. -/
def unit : Decoder Unit :=
  scalar "unit" fun
    | .null => .ok ()
    | j => .error (.wrongType (found j) "unit")

/-- An alternative that is written as its name. -/
def named (find : String → Except Cause α) : Decoder α where
  read depth := do
    match ← peekSolid? with
    | none => failNext .valueMissing
    | some (.char '"') => (variantName find).read depth
    | some (.char '\x7b') =>
      if depth = 0 then failNext .tooDeep
      skip
      let a ← (variantName find).read depth
      colon
      unit.read depth
      match ← peekSolid? with
      | some (.char '\x7d') => skip; pure a
      | some _ => failHere .valueExpected
      | none => failHere .objectUnclosed
    | some _ => failNext .valueExpected
  ofTree content
    | .string s => find s
    | .object [(name, payload)] => do
      let a ← find name
      unit.ofTree content payload
      return a
    | .object _ => .error (.wrongValue .map "map with a single key")
    | j => .error (.wrongType (found j) "string or map")

/-- Reads the members of a tagged alternative: the tag, and the other members as they came. -/
def readTagged (tag : String) (tags : Decoder τ) (depth : Nat) (first : Bool) :
    Nat → Option τ → Reader (Option τ × List (String × Json))
  | 0, seen => pure (seen, [])
  | fuel + 1, seen => do
    match ← nextName? first Reader.string with
    | none => pure (seen, [])
    | some name =>
      if name = tag then
        if seen.isSome then failWithin (.duplicateField tag)
        colon
        let t ← tags.read depth
        readTagged tag tags depth false fuel (some t)
      else
        colon
        let value ← tree id depth
        let (seen, rest) ← readTagged tag tags depth false fuel seen
        pure (seen, (name, value) :: rest)

/-- Takes the tag out of the members of a tree. -/
def takeTagged (tag : String) (tags : Decoder τ) (content : Content) :
    Option τ → List (String × Json) → Except Cause (Option τ × List (String × Json))
  | seen, [] => .ok (seen, [])
  | seen, (name, value) :: rest =>
    if name = tag then
      if seen.isSome then .error (.duplicateField tag)
      else do takeTagged tag tags content (some (← tags.ofTree content value)) rest
    else do
      let (seen, others) ← takeTagged tag tags content seen rest
      return (seen, (name, value) :: others)

/-- An alternative with a tag. `find` looks the tag up and `payload` reads what belongs to it, an
array of the elements behind the tag or an object of the other members. -/
def tagged (expected tag : String) (find : String → Except Cause τ)
    (payload : τ → Json → Except Cause α) : Decoder α where
  read depth := do
    let (t, content) ← do
      match ← peekSolid? with
      | none => failNext .valueMissing
      | some (.char '[') =>
        Reader.list depth fun inner => do
          match ← nextElement? true ((variantName find).read inner) with
          | none => failWithin (.missingField tag)
          | some t =>
            let rest ← elements (fun _ => tree id inner) 1 ((← remaining) + 1)
            pure (t, Json.array rest)
      | some (.char '\x7b') =>
        Reader.object depth fun inner => do
          match ← readTagged tag (variantName find) inner true ((← remaining) + 1) none with
          | (none, _) => failWithin (.missingField tag)
          | (some t, others) => pure (t, Json.object others)
      | some s => mismatch expected s
    match payload t content with
    | .ok a => pure a
    | .error cause => failWithin cause
  ofTree content
    | .array [] => .error (.missingField tag)
    | .array (first :: rest) => do
      payload (← (variantName find).ofTree content first) (.array rest)
    | .object members => do
      match ← takeTagged tag (variantName find) content none members with
      | (none, _) => .error (.missingField tag)
      | (some t, others) => payload t (.object others)
    | j => .error (.wrongType (found j) expected)

end WalletEngine.Json.Decoder
