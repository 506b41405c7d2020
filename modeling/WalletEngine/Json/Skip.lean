import WalletEngine.Json.Numeral
import WalletEngine.Json.StringReader

/-! # Passing over a value

A member that nobody asked for is checked for its grammar and dropped. The check keeps a list of the
containers it is in, so it has no limit of depth, and it does not look into numbers and strings
further than their form needs: it neither rounds numbers nor pairs surrogates.
-/

namespace WalletEngine.Json.Reader

/-- A container that is being passed over. -/
inductive Frame where
  | list
  | object
  deriving DecidableEq, Repr

/-- The bracket that ends a container. -/
def Frame.closing : Frame → Char
  | .list => ']'
  | .object => '\x7d'

/-- The fault at the end of the text inside a container. -/
def Frame.unclosed : Frame → Cause
  | .list => .listUnclosed
  | .object => .objectUnclosed

/-- The fault where a comma or the end of a container should stand. -/
def Frame.commaExpected : Frame → Cause
  | .list => .listCommaExpected
  | .object => .objectCommaExpected

/-- An escape after its backslash, unresolved. -/
def skipEscape : Reader Unit := do
  match ← peek? with
  | none => failHere .stringUnclosed
  | some (.char 'u') => skip; let _ ← unit
  | some (.char c) => if (shortEscape? c).isSome then skip else failNext .escapeUnknown
  | some (.stray _) => failNext .escapeUnknown

/-- A string after its opening quote, past its closing quote. -/
def skipString : Nat → Reader Unit
  | 0 => failHere .stringUnclosed
  | fuel + 1 => do
    match ← peek? with
    | none => failHere .stringUnclosed
    | some (.char '"') => skip
    | some (.char '\\') => skip; skipEscape; skipString fuel
    | some s => if s.isControl then failHere .controlCharacter else skip; skipString fuel

/-- An exponent after its mark. -/
def skipExponent : Reader Unit := do
  match ← peek? with
  | some (.char '+') | some (.char '-') => skip
  | _ => pure ()
  if (← digits).isEmpty then failNext .numberMalformed

/-- An exponent if its mark is next. -/
def skipOptionalExponent : Reader Unit := do
  match ← peek? with
  | some (.char 'e') | some (.char 'E') => skip; skipExponent
  | _ => pure ()

/-- A number after its sign. -/
def skipNumber : Reader Unit := do
  match ← peek? with
  | some (.char '0') =>
    skip
    if ((← peek?).map Symbol.isDigit).getD false then failNext .numberMalformed
  | _ => if (← digits).isEmpty then failNext .numberMalformed
  match ← peek? with
  | some (.char '.') =>
    skip
    if (← digits).isEmpty then failNext .numberMalformed
    skipOptionalExponent
  | _ => skipOptionalExponent

/-- A scalar is passed over; of a container only its opening bracket, and its frame is the answer.
-/
def skipStart : Reader (Option Frame) := do
  match ← peekSolid? with
  | none => failNext .valueMissing
  | some (.char 'n') => skip; word ['u', 'l', 'l']; pure none
  | some (.char 't') => skip; word ['r', 'u', 'e']; pure none
  | some (.char 'f') => skip; word ['a', 'l', 's', 'e']; pure none
  | some (.char '-') => skip; skipNumber; pure none
  | some (.char '"') => skip; skipString ((← remaining) + 1); pure none
  | some (.char '[') => skip; pure (some .list)
  | some (.char '\x7b') => skip; pure (some .object)
  | some s => if s.isDigit then skipNumber; pure none else failNext .valueExpected

/-- The name and the colon in front of a member of an object; nothing in front of an element. -/
def skipName : Frame → Reader Unit
  | .list => pure ()
  | .object => do
    match ← peekSolid? with
    | some (.char '"') => skip; skipString ((← remaining) + 1)
    | some _ => failNext .keyNotString
    | none => failNext .objectUnclosed
    colon

/-- Closes containers from the innermost on, until a comma announces another value. `afterItem` is
false only right behind an opening bracket. The answer is the containers still open. -/
def skipClosing (afterItem : Bool) : List Frame → Reader (List Frame)
  | [] => pure []
  | frame :: outer => do
    match ← peekSolid? with
    | none => failNext frame.unclosed
    | some s =>
      if s = .char ',' && afterItem then skip; pure (frame :: outer)
      else if s = .char frame.closing then skip; skipClosing true outer
      else if afterItem then failNext frame.commaExpected
      else pure (frame :: outer)

/-- Passes over values until no container is open. -/
def skipOpen : Nat → List Frame → Reader Unit
  | 0, _ => failNext .valueMissing
  | fuel + 1, frames => do
    let opened ← skipStart
    match ← skipClosing opened.isNone (opened.toList ++ frames) with
    | [] => pure ()
    | frame :: outer =>
      skipName frame
      skipOpen fuel (frame :: outer)

/-- Passes over one value. -/
def skipValue : Reader Unit := do
  skipOpen ((← remaining) + 1) []

end WalletEngine.Json.Reader
