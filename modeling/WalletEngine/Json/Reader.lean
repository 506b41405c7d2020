import WalletEngine.Json.Fault

/-! # Reading a text

A reader takes symbols from the front of a text or ends with a fault. This module holds the steps
that readers of all types share: blanks, words, the punctuation of lists and objects, and the rule
by which a container places the faults of the values in it.
-/

namespace WalletEngine.Json

/-- Reads from the front of a text. -/
abbrev Reader := StateT (List Symbol) (Except Fault)

namespace Reader
variable {α : Type}

/-- A fault in front of what is left to read. -/
def failHere (cause : Cause) : Reader α := fun rest =>
  .error { cause, place := .fixed (Symbol.totalSize rest) }

/-- A fault at the next byte; at the end of the text, the end itself. -/
def failNext (cause : Cause) : Reader α := fun rest =>
  .error { cause, place := .fixed (Symbol.totalSize rest - 1) }

/-- A fault whose place the enclosing container decides. -/
def failWithin (cause : Cause) : Reader α := fun rest =>
  .error { cause, place := .pending rest }

/-- Places a pending fault where its reader stopped. -/
def placed (read : Reader α) : Reader α := fun text =>
  match read text with
  | .error { cause, place := .pending rest, path } =>
    .error { cause, place := .fixed (Symbol.totalSize rest), path }
  | result => result

/-- Adds a step to the path of any fault. -/
def within (step : Step) (read : Reader α) : Reader α := fun text =>
  match read text with
  | .error f => .error { f with path := step :: f.path }
  | result => result

/-- The next symbol, which stays. -/
def peek? : Reader (Option Symbol) := fun rest => .ok (rest.head?, rest)

/-- Drops the next symbol. -/
def skip : Reader Unit := fun rest => .ok ((), rest.tail)

/-- The number of symbols left, which bounds every loop over them. -/
def remaining : Reader Nat := fun rest => .ok (rest.length, rest)

/-- The four blanks of JSON. -/
def isSpace : Symbol → Bool
  | .char c => c = ' ' || c = '\n' || c = '\t' || c = '\r'
  | .stray _ => false

/-- The next symbol after blanks, which are dropped. -/
def peekSolid? : Reader (Option Symbol) := fun rest =>
  let solid := rest.dropWhile isSpace
  .ok (solid.head?, solid)

/-- The letters of a word; the first of them that is missing is the fault. -/
def word : List Char → Reader Unit
  | [] => pure ()
  | c :: cs => do
    match ← peek? with
    | none => failHere .valueMissing
    | some s => if s = .char c then skip; word cs else failNext .wordExpected

/-- The colon between a name and its value. -/
def colon : Reader Unit := do
  match ← peekSolid? with
  | some (.char ':') => skip
  | some _ => failNext .colonExpected
  | none => failNext .objectUnclosed

/-- The next element of a list, or nothing in front of the closing bracket, which stays. `first`
tells whether the list has just been opened. -/
def nextElement? (first : Bool) (element : Reader α) : Reader (Option α) := do
  match ← peekSolid? with
  | none => failNext .listUnclosed
  | some (.char ']') => pure none
  | some s =>
    if first then some <$> element
    else if s = .char ',' then
      skip
      match ← peekSolid? with
      | some (.char ']') => failNext .commaTrailing
      | some _ => some <$> element
      | none => failNext .valueMissing
    else failNext .listCommaExpected

/-- The next name of an object, or nothing in front of the closing brace, which stays. `name` reads
from the opening quote on. -/
def nextName? (first : Bool) (name : Reader α) : Reader (Option α) := do
  match ← peekSolid? with
  | none => failNext .objectUnclosed
  | some (.char '\x7d') => pure none
  | some s =>
    if first then if s = .char '"' then some <$> name else failNext .keyNotString
    else if s = .char ',' then
      skip
      match ← peekSolid? with
      | some (.char '"') => some <$> name
      | some (.char '\x7d') => failNext .commaTrailing
      | some _ => failNext .keyNotString
      | none => failNext .valueMissing
    else failNext .objectCommaExpected

def closeList : Reader Unit := do
  match ← peekSolid? with
  | some (.char ']') => skip
  | some (.char ',') =>
    skip
    match ← peekSolid? with
    | some (.char ']') => failNext .commaTrailing
    | _ => failNext .charactersTrailing
  | some _ => failNext .charactersTrailing
  | none => failNext .listUnclosed

def closeObject : Reader Unit := do
  match ← peekSolid? with
  | some (.char '\x7d') => skip
  | some (.char ',') => failNext .commaTrailing
  | some _ => failNext .charactersTrailing
  | none => failNext .objectUnclosed

/-- What is left of a list with a pending fault after its end has been looked for. -/
def pastList (rest : List Symbol) : List Symbol :=
  match rest.dropWhile isSpace with
  | .char ']' :: tail => tail
  | .char ',' :: tail => tail.dropWhile isSpace
  | solid => solid

/-- What is left of an object with a pending fault after its end has been looked for. -/
def pastObject (rest : List Symbol) : List Symbol :=
  match rest.dropWhile isSpace with
  | .char '\x7d' :: tail => tail
  | solid => solid

/-- A container from its opening bracket, which is next, to its end. `depth` counts the containers
that may still be opened. A fault that is pending inside is placed where its end was looked for. -/
def container (depth : Nat) (past : List Symbol → List Symbol) (close : Reader Unit)
    (body : Nat → Reader α) : Reader α := fun text =>
  match depth with
  | 0 => failNext .tooDeep text
  | depth + 1 =>
    match body depth text.tail with
    | .error { cause, place := .pending rest, path } =>
      .error { cause, place := .fixed (Symbol.totalSize (past rest)), path }
    | .error fault => .error fault
    | .ok (a, rest) => (do close; pure a : Reader α) rest

/-- A list from its opening bracket to its end. -/
def list (depth : Nat) (body : Nat → Reader α) : Reader α :=
  container depth pastList closeList body

/-- An object from its opening brace to its end. -/
def object (depth : Nat) (body : Nat → Reader α) : Reader α :=
  container depth pastObject closeObject body

/-- All elements of a list; `fuel` bounds their number. -/
def elements (element : Nat → Reader α) (index : Nat) : Nat → Reader (List α)
  | 0 => pure []
  | fuel + 1 => do
    match ← nextElement? (index == 0) (element index) with
    | none => pure []
    | some a => (a :: ·) <$> elements element (index + 1) fuel

/-- All members of an object: each name, and what `member` reads from the colon on. -/
def members {ν : Type} (name : Reader ν) (member : ν → Reader α) (first : Bool) :
    Nat → Reader (List (ν × α))
  | 0 => pure []
  | fuel + 1 => do
    match ← nextName? first name with
    | none => pure []
    | some n =>
      let a ← member n
      ((n, a) :: ·) <$> members name member false fuel

/-- How many containers may stand inside one another. -/
def depthLimit : Nat := 127

/-- Reads a whole text: blanks may follow the value, nothing else. -/
def run (read : Nat → Reader α) (text : List Symbol) : Except Problem α :=
  let whole : Reader α := do
    let a ← read depthLimit
    match ← peekSolid? with
    | none => pure a
    | some _ => failNext .charactersTrailing
  match whole text with
  | .ok (a, _) => .ok a
  | .error fault => .error (fault.settle text)

/-- Reads a value from the front of a text, whatever follows it. -/
def runPrefix (read : Nat → Reader α) (text : List Symbol) : Except Problem α :=
  match read depthLimit text with
  | .ok (a, _) => .ok a
  | .error fault => .error (fault.settle text)

end Reader
end WalletEngine.Json
