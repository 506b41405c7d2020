import WalletEngine.Json.Value
import WalletEngine.Decimal.Notation
import WalletEngine.Text.Quoted
import WalletEngine.Text.Symbol

/-! # What is wrong with a text

A cause says what a reader met: a breach of the grammar, or a value that does not fit the type that
is read. A fault is a cause with its place in the text, counted in bytes from the end so that
readers need not know how much came before. `Fault.settle` turns it into a problem with a line and a
column.
-/

namespace WalletEngine.Json

/-- A value as a message names it: scalars with their text, containers by kind. -/
inductive Found where
  | null
  | bool (b : Bool)
  | number (n : Number)
  | string (s : String)
  | sequence
  | map
  deriving DecidableEq, Repr

/-- The name of a value. -/
def found : Json → Found
  | .null => .null
  | .bool b => .bool b
  | .number n => .number n
  | .string s => .string s
  | .array _ => .sequence
  | .object _ => .map

def Found.text : Found → String
  | .null => "null"
  | .bool b => s!"boolean `{b}`"
  | .number (.integer n) => s!"integer `{n}`"
  | .number (.float x) => "floating point `" ++ x.text .record ++ "`"
  | .string s => "string " ++ Text.quoted s
  | .sequence => "sequence"
  | .map => "map"

/-- Why a text is not the value that is read from it. -/
inductive Cause where
  | listUnclosed
  | objectUnclosed
  | stringUnclosed
  | valueMissing
  | colonExpected
  | listCommaExpected
  | objectCommaExpected
  | wordExpected
  | valueExpected
  | escapeUnknown
  | numberMalformed
  | numberOutOfRange
  | textNotUnicode
  | controlCharacter
  | keyNotString
  | surrogateAlone
  | commaTrailing
  | charactersTrailing
  | surrogateEscapeExpected
  | tooDeep
  /-- A value of another type. -/
  | wrongType (found : Found) (expected : String)
  /-- A value of the right type that is not allowed. -/
  | wrongValue (found : Found) (expected : String)
  /-- A list with too few or too many elements. -/
  | wrongLength (length : Nat) (expected : String)
  | unknownVariant (name : String) (known : List String)
  | missingField (name : String)
  | duplicateField (name : String)
  /-- A text that its own reader refuses. -/
  | refused (message : String)
  deriving DecidableEq, Repr

/-- Names in back quotes as an enumeration. -/
def alternatives (names : List String) : String :=
  let each := names.map fun n => "`" ++ n ++ "`"
  match each with
  | [one] => one
  | [one, two] => one ++ " or " ++ two
  | each => "one of " ++ ", ".intercalate each

def Cause.message : Cause → String
  | .listUnclosed => "EOF while parsing a list"
  | .objectUnclosed => "EOF while parsing an object"
  | .stringUnclosed => "EOF while parsing a string"
  | .valueMissing => "EOF while parsing a value"
  | .colonExpected => "expected `:`"
  | .listCommaExpected => "expected `,` or `]`"
  | .objectCommaExpected => "expected `,` or `\x7d`"
  | .wordExpected => "expected ident"
  | .valueExpected => "expected value"
  | .escapeUnknown => "invalid escape"
  | .numberMalformed => "invalid number"
  | .numberOutOfRange => "number out of range"
  | .textNotUnicode => "invalid unicode code point"
  | .controlCharacter => "control character (\\u0000-\\u001F) found while parsing a string"
  | .keyNotString => "key must be a string"
  | .surrogateAlone => "lone leading surrogate in hex escape"
  | .commaTrailing => "trailing comma"
  | .charactersTrailing => "trailing characters"
  | .surrogateEscapeExpected => "unexpected end of hex escape"
  | .tooDeep => "recursion limit exceeded"
  | .wrongType found expected => "invalid type: " ++ found.text ++ ", expected " ++ expected
  | .wrongValue found expected => "invalid value: " ++ found.text ++ ", expected " ++ expected
  | .wrongLength length expected => s!"invalid length {length}, expected " ++ expected
  | .unknownVariant name known =>
    "unknown variant `" ++ name ++ "`, expected " ++ alternatives known
  | .missingField name => "missing field `" ++ name ++ "`"
  | .duplicateField name => "duplicate field `" ++ name ++ "`"
  | .refused message => message

/-- Where a fault lies. -/
inductive Place where
  /-- At a byte, given by the number of bytes from there to the end. -/
  | fixed (left : Nat)
  /-- Not yet decided: the container that holds the value decides, from what is left to read. -/
  | pending (rest : List Symbol)
  deriving DecidableEq, Repr

/-- A step from a container to one of the values in it. -/
inductive Step where
  | index (i : Nat)
  | key (name : String)
  deriving DecidableEq, Repr

/-- A cause, its place, and the way to the innermost value whose reading had begun. -/
structure Fault where
  cause : Cause
  place : Place
  path : List Step := []
  deriving DecidableEq, Repr

/-- A line, counted from one, and the number of bytes of it that come before a place. -/
structure Position where
  line : Nat
  column : Nat
  deriving DecidableEq, Repr

/-- The position after `count` bytes of a text, from a position at its start. -/
def Position.after (p : Position) (count : Nat) : List Symbol → Position
  | [] => p
  | s :: rest =>
    if count = 0 then p
    else if s = .char '\n' then Position.after ⟨p.line + 1, 0⟩ (count - 1) rest
    else Position.after ⟨p.line, p.column + min s.size count⟩ (count - s.size) rest

/-- A cause with its position, if it has one, and its path. -/
structure Problem where
  cause : Cause
  position : Option Position := none
  path : List Step := []
  deriving DecidableEq, Repr

/-- The problem of a fault in a text. A fault that no container has placed has no position. -/
def Fault.settle (text : List Symbol) (f : Fault) : Problem :=
  match f.place with
  | .pending _ => { cause := f.cause, path := f.path }
  | .fixed left =>
    { cause := f.cause
      position := some (Position.after ⟨1, 0⟩ (Symbol.totalSize text - left) text)
      path := f.path }

def Problem.message (p : Problem) : String :=
  match p.position with
  | none => p.cause.message
  | some at_ => p.cause.message ++ s!" at line {at_.line} column {at_.column}"

/-- The text of a path: names with points between them, indices in brackets. -/
def pathText (path : List Step) : String :=
  path.foldl (fun text step => match step with
    | .index i => text ++ s!"[{i}]"
    | .key name => if text.isEmpty then name else text ++ "." ++ name) ""

end WalletEngine.Json
