import WalletEngine.Time.Instant
import WalletEngine.Text.Blank

/-! # Reading instants

A lenient reader of RFC 3339: blanks may stand in front of every number and mark, fields may have
one digit, a blank may part date and time, and the zone may be `Z`, `UTC` or an offset in any common
spelling. The first thing that is wrong is named; whether the day exists is checked last.
-/

namespace WalletEngine.Time

/-- Why a text is no instant. -/
inductive StampFault where
  | outOfRange
  | impossible
  | invalid
  | tooShort
  | tooLong
  deriving DecidableEq, Repr

def StampFault.message : StampFault → String
  | .outOfRange => "input is out of range"
  | .impossible => "no possible date and time matching input"
  | .invalid => "input contains invalid characters"
  | .tooShort => "premature end of input"
  | .tooLong => "trailing input"

/-- Takes a part from the front of a text. -/
abbrev StampReader := StateT (List Char) (Except StampFault)

namespace StampReader

def blanks : StampReader Unit := modify (List.dropWhile Text.isBlank)

def mark (c : Char) : StampReader Unit := do
  match ← get with
  | [] => throw .tooShort
  | d :: rest => if d = c then set rest else throw .invalid

def value (digits : List Char) : Nat :=
  digits.foldl (fun n c => 10 * n + (c.toNat - 48)) 0

/-- A number of one digit up to `width` digits, within 64 bits with a sign. -/
def number (width : Nat) : StampReader Nat := do
  let text ← get
  let digits := (text.take width).takeWhile Char.isDigit
  if text.isEmpty then throw .tooShort
  if digits.isEmpty then throw .invalid
  if Int64.maxValue.toInt < value digits then throw .outOfRange
  set (text.drop digits.length)
  return value digits

/-- A number after blanks, of at most two digits and within bounds. -/
def field (low high : Nat) : StampReader Nat := do
  blanks
  let n ← number 2
  if n < low || high < n then throw .outOfRange
  return n

/-- A year after blanks: up to four digits, or a sign and any number of digits. -/
def year : StampReader Int := do
  blanks
  let text ← get
  let n ← match text with
    | '-' :: rest => set rest; (fun n : Nat => -(n : Int)) <$> number rest.length
    | '+' :: rest => set rest; Int.ofNat <$> number rest.length
    | _ => Int.ofNat <$> number 4
  if n < Int32.minValue.toInt || Int32.maxValue.toInt < n then throw .outOfRange
  return n

/-- The nanoseconds after a point; digits past the ninth are dropped. -/
def fraction : StampReader Nat := do
  match ← get with
  | '.' :: rest =>
    set rest
    let count := ((rest.take 9).takeWhile Char.isDigit).length
    let n ← number 9
    modify (List.dropWhile Char.isDigit)
    return n * Nat.pow 10 (9 - count)
  | _ => return 0

/-- Exactly two digits. A lone character of one byte is too short, anything else is invalid. -/
def twoDigits : StampReader (Nat × Nat) := do
  match ← get with
  | [] => throw .tooShort
  | [c] => throw (if c.toNat < 128 then .tooShort else .invalid)
  | a :: b :: rest =>
    if !(a.isDigit && b.isDigit) then throw .invalid
    set rest
    return (a.toNat - 48, b.toNat - 48)

/-- The sign of an offset: true if it is behind UTC. -/
def offsetSign : StampReader Bool := do
  match ← get with
  | [] => throw .tooShort
  | '+' :: rest => set rest; return false
  | '-' :: rest => set rest; return true
  | '\u2212' :: rest => set rest; return true
  | _ => throw .invalid

/-- The minutes that a zone is ahead of UTC. -/
def zone : StampReader Int := do
  blanks
  let text ← get
  let name := (text.take 3).map Char.toUpper
  if name = ['U', 'T', 'C'] then
    set (text.drop 3)
    return 0
  match text with
  | 'Z' :: rest | 'z' :: rest => set rest; return 0
  | _ =>
    let behind ← offsetSign
    let (a, b) ← twoDigits
    modify (List.dropWhile fun c => c = ':' || Text.isBlank c)
    let (c, d) ← twoDigits
    if 5 < c then throw .outOfRange
    let minutes : Int := (10 * a + b) * 60 + (10 * c + d)
    return if behind then -minutes else minutes

/-- What parts the date from the time. -/
def separator : StampReader Unit := do
  match ← get with
  | [] => throw .tooShort
  | c :: rest => if c = 'T' || c = 't' || c = ' ' then set rest else throw .invalid

/-- The fields of a date and a time of day, and the minutes that they are ahead of UTC. -/
structure Fields where
  year : Int
  month : Nat
  day : Nat
  hour : Nat
  minute : Nat
  second : Nat
  nano : Nat
  ahead : Int

/-- All fields, up to the end of the text. -/
def fields : StampReader Fields := do
  let year ← year
  blanks; mark '-'
  let month ← field 1 12
  blanks; mark '-'
  let day ← field 1 31
  separator
  let hour ← field 0 23
  blanks; mark ':'
  let minute ← field 0 59
  blanks; mark ':'
  let second ← field 0 60
  let nano ← fraction
  let ahead ← zone
  blanks
  if !(← get).isEmpty then throw .tooLong
  return { year, month, day, hour, minute, second, nano, ahead }

/-- The instant of the fields, if the day exists and the offset is less than a day. -/
def Fields.instant (f : Fields) : Except StampFault Instant := do
  let some local_ := Date.of? f.year f.month f.day | throw .outOfRange
  if 1440 ≤ f.ahead.natAbs then throw .outOfRange
  let minutes : Int := f.hour * 60 + f.minute - f.ahead
  let date ← match if minutes < 0 then local_.previous?
      else if 1440 ≤ minutes then local_.next? else some local_ with
    | some date => pure date
    | none => throw .impossible
  return .ofMinute date (minutes % 1440).toNat f.second f.nano

end StampReader

def Instant.parse (s : String) : Except StampFault Instant := do
  let (fields, _) ← StampReader.fields.run s.toList
  fields.instant

end WalletEngine.Time
