import WalletEngine.Time.Date

/-! # Instants

An instant is a date with a time of day in UTC, down to the nanosecond; second 60 is a leap second.
It is written as RFC 3339 has it, with as few groups of three fraction digits as are exact. Years of
more than four digits carry a sign. Lengths of time are counted in nanoseconds unless their name says
otherwise.
-/

namespace WalletEngine.Time

/-- The nanoseconds of a second. -/
abbrev perSecond : Nat := 1_000_000_000

/-- The nanoseconds of a millisecond. -/
abbrev perMilli : Nat := 1_000_000

/-- A point in time, in UTC. -/
structure Instant where
  date : Date
  hour : Fin 24
  minute : Fin 60
  second : Fin 61
  nano : Fin perSecond
  deriving DecidableEq, Repr

/-- A number with at least `width` digits. -/
def padded (width n : Nat) : List Char :=
  let digits := (toString n).toList
  List.replicate (width - digits.length) '0' ++ digits

/-- A year of four digits, or with a sign where four digits do not do. -/
def yearText (year : Int) : List Char :=
  if 0 ≤ year && year ≤ 9999 then padded 4 year.toNat
  else (if year < 0 then '-' else '+') :: padded 4 year.natAbs

/-- The fraction of a second in as few groups of three digits as are exact. -/
def fractionText (nano : Nat) : List Char :=
  if nano = 0 then []
  else if nano % 1000000 = 0 then '.' :: padded 3 (nano / 1000000)
  else if nano % 1000 = 0 then '.' :: padded 6 (nano / 1000)
  else '.' :: padded 9 nano

namespace Instant

/-- The written form. -/
def text (t : Instant) : String :=
  String.ofList <|
    yearText t.date.year ++ '-' :: padded 2 t.date.month ++ '-' :: padded 2 t.date.day ++
    'T' :: padded 2 t.hour ++ ':' :: padded 2 t.minute ++ ':' :: padded 2 t.second ++
    fractionText t.nano ++ ['Z']

def order (a b : Instant) : Ordering :=
  (compare a.date.year b.date.year).then <|
    (compare a.date.month b.date.month).then <|
      (compare a.date.day b.date.day).then <|
        (compare a.hour.val b.hour.val).then <|
          (compare a.minute.val b.minute.val).then <|
            (compare a.second.val b.second.val).then (compare a.nano.val b.nano.val)

def latest (a b : Instant) : Instant :=
  if order a b = .gt then a else b

/-- The number of milliseconds from the start of 1970, rounded down. -/
def millis (t : Instant) : Int :=
  (((t.date.dayNumber * 24 + t.hour.val) * 60 + t.minute.val) * 60 + t.second.val) * 1000 +
    (t.nano.val / perMilli : Nat)

/-- The instant in a minute of a day, counted from its start; numbers that are too large wrap. -/
def ofMinute (date : Date) (minute second nano : Nat) : Instant where
  date
  hour := Fin.ofNat 24 (minute / 60)
  minute := Fin.ofNat 60 minute
  second := Fin.ofNat 61 second
  nano := Fin.ofNat perSecond nano

/-- The instant a number of nanoseconds after the start of 1970. -/
def ofNanos? (n : Int) : Option Instant := do
  let seconds := Int.fdiv n perSecond
  let day := Int.fdiv seconds 86400
  let ofDay := (seconds - day * 86400).toNat
  let date ← Date.ofDayNumber? day
  return ofMinute date (ofDay / 60) (ofDay % 60) (n - seconds * perSecond).toNat

/-- The start of 1970. -/
def epoch : Instant where
  date := ⟨1970, 1, 1, by decide⟩
  hour := 0
  minute := 0
  second := 0
  nano := 0

end Instant
end WalletEngine.Time
