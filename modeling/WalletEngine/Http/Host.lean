import WalletEngine.Bytes.Hex
import WalletEngine.Bytes.Utf8

/-! # Hosts

The host of an address with a well-known scheme is a name, an IPv4 number in any of its spellings,
or an IPv6 number in brackets. It is kept in its one normal form: names in lowercase, four decimal
parts for IPv4, and for IPv6 groups without leading zeros, the longest run of zeros left out. What the
ASCII form of an international name is, tables tell that are not part of this development.
-/

namespace WalletEngine.Http

/-- The bytes of a text in which percent signs with two digits stand for bytes. -/
def percentDecode : Bytes → Bytes
  | 37 :: hi :: lo :: rest =>
    match Hex.value? hi, Hex.value? lo with
    | some h, some l => UInt8.ofNat (16 * h + l) :: percentDecode rest
    | _, _ => 37 :: percentDecode (hi :: lo :: rest)
  | b :: rest => b :: percentDecode rest
  | [] => []

/-- The digits of a part of an IPv4 number, in the base that its first characters name. -/
def ipv4Part? (part : List Char) : Option Nat := do
  let (base, digits) := match part with
    | '0' :: 'x' :: rest | '0' :: 'X' :: rest => (16, rest)
    | '0' :: rest@(_ :: _) => (8, rest)
    | part => (10, part)
  guard !part.isEmpty
  digits.foldlM (fun n c => do
    let v ← Hex.value? (UInt8.ofNat c.toNat)
    guard (c.toNat < 128 && v < base)
    return base * n + v) 0

def splitAt (mark : Char) (cs : List Char) : List (List Char) :=
  cs.foldr (fun c parts => match parts with
    | part :: rest => if c = mark then [] :: part :: rest else (c :: part) :: rest
    | [] => [[c]]) [[]]

/-- The parts of a name, without an empty one at the end. -/
def labels (cs : List Char) : List (List Char) :=
  let parts := splitAt '.' cs
  if 1 < parts.length && parts.getLast? = some [] then parts.dropLast else parts

/-- The last part of a name is a number, so the name must be an IPv4 number. -/
def endsInNumber (cs : List Char) : Bool :=
  match (labels cs).getLast? with
  | some last => !last.isEmpty && (last.all Char.isDigit || (last.length ≥ 2 &&
      (ipv4Part? last).isSome && (last.take 2 = ['0', 'x'] || last.take 2 = ['0', 'X'])))
  | none => false

/-- The normal form of an IPv4 number; the last part fills all bytes that are left. -/
def ipv4? (cs : List Char) : Option (List Char) := do
  let parts ← (labels cs).mapM ipv4Part?
  guard (parts.length ≤ 4)
  let last ← parts.getLast?
  let front := parts.dropLast
  guard (front.all (· < 256) && last >>> (8 * (5 - parts.length)) = 0)
  let bytes := front ++
    (List.range (5 - parts.length)).reverse.map fun i => last >>> (8 * i) % 256
  return (".".intercalate (bytes.map toString)).toList

def ipv6Groups? (cs : List Char) : Option (List Nat) :=
  if cs.isEmpty then some []
  else
    let parts := splitAt ':' cs
    List.flatten <$> parts.mapM fun part =>
      if part.contains '.' then do
        let bytes ← (splitAt '.' part).mapM fun p => do
          guard (!p.isEmpty && p.all Char.isDigit && (p.length = 1 || p.head? ≠ some '0'))
          let n ← ipv4Part? p
          guard (n < 256)
          return n
        match bytes with
        | [a, b, c, d] => some [256 * a + b, 256 * c + d]
        | _ => none
      else do
        guard (!part.isEmpty && part.length ≤ 4)
        let n ← part.foldlM (fun n c => do
          guard (c.toNat < 128)
          return 16 * n + (← Hex.value? (UInt8.ofNat c.toNat))) 0
        return [n]

def splitGap : List Char → Option (List Char × List Char)
  | ':' :: ':' :: rest => some ([], rest)
  | c :: rest => (splitGap rest).map fun (a, b) => (c :: a, b)
  | [] => none

/-- The eight groups of an IPv6 number. -/
def ipv6? (cs : List Char) : Option (List Nat) := do
  match splitGap cs with
  | some (front, back) =>
    let a ← ipv6Groups? front
    let b ← ipv6Groups? back
    guard (a.length + b.length ≤ 7)
    return a ++ List.replicate (8 - a.length - b.length) 0 ++ b
  | none =>
    let groups ← ipv6Groups? cs
    guard (groups.length = 8)
    return groups

def zeroRun (groups : List Nat) : Nat := (groups.takeWhile (· == 0)).length

/-- The normal form of the groups, in brackets. -/
def ipv6Text (groups : List Nat) : List Char :=
  let hex (gs : List Nat) := (":".intercalate (gs.map fun g => String.ofList (Nat.toDigits 16 g)))
  let longest := (List.range 8).foldl (fun best i =>
    if zeroRun (groups.drop best) < zeroRun (groups.drop i) then i else best) 0
  let run := zeroRun (groups.drop longest)
  let body := if run < 2 then hex groups
    else hex (groups.take longest) ++ "::" ++ hex (groups.drop (longest + run))
  ("[" ++ body ++ "]").toList

/-- The characters that no name may hold. -/
def forbiddenInHost : List Char :=
  [' ', '#', '/', ':', '<', '>', '?', '@', '[', '\\', ']', '^', '|', '%']

/-- The ASCII forms of international names. -/
abbrev Names := String → Option String

/-- A name that has its meaning in ASCII: no character is beyond it, and no part stands for one that
is. -/
def isPlain (name : List Char) : Bool :=
  name.all (·.toNat < 0x80) &&
    (splitAt '.' name).all fun part => (part.take 4).map Char.toLower != "xn--".toList

/-- The normal form of the host of an address with a well-known scheme. -/
def host? (names : Names) (cs : List Char) : Option (List Char) := do
  match cs with
  | '[' :: rest =>
    guard (rest.getLast? = some ']')
    return ipv6Text (← ipv6? rest.dropLast)
  | _ =>
    let text ← Utf8.decode? (percentDecode (Bytes.ofText (String.ofList cs)))
    let name ← if isPlain text.toList then some (text.toList.map Char.toLower)
      else (names text).map String.toList
    guard (!name.isEmpty && name.all fun c =>
      0x20 < c.toNat && c.toNat < 0x7f && !forbiddenInHost.contains c)
    if endsInNumber name then ipv4? name else return name

end WalletEngine.Http
