import WalletEngine.Http.Host
import WalletEngine.Http.Percent

/-! # Addresses

Absolute addresses as the URL standard reads and writes them. Reading is lenient about slashes,
blanks and letter case; what is written is the normal form.
-/

namespace WalletEngine.Http

/-- An absolute address in its normal form. -/
structure Url where
  scheme : String
  user : String
  password : String
  host : Option String
  /-- The port, unless it is the usual one of the scheme. -/
  port : Option Nat
  path : String
  query : Option String
  fragment : Option String
  deriving DecidableEq, Repr

namespace Url

/-- The usual port of a well-known scheme. -/
def usualPort? : String → Option Nat
  | "http" | "ws" => some 80
  | "https" | "wss" => some 443
  | "ftp" => some 21
  | _ => none

/-- Splits at the first character that satisfies `p`; the second part starts with it. -/
def breakAt (p : Char → Bool) (cs : List Char) : List Char × List Char :=
  (cs.takeWhile (!p ·), cs.dropWhile (!p ·))

/-- The text without control characters and spaces at its ends and without line breaks and tabs. -/
def clean (cs : List Char) : List Char :=
  let outer (c : Char) : Bool := c.toNat ≤ 0x20
  (((cs.dropWhile outer).reverse.dropWhile outer).reverse).filter fun c =>
    c != '\t' && c != '\n' && c != '\r'

/-- The scheme in lowercase and what follows its colon. -/
def scheme? (cs : List Char) : Option (String × List Char) := do
  let (name, rest) := breakAt (· == ':') cs
  guard ((name.head?.map Char.isAlpha).getD false)
  guard (name.all fun c => c.isAlphanum || c == '+' || c == '-' || c == '.')
  match rest with
  | _ :: rest => return (String.ofList (name.map Char.toLower), rest)
  | [] => none

/-- A segment that stands for the same place. -/
def isDot (segment : List Char) : Bool :=
  ["." , "%2e"].contains (String.ofList (segment.map Char.toLower))

/-- A segment that stands for the place above. -/
def isDotDot (segment : List Char) : Bool :=
  ["..", ".%2e", "%2e.", "%2e%2e"].contains (String.ofList (segment.map Char.toLower))

/-- Follows the segments of a path from the root; `acc` has the segments so far, the last first. -/
def walk (acc : List (List Char)) : List (List Char) → List (List Char)
  | [] => acc.reverse
  | [last] =>
    (if isDotDot last then [] :: acc.drop 1
      else if isDot last then [] :: acc
      else encodeChars pathSet last :: acc).reverse
  | segment :: rest =>
    if isDotDot segment then walk (acc.drop 1) rest
    else if isDot segment then walk acc rest
    else walk (encodeChars pathSet segment :: acc) rest

def normalPath (cs : List Char) : String :=
  let segments := splitAt '/' (match cs with | '/' :: rest => rest | cs => cs)
  String.ofList ((walk [] segments).flatMap ('/' :: ·))

/-- The name and the password in front of the host. -/
def userInfo (cs : List Char) : String × String :=
  let (user, rest) := breakAt (· == ':') cs
  (String.ofList (encodeChars userSet user), String.ofList (encodeChars userSet (rest.drop 1)))

/-- Splits the port from the host; a colon in brackets is part of the host. -/
def splitPort (cs : List Char) : List Char × Option (List Char) :=
  let (tail, front) := breakAt (fun c => c == ':' || c == ']') cs.reverse
  match front with
  | ':' :: host => (host.reverse, some tail.reverse)
  | _ => (cs, none)

/-- The port, if it is given and not the usual one. -/
def port? (scheme : String) : Option (List Char) → Option (Option Nat)
  | none | some [] => some none
  | some digits =>
    let n := digits.foldl (fun n c => 10 * n + (c.toNat - 48)) 0
    if digits.all Char.isDigit && n < 65536 then
      some (if usualPort? scheme = some n then none else some n)
    else none

/-- Reads what follows the scheme and the slashes of an address with a host. -/
def withAuthority? (names : Names) (scheme : String) (special : Bool) (cs : List Char)
    (query fragment : Option String) : Option Url := do
  let (authority, path) := breakAt (· == '/') cs
  let (reversedHost, reversedUser) := breakAt (· == '@') authority.reverse
  let (user, password) := userInfo (reversedUser.drop 1).reverse
  let (hostText, portText) := splitPort reversedHost.reverse
  let host ← if special then host? names hostText
    else some (encodeChars [] hostText)
  let port ← port? scheme portText
  let path := if !special && path.isEmpty then "" else normalPath path
  return { scheme, user, password, host := some (String.ofList host), port, path, query, fragment }

/-- Reads an absolute address. -/
def parse? (names : Names) (text : String) : Option Url := do
  let (scheme, rest) ← scheme? (clean text.toList)
  let special := (usualPort? scheme).isSome
  let (rest, fragment) := breakAt (· == '#') rest
  let (rest, query) := breakAt (· == '?') rest
  let encode (set : List Char) : List Char → Option String
    | [] => none
    | _ :: cs => some (String.ofList (encodeChars set cs))
  let query := encode (if special then specialQuerySet else querySet) query
  let fragment := encode fragmentSet fragment
  if special then
    let rest := rest.map fun c => if c == '\\' then '/' else c
    withAuthority? names scheme true (rest.dropWhile (· == '/')) query fragment
  else match rest with
    | '/' :: '/' :: rest =>
      if scheme = "file" then
        let (_, path) := breakAt (· == '/') rest
        return ⟨scheme, "", "", none, none, "//" ++ normalPath path, query, fragment⟩
      withAuthority? names scheme false rest query fragment
    | '/' :: _ => return ⟨scheme, "", "", none, none, normalPath rest, query, fragment⟩
    | _ => return ⟨scheme, "", "", none, none, String.ofList (encodeChars [] rest), query, fragment⟩

/-- The path with the query, as a request names it. -/
def target (u : Url) : String :=
  u.path ++ (match u.query with | some q => "?" ++ q | none => "")

/-- The host with its port. -/
def authority (u : Url) : String :=
  u.host.getD "" ++ (match u.port with | some p => s!":{p}" | none => "")

/-- The address without the name and the password in it. -/
def anonymous (u : Url) : Url := { u with user := "", password := "" }

/-- The written form. -/
def text (u : Url) : String :=
  let user := if u.user.isEmpty && u.password.isEmpty then ""
    else u.user ++ (if u.password.isEmpty then "" else ":" ++ u.password) ++ "@"
  u.scheme ++ ":" ++ (if u.host.isSome then "//" ++ user ++ u.authority else "") ++ u.target ++
    (match u.fragment with | some f => "#" ++ f | none => "")

end Url
end WalletEngine.Http
