/-! # Media types

A media type is two tokens with a slash between them and parameters behind semicolons. What follows
a plus sign in the second token is its suffix. Upper and lower case do not differ.
-/

namespace WalletEngine.Http

def isTokenChar (c : Char) : Bool := c.isAlphanum || "!#$%&'*+-.^_`|~".toList.contains c

/-- The type and the subtype of a media type, with the suffix if there is one. -/
structure MediaType where
  major : String
  minor : String
  suffix : Option String
  deriving DecidableEq, Repr

namespace MediaType

def isQuotedChar (c : Char) : Bool := 31 < c.toNat && c.toNat ≠ 127

/-- What follows a quoted parameter, up to the semicolon in front of the next one. -/
def afterQuoted? : List Char → Option (List Char)
  | [] => some []
  | ';' :: rest => some rest
  | ' ' :: rest => afterQuoted? rest
  | _ => none

/-- What follows the value of a parameter. -/
def afterValue? : List Char → Option (List Char)
  | '"' :: rest =>
    match rest.span fun c => isQuotedChar c && c != '"' with
    | ([], _) => none
    | (_, '"' :: rest) => afterQuoted? rest
    | _ => none
  | cs =>
    match cs.span isTokenChar with
    | (_, []) => some []
    | (_ :: _, ';' :: rest) => some rest
    | _ => none

/-- Whether a text is a row of parameters; at most `fuel` of them. -/
def isParameters : Nat → List Char → Bool
  | _, [] => true
  | 0, _ => false
  | fuel + 1, cs =>
    match (cs.dropWhile (· == ' ')).span isTokenChar with
    | ([], []) => true
    | (_ :: _, '=' :: rest) =>
      match afterValue? rest with
      | some rest => isParameters fuel rest
      | none => false
    | _ => false

/-- The subtype and the suffix of a second token; a plus sign in front is part of the subtype. -/
def splitSuffix (token : List Char) : String × Option String :=
  match token.reverse.span (· != '+') with
  | (tail, '+' :: front) =>
    if front.isEmpty then (String.ofList token, none)
    else (String.ofList front.reverse, some (String.ofList tail.reverse))
  | _ => (String.ofList token, none)

def parse? (text : String) : Option MediaType :=
  let lower (cs : List Char) : List Char := cs.map Char.toLower
  match text.toList.span isTokenChar with
  | (major@(_ :: _), '/' :: rest) =>
    match rest.span isTokenChar with
    | (token@(_ :: _), parameters) =>
      let (minor, suffix) := splitSuffix (lower token)
      let type : MediaType := { major := String.ofList (lower major), minor, suffix }
      match parameters with
      | [] => some type
      | ';' :: rest => if isParameters (rest.length + 1) rest then some type else none
      | _ => none
    | _ => none
  | _ => none

def isJson (t : MediaType) : Bool :=
  t.major = "application" && (t.minor = "json" || t.suffix = some "json")

end MediaType
end WalletEngine.Http
