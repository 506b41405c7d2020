import WalletEngine.Store.Basic
import Std.Async.Basic
import Std.Time.DateTime.Timestamp

/-! # The real machine

Files, clock and random source of the machine that the program runs on, and what it knows of the
process and its account.
-/

namespace WalletEngine.Shell
open Std.Async (Async)

/-- The number and the wording of an error of the operating system as the library has them. -/
def rawError? : IO.Error → Option (UInt32 × String)
  | .alreadyExists _ code details | .otherError code details | .resourceBusy code details
  | .resourceVanished code details | .unsupportedOperation code details
  | .hardwareFault code details | .unsatisfiedConstraints code details
  | .illegalOperation code details | .protocolError code details | .timeExpired code details
  | .interrupted _ code details | .noFileOrDirectory _ code details
  | .invalidArgument _ code details | .permissionDenied _ code details
  | .resourceExhausted _ code details | .inappropriateType _ code details
  | .noSuchThing _ code details => some (code, details)
  | .unexpectedEof | .userError _ => none

/-- The number and the wording of an error of the operating system. The number is positive, and the
wording has a capital; for a socket the library gives both another way. -/
def systemError? (e : IO.Error) : Option (UInt32 × String) :=
  (rawError? e).map fun (code, details) => (min code (-code), details.capitalize)

def faultOf (e : IO.Error) : FileFault :=
  match systemError? e with
  | some (2, _) => .notFound
  | some (17, _) => .alreadyExists
  | some (20, _) => .notDirectory
  | some (21, _) => .isDirectory
  | some (code, details) => .other s!"{details} (os error {code})"
  | none => .other (toString e)

/-- Tries a file operation. -/
def attempt {α : Type} (action : IO α) : Async (Except FileFault α) := do
  match ← action.toBaseIO with
  | .ok a => return .ok a
  | .error e => return .error (faultOf e)

def readText (path : String) : Async (Except FileFault String) := do
  match ← attempt (IO.FS.readBinFile path) with
  | .error fault => return .error fault
  | .ok content =>
    match Utf8.decode? content.toList with
    | some text => return .ok text
    | none => return .error .notText

def withLock {α : Type} (path : String) (action : Async α) : Async (Except FileFault α) := do
  match ← attempt (IO.FS.Handle.mk path .append) with
  | .error fault => return .error fault
  | .ok handle =>
    match ← attempt (handle.lock true) with
    | .error fault => return .error fault
    | .ok () =>
      let answer ← action
      discard (attempt handle.unlock)
      return .ok answer

def above (path : String) : String :=
  let trimmed := path.toList.reverse.dropWhile (· == '/')
  String.ofList ((trimmed.dropWhile (· != '/')).dropWhile (· == '/')).reverse

def isDirectory (path : String) : IO Bool := do
  (← IO.FS.realPath path).isDir

/-- Makes a directory and those above it. -/
partial def makeDirectory (path : String) : Async (Except FileFault Unit) := do
  if path.isEmpty then return .ok ()
  match ← attempt (IO.FS.createDir path) with
  | .ok () => return .ok ()
  | .error .notFound =>
    match ← makeDirectory (above path) with
    | .ok () => attempt (IO.FS.createDir path)
    | .error fault => return .error fault
  | .error fault =>
    match ← attempt (isDirectory path) with
    | .ok true => return .ok ()
    | _ => return .error fault

def files : Files Async where
  makeDirectory := makeDirectory
  isPresent path := do return (← attempt (IO.FS.Handle.mk path .read)).isOk
  withLock := withLock
  readText := readText
  writeText path text := attempt (IO.FS.writeFile path text)
  rename source target := attempt (IO.FS.rename source target)

def nanoseconds : Async Int := do
  return (← Std.Time.Timestamp.now).toNanosecondsSinceUnixEpoch.val

def randomBytes (count : USize) : Async Bytes := do
  return (← IO.getRandomBytes count).toList

def host : Host Async where
  toFiles := files
  now := return (Time.Instant.ofNanos? (← nanoseconds)).getD .epoch
  millis := return Int64.ofInt (Int.fdiv (← nanoseconds) Time.perMilli)
  freshSecret := return Keyring.Secret.ofBytes (← randomBytes 32)
  freshNonce := return Hex.encode (← randomBytes 8)

/-- What the system says of itself in a file, which may be nothing. -/
def systemText (path : String) : IO String := do
  match ← (IO.FS.readBinFile path).toBaseIO with
  | .ok content => return (Utf8.decode? content.toList).getD ""
  | .error _ => return ""

def processNumber? : IO (Option Nat) := do
  return ((← systemText "/proc/self/stat").splitOn " ").head?.bind String.toNat?

/-- The number of the account that the process runs for. -/
def accountNumber? : IO (Option String) := do
  let lines := (← systemText "/proc/self/status").splitOn "\n"
  return (lines.find? (·.startsWith "Uid:")).bind fun line => (line.splitOn "\t")[1]?

/-- The home directory of that account. -/
def accountHome? : IO (Option String) := do
  let number ← accountNumber?
  let accounts := ((← systemText "/etc/passwd").splitOn "\n").map (·.splitOn ":")
  let account := accounts.find? fun account => number.isSome && account[2]? = number
  return (account.bind (·[5]?)).filter (!·.isEmpty)

end WalletEngine.Shell
