import WalletEngine.Json.Printer
import WalletEngine.Store.Files
import WalletEngine.Store.Image

/-! # The store

A store keeps its image in one file of a directory. Each change holds a lock, reads the file again,
and replaces it as a whole, so separate handles on one directory never overwrite each other's
changes unseen. A change that fails leaves the file as it was.
-/

namespace WalletEngine

/-- What the engine asks of the machine it runs on. -/
structure Host (m : Type → Type) extends Files m where
  /-- The time. -/
  now : m Time.Instant
  /-- The time in milliseconds from the start of 1970. -/
  millis : m Int64
  /-- A fresh random secret. -/
  freshSecret : m (Except Keyring.Fault Keyring.Secret)
  /-- A fresh random nonce. -/
  freshNonce : m String

namespace Store

/-- Why a store did not do what it was asked for. -/
inductive Fault where
  /-- A file operation on a path failed. -/
  | file (operation path : String) (fault : FileFault)
  /-- The stored text is no image. -/
  | unreadable (problem : Json.Problem)
  | conflict (conflict : Conflict)
  /-- The lock file could not be opened. -/
  | lock (path : String) (fault : FileFault)
  | keyring (fault : Keyring.Fault)
  deriving DecidableEq, Repr

def Fault.message : Fault → String
  | .file operation path fault => s!"store io: {operation} {path}: " ++ fault.message
  | .unreadable problem => "store json: " ++ problem.message
  | .conflict .noWallet => "no wallet"
  | .conflict (.version expected actual) =>
    s!"version conflict: expected {expected}, found {actual}"
  | .lock path fault => s!"store lock: open {path}: " ++ fault.message
  | .keyring fault => fault.message

end Store

/-- A store in a directory. -/
structure Store where
  directory : String
  deriving DecidableEq, Repr

namespace Store
variable {m : Type → Type} [Monad m]

def path (s : Store) : String := joinPath s.directory "wallet.json"

def lockPath (s : Store) : String := joinPath s.directory "wallet.lock"

/-- The path under which a new image is written before it replaces the old one. -/
def draftPath (s : Store) : String := s.path ++ ".tmp"

/-- An outcome of a file operation with the path it was about. -/
def check {α : Type} (operation path : String) (outcome : Except FileFault α) : Except Fault α :=
  outcome.mapError (.file operation path)

/-- Opens the store in a directory, which is made if it is not there. -/
def openAt (host : Host m) (directory : String) : ExceptT Fault m Store := do
  check "mkdir" directory (← host.makeDirectory directory)
  return ⟨directory⟩

def Image.parse (text : String) : Except Fault Image :=
  (Image.decoder.decode (Symbol.ofText text)).mapError .unreadable

def Image.text (i : Image) : String := i.toJson.pretty

/-- The image as it is stored; a store that was never written is empty. -/
def read (host : Host m) (s : Store) : ExceptT Fault m Image := do
  if ← host.isPresent s.path then
    Image.parse (← check "read" s.path (← host.readText s.path))
  else return .empty

def write (host : Host m) (s : Store) (i : Image) : ExceptT Fault m Unit := do
  check "write" s.draftPath (← host.writeText s.draftPath i.text)
  check "rename" s.path (← host.rename s.draftPath s.path)

/-- Changes the image under the lock. `change` answers with a new image only if there is one to
write. -/
def transact {α : Type} (host : Host m) (s : Store)
    (change : Image → ExceptT Fault m (α × Option Image)) : ExceptT Fault m α := do
  let action : ExceptT Fault m α := do
    let (answer, changed) ← change (← s.read host)
    if let some image := changed then s.write host image
    return answer
  match ← host.withLock s.lockPath action.run with
  | .ok answer => answer
  | .error fault => throw (.lock s.lockPath fault)

def load (host : Host m) (s : Store) : ExceptT Fault m (Option Wallet) := do
  return (← s.read host).wallet

def snapshot (host : Host m) (s : Store) : ExceptT Fault m (Option (UInt64 × Wallet)) := do
  let image ← s.read host
  return image.wallet.map (image.version, ·)

def version (host : Host m) (s : Store) : ExceptT Fault m UInt64 := do
  return (← s.read host).version

def health (host : Host m) (s : Store) : ExceptT Fault m (Option Liveness.Overview) := do
  return (← s.read host).health

/-- The wallet, which is made if there is none. -/
def create (host : Host m) (s : Store) : ExceptT Fault m Wallet :=
  s.transact host fun image => do
    match image.wallet with
    | some wallet => return (wallet, none)
    | none =>
      match ← host.freshSecret with
      | .ok secret =>
        let wallet := Wallet.ofSecret secret (← host.now)
        return (wallet, some (image.withWallet wallet))
      | .error fault => throw (.keyring fault)

/-- Changes the balance and answers with the version that holds afterwards. With `expected`, the
change is refused if the wallet was changed since that version. -/
def setBalance (host : Host m) (s : Store) (expected : Option UInt64) (balance : Binary64) :
    ExceptT Fault m UInt64 :=
  s.transact host fun image => (image.setBalance expected balance).mapError Fault.conflict

def recordHealth (host : Host m) (s : Store) (overview : Liveness.Overview) :
    ExceptT Fault m Unit :=
  s.transact host fun image => return ((), some (image.withHealth overview))

end Store
end WalletEngine
