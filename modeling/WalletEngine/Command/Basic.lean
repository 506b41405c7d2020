import WalletEngine.Command.Invocation
import WalletEngine.Command.Usage
import WalletEngine.Ledger.Client
import WalletEngine.Surface.SendDesk

/-! # Commands

A command that does its work and ends: it opens the store, talks to the ledger if it has to, and
says what came of it as one value. The two commands that run until they are stopped are only named
here.
-/

namespace WalletEngine.Command
open Liveness (Report Overview)
variable {m : Type → Type} [Monad m]

/-- Why a command failed. -/
inductive Trouble where
  | unknownCommand (name : String)
  /-- Recipient or amount are missing. -/
  | incompleteSend
  | noWallet
  | notOpened (directory : String) (fault : Store.Fault)
  /-- The amount of a request for funds is no number. -/
  | notNumber (typed : String)
  | store (fault : Store.Fault)
  | ledger (fault : Ledger.Fault)
  | wallet (fault : WalletEngine.Fault)
  /-- The address of the web surface cannot be had. -/
  | notBound (address reason : String)
  deriving DecidableEq, Repr

/-- The wording of a trouble: what was tried, and why it failed. -/
def Trouble.message : Trouble → String
  | .unknownCommand name => "Unknown command: " ++ name
  | .incompleteSend => "Usage: driftwallet send <to> <amount>"
  | .noWallet => "No wallet. Run `driftwallet init` first."
  | .notOpened directory fault =>
    s!"Failed to open wallet store at {directory}: " ++ fault.message
  | .notNumber typed =>
    s!"Invalid amount: {typed}: " ++
      (if typed.isEmpty then "cannot parse float from empty string" else "invalid float literal")
  | .store fault => fault.message
  | .ledger fault => fault.message
  | .wallet fault => fault.message
  | .notBound address reason => s!"Failed to bind {address}: " ++ reason

/-- What a command works with. -/
structure Bench (m : Type → Type) where
  host : Host m
  store : Store
  ledger : Ledger m

/-- The part of a command that may fail. -/
abbrev Work (m : Type → Type) := ExceptT Trouble m

def openStore (host : Host m) (settings : Settings) : Work m Store := do
  match ← (Store.openAt host settings.dataDirectory).run with
  | .ok store => return store
  | .error fault => throw (.notOpened settings.dataDirectory fault)

def openLedger (names : Http.Names) (exchange : Http.Exchange m) (settings : Settings) : Ledger m :=
  Ledger.overHttp names exchange (.of settings.nodeUrl settings.simulatorUrl)

namespace Bench

/-- The send desk of a command, which has nothing to refresh. -/
def sendDesk (b : Bench m) : Surface.SendDesk m :=
  { host := b.host, store := b.store, ledger := b.ledger, refresh := pure () }

/-- The address of the wallet, which must be there. -/
def address (b : Bench m) : Work m String := do
  match ← (b.store.load b.host).adapt Trouble.store with
  | some wallet => return wallet.address
  | none => throw .noWallet

/-- Makes the wallet if there is none, and says where it is kept. -/
def initialise (b : Bench m) : Work m Json := do
  let wallet ← (b.store.create b.host).adapt Trouble.store
  return .object [("wallet", wallet.view.toJson), ("path", .string b.store.path)]

/-- The view of the wallet and what is known of the services. -/
def status (b : Bench m) : Work m Json := do
  let wallet ← (b.store.load b.host).adapt Trouble.store
  let health ← (b.store.health b.host).adapt Trouble.store
  return .object [("hasWallet", .bool wallet.isSome),
    ("wallet", .ofOption (·.view.toJson) wallet),
    ("health", .ofOption Overview.toJson health)]

/-- Fetches the balance and stores it. -/
def balance (b : Bench m) : Work m Json := do
  let address ← b.address
  match ← b.ledger.balance address with
  | .error fault => throw (.ledger fault)
  | .ok balance =>
    discard ((b.store.setBalance b.host none balance).adapt Trouble.store)
    return .object [("address", .string address), ("balance", .float balance)]

def history (b : Bench m) : Work m Json := do
  let address ← b.address
  match ← b.ledger.history address with
  | .error fault => throw (.ledger fault)
  | .ok entries =>
    return .object [("address", .string address), ("count", .integer entries.length),
      ("transactions", .array (entries.map (·.toJson)))]

def probe (b : Bench m) (service : Liveness.Service) : m Report := do
  let outcome ← b.ledger.health service
  return .ofOutcome outcome (← b.host.now)

/-- Probes both services and stores what came of it, if that is possible. -/
def health (b : Bench m) : Work m Json := do
  let overview : Overview := ⟨← b.probe .node, ← b.probe .simulator⟩
  discard (b.store.recordHealth b.host overview).run
  return overview.toJson

def send (b : Bench m) (form : Surface.SendForm) : Work m Json := do
  match (← b.sendDesk.submit form).1 with
  | .ok receipt =>
    return .object [("success", .bool true), ("hash", .ofOption .string receipt.hash)]
  | .error fault => throw (.wallet fault)

def requestFunds (b : Bench m) (amount : Binary64) : Work m Json := do
  match ← (b.sendDesk.requestFunds amount).run with
  | .ok receipt => return receipt.toJson
  | .error fault => throw (.wallet fault)

end Bench

/-- A command that ends on its own. -/
inductive Errand where
  | initialise
  | status
  | balance
  | history
  | health
  | send (form : Surface.SendForm)
  | requestFunds (amount : Binary64)
  deriving DecidableEq, Repr

def Errand.runAt (b : Bench m) : Errand → Work m Json
  | .initialise => b.initialise
  | .status => b.status
  | .balance => b.balance
  | .history => b.history
  | .health => b.health
  | .send form => b.send form
  | .requestFunds amount => b.requestFunds amount

def Errand.run (host : Host m) (names : Http.Names) (exchange : Http.Exchange m)
    (settings : Settings) (errand : Errand) : Work m Json := do
  let store ← openStore host settings
  errand.runAt { host, store, ledger := openLedger names exchange settings }

/-- What a process is to do. -/
inductive Task where
  /-- Say something about the program. -/
  | tell (text : String)
  | errand (errand : Errand)
  /-- Show what changes until the process is stopped. -/
  | watch
  /-- Serve pages until the process is stopped. -/
  | serve

/-- How much is asked for if no amount is given. -/
def usualFunds : Binary64 := (Decimal.Literal.parse? "100").getD .nan

def Invocation.task (i : Invocation) : Except Trouble Task :=
  if i.help then .ok (.tell usageText)
  else if i.version then .ok (.tell versionText)
  else match i.command? with
    | none => .ok (.tell usageText)
    | some "init" => .ok (.errand .initialise)
    | some "status" => .ok (.errand .status)
    | some "balance" => .ok (.errand .balance)
    | some "history" => .ok (.errand .history)
    | some "health" => .ok (.errand .health)
    | some "send" =>
      match i.arguments with
      | recipient :: amount :: _ => .ok (.errand (.send ⟨recipient, amount⟩))
      | _ => .error .incompleteSend
    | some "faucet" =>
      match i.arguments with
      | [] => .ok (.errand (.requestFunds usualFunds))
      | typed :: _ =>
        match Decimal.Literal.parse? typed with
        | some amount => .ok (.errand (.requestFunds amount))
        | none => .error (.notNumber typed)
    | some "watch" => .ok .watch
    | some "serve" => .ok .serve
    | some name => .error (.unknownCommand name)

/-- What a process leaves behind. -/
structure Ending where
  code : UInt32
  stdout : String := ""
  stderr : String := ""
  deriving DecidableEq, Repr

def outputLine (pretty : Bool) (value : Json) : String :=
  (if pretty then value.sorted.pretty else value.sorted.compact) ++ "\n"

/-- The ending of a command with what came of it. -/
def Ending.of (pretty : Bool) : Except Trouble Json → Ending
  | .ok value => { code := 0, stdout := outputLine pretty value }
  | .error trouble =>
    { code := 1, stderr := outputLine pretty (.object [("error", .string trouble.message)]) }

def stopped : Json := .object [("status", .string "stopped")]

/-- The port of the web surface if none is named. -/
def usualPort : UInt16 := 8080

def surfaceAddress (port : UInt16) : String := s!"0.0.0.0:{port}"

end WalletEngine.Command
