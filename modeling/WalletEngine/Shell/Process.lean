import WalletEngine.Command.Process
import WalletEngine.Command.Serving
import WalletEngine.Shell.Machine
import WalletEngine.Shell.Network
import Std.Async.Signal
import Std.Sync.Channel

/-! # Running processes

One loop takes what happens from an inbox: events of the crew, calls of pages and signals. Whatever
takes time runs beside the loop and puts its outcome into the inbox.
-/

namespace WalletEngine.Shell
open Command (Ending Serving Trouble)
open Std.Async (Async)

/-- What a loop is told of. -/
inductive Notice where
  | event (event : Crew.Event)
  | signal
  /-- A page calls, and is to be given the outcome. -/
  | call (request : Relay.Request) (outcome : IO.Promise (Option Relay.Reply))

/-- Where notices wait for the loop. -/
abbrev Inbox := Std.CloseableChannel Notice

def tell (inbox : Inbox) (notice : Notice) : Async Unit := do
  discard (inbox.send notice)

def nextNotice (inbox : Inbox) : Async (Option Notice) := do
  Async.ofTask (← inbox.recv)

/-- Has both signals that stop a process put into the inbox. -/
def installSignals (inbox : Inbox) : Async Unit := do
  for kind in [Std.Async.Signal.sigterm, Std.Async.Signal.sigint] do
    let waiter ← Std.Async.Signal.Waiter.mk kind false
    let arrival ← waiter.wait
    Std.Async.background (t := Std.Async.AsyncTask) do
      discard (Async.ofAsyncTask arrival)
      tell inbox .signal

def exchangeOf (settings : Settings) : Http.Exchange Async :=
  exchange (settings.requestTimeout / Time.perMilli)

/-- Makes a call beside the loop. -/
def posted {α : Type} (inbox : Inbox) (call : Async α) : Crew.Posted Async α := fun event => do
  Std.Async.background (t := Std.Async.AsyncTask) do
    tell inbox (.event (event (← call)))

/-- The surroundings of a crew whose events come through an inbox. -/
def surroundings (inbox : Inbox) (settings : Settings) : Crew.Surroundings Async :=
  let ledger : Ledger Async := Command.openLedger names (exchangeOf settings) settings
  { host
    after := fun delay event =>
      if delay = 0 then tell inbox (.event event)
      else Std.Async.background (t := Std.Async.AsyncTask) do
        Std.Async.sleep (.ofNat delay)
        tell inbox (.event event)
    ledger := {
      health := fun service => posted inbox (ledger.health service)
      balance := fun address => posted inbox (ledger.balance address)
      history := fun address => posted inbox (ledger.history address)
      submit := fun transfer => posted inbox (ledger.submit transfer)
      faucet := fun address amount => posted inbox (ledger.faucet address amount) } }

def begin (s : Crew.Surroundings Async) (events : List Crew.Event) : Async Unit :=
  events.forM s.post

/-- Takes notices until a signal comes, and writes a line whenever there is news. -/
partial def watchLoop (inbox : Inbox) (s : Crew.Surroundings Async) (pretty : Bool) (seen : Nat)
    (crew : Crew) : Async Unit := do
  match ← nextNotice inbox with
  | none | some .signal => return
  | some (.call _ outcome) =>
    outcome.resolve none
    watchLoop inbox s pretty seen crew
  | some (.event event) =>
    let crew ← s.deliver crew event
    match Command.Watching.news? crew seen with
    | none => watchLoop inbox s pretty seen crew
    | some (seen, panel) =>
      IO.print (Command.outputLine pretty (Command.Watching.line panel))
      (← IO.getStdout).flush
      watchLoop inbox s pretty seen crew

/-- Watches until a signal comes. -/
def watch (pretty : Bool) (settings : Settings) : Async Ending := do
  match ← (Command.openStore host settings).run with
  | .error trouble => return .of pretty (.error trouble)
  | .ok store =>
    let inbox : Inbox ← Std.CloseableChannel.new
    installSignals inbox
    let s := surroundings inbox settings
    let (crew, events) ← Command.Watching.crew host store settings 0
    begin s events
    watchLoop inbox s pretty 0 crew
    return .of pretty (.ok Command.stopped)

/-- A process that serves, with the calls that wait for their outcomes. -/
structure Service where
  serving : Serving
  crew : Crew
  waiting : List (Nat × IO.Promise (Option Relay.Reply)) := []
  calls : Nat := 0

/-- Gives the outcomes that have come to those who wait for them. -/
def Service.settle (service : Service) : Async Service := do
  let outcome? (id : Nat) : Option (Option Relay.Reply) :=
    service.crew.counters.head?.bind (·.desk.outcome? id)
  for (id, promise) in service.waiting do
    if let some outcome := outcome? id then promise.resolve outcome
  return { service with waiting := service.waiting.filter fun (id, _) => (outcome? id).isNone }

/-- Lets an event happen to the crew of a service. -/
def Service.deliver (s : Crew.Surroundings Async) (service : Service) (event : Crew.Event) :
    Async Service := do
  let service := { service with crew := ← s.deliver service.crew event }
  service.settle

/-- Takes notices until the surface has ended and then the counter. -/
partial def serveLoop (inbox : Inbox) (s : Crew.Surroundings Async) (service : Service) :
    Async Unit := do
  match ← nextNotice inbox with
  | none => return
  | some (.event event) => serveLoop inbox s (← service.deliver s event)
  | some (.call request promise) =>
    let id := service.calls
    let service :=
      { service with calls := id + 1, waiting := (id, promise) :: service.waiting }
    serveLoop inbox s (← service.deliver s (.counter 0 (.call ⟨id, request⟩)))
  | some .signal =>
    let serving := service.serving.run Serving.closing
    let service := { service with serving }
    let service ← if serving.counterOpen then pure service
      else service.deliver s (.counter 0 .close)
    if serving.phase = .ended then return
    else serveLoop inbox s service

/-- The way to the counter of a service. -/
def line (inbox : Inbox) : Relay.Line Async where
  request request := do
    let promise : IO.Promise (Option Relay.Reply) ← IO.Promise.new
    tell inbox (.call request promise)
    Async.ofPurePromise (pure promise)

/-- The trouble with an address that could not be bound. -/
def bindTrouble (address : String) (e : IO.Error) : Trouble :=
  match systemError? e with
  | some (code, details) => .notBound address s!"{details} (os error {code})"
  | none => .notBound address (toString e)

/-- Serves until a signal comes. -/
def serve (pretty : Bool) (settings : Settings) (port : UInt16) (address : String) :
    Async Ending := do
  match ← (Command.openStore host settings).run with
  | .error trouble => return .of pretty (.error trouble)
  | .ok store =>
    let inbox : Inbox ← Std.CloseableChannel.new
    installSignals inbox
    let s := surroundings inbox settings
    let opened := ({} : Serving).step .proceed
    let (crew, events) ← Serving.crew host store settings (opened.counter.getD 0)
    begin s events
    match ← (bind port).toBaseIO with
    | .error e => return .of pretty (.error (bindTrouble address e))
    | .ok server =>
      Std.Async.background (t := Std.Async.AsyncTask) do
        acceptAll server fun r => Web.respond Web.serviceName (line inbox) r
      serveLoop inbox s { serving := opened.run [.proceed, .proceed], crew }
      return .of pretty (.ok Command.stopped)

/-- The variables of the process that the program looks at. -/
def environment : IO Environment := do
  let values ← Environment.names.mapM fun name => do
    return (← IO.getEnv name).map fun value => (name, .text value)
  return values.filterMap id

/-- Where the process stands. Its calls are not known. -/
def scene : IO Command.Scene := do
  return { thread := (← processNumber?).getD 0, place := "<unknown>", calls := fun _ => [] }

def run (args : List String) : Async Ending := do
  let start : Command.Start :=
    { environment := ← environment
      home := ← accountHome?
      arguments := args
      terminal := ← (← IO.getStdout).isTty
      scene := ← scene }
  match ← Command.begin host start with
  | .ended ending => return ending
  | .errand pretty settings errand =>
    return .of pretty (← (errand.run host names (exchangeOf settings) settings).run)
  | .watch pretty settings => watch pretty settings
  | .serve pretty settings port => serve pretty settings port (Command.surfaceAddress port)

end WalletEngine.Shell
