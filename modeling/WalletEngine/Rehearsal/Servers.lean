import WalletEngine.Command.Process
import WalletEngine.Command.Serving
import WalletEngine.Rehearsal.Script
import WalletEngine.Rehearsal.Visits
import WalletEngine.Web.Router

/-! # Whole processes

Here a process is rehearsed from its arguments to its ending. Outside of it there are servers, each
at a base address of its own, with a list of replies for each route. A route is the name of the
server with the method and the target of a request; a request without a route gets no reply, and an
address without a server cannot be reached.
-/

namespace WalletEngine.Rehearsal
open Command (Ending Serving Trouble Watching.news?)

/-- Servers that go by a script, and the requests that they have seen. -/
structure Servers where
  /-- The names of the servers by their base addresses. -/
  bases : List (String × String)
  replies : List (String × List (Option Http.Response)) := []
  requests : List (String × Http.Request) := []

/-- The route of a request, if it goes to one of the servers. -/
def Servers.route? (s : Servers) (r : Http.Request) : Option String := do
  let server ← s.bases.lookup (r.url.scheme ++ "://" ++ r.url.authority)
  return s!"{server} {r.method.name} {r.url.target}"

def Servers.take (s : Servers) (route : String) (r : Http.Request) :
    Option Http.Response × Servers :=
  let (reply, rest) := next ((s.replies.lookup route).getD [])
  (reply.join,
    { s with
      replies := s.replies.map fun (name, replies) => (name, if name = route then rest else replies)
      requests := s.requests ++ [(route, r)] })

/-- No server has an international name. -/
def names : Http.Names := fun _ => none

def exchange : Http.Exchange (Play Servers) := fun r =>
  modifyGet fun w =>
    match w.outside.route? r with
    | none => (none, w)
    | some route =>
      let (reply, outside) := w.outside.take route r
      (reply, { w with outside })

/-- Makes a call whose outcome comes as the next event. -/
def posted {α : Type} (call : Play Servers α) : Crew.Posted (Play Servers) α := fun event => do
  after 0 (event (← call))

/-- The crew of a process with the ledger behind the servers. -/
def online (settings : Settings) : Cast Servers :=
  let ledger : Ledger (Play Servers) := Command.openLedger names exchange settings
  { host := host
    after := after
    ledger := {
      health := fun service => posted (ledger.health service)
      balance := fun address => posted (ledger.balance address)
      history := fun address => posted (ledger.history address)
      submit := fun transfer => posted (ledger.submit transfer)
      faucet := fun address amount => posted (ledger.faucet address amount) } }

/-- What a process goes through from outside. -/
structure Ordeal where
  /-- Whether somebody else has the address of the web surface. -/
  busy : Bool := false
  /-- The requests to the web surface. -/
  requests : List Web.Request := []
  /-- How many requests the servers must have seen before the signal. -/
  awaited : Nat := 0
  /-- What the last line must hold before the signal. -/
  lastLine : List String := []

/-- The ending of a process, and what its web surface has answered. -/
structure Account where
  ending : Ending
  responses : List Web.Response := []

def holds (text part : String) : Bool := (text.splitOn part).length > 1

/-- Whether the signal may come. -/
def Ordeal.isOver (o : Ordeal) (requests : Nat) (lines : List String) : Bool :=
  o.awaited ≤ requests &&
    (o.lastLine.isEmpty || o.lastLine.all (holds (lines.getLast?.getD "")))

/-- How long anybody waits for a process, in milliseconds. -/
def patience : Nat := 20000

/-- The lines that a watching process writes until the signal. At most `fuel` lines are written. -/
def watchLines (cast : Cast Servers) (pretty : Bool) (o : Ordeal) (seen : Nat)
    (lines : List String) : Nat → Play Servers (List String)
  | 0 => return lines
  | fuel + 1 => do
    let isOver (w : World Servers) : Bool := o.isOver w.outside.requests.length lines
    let found (w : World Servers) : Option (Option (Nat × Polling.Panel)) :=
      match Command.Watching.news? w.crew seen with
      | some news => some (some news)
      | none => if isOver w then some none else none
    let time := (← get).elapsed
    match ← cast.awaitFor (patience - time) found with
    | some (some (seen, panel)) =>
      let line := Command.outputLine pretty (Command.Watching.line panel)
      watchLines cast pretty o seen (lines ++ [line]) fuel
    | _ => return lines

/-- Has a crew begin its work. -/
def muster (team : Crew × List Crew.Event) : Play Servers Unit := do
  modify fun w => { w with crew := team.1 }
  team.2.forM (after 0)

/-- A process that watches, until it is told to stop. -/
def watch (pretty : Bool) (settings : Settings) (o : Ordeal) : Play Servers Ending := do
  match ← (Command.openStore host settings).run with
  | .error trouble => return .of pretty (.error trouble)
  | .ok store =>
    let cast := online settings
    muster (← Command.Watching.crew host store settings (← listen))
    let lines ← watchLines cast pretty o 0 [] Cast.plenty
    cast.shutDown
    let ending := Ending.of pretty (.ok Command.stopped)
    return { ending with stdout := String.join lines ++ ending.stdout }

/-- A process that serves, until it is told to stop. -/
def serve (pretty : Bool) (settings : Settings) (port : UInt16) (o : Ordeal) :
    Play Servers Account := do
  match ← (Command.openStore host settings).run with
  | .error trouble => return { ending := .of pretty (.error trouble) }
  | .ok store =>
    let cast := online settings
    let opened := ({} : Serving).step .proceed
    muster (← Serving.crew host store settings (opened.counter.getD 0))
    if o.busy then
      return { ending := .of pretty (.error (Serving.addressInUse port)) }
    else
      let serving := opened.run [.proceed, .proceed]
      let responses ← o.requests.mapM fun r => Web.respond Web.serviceName (cast.line 0) r
      let rest := serving.run Serving.closing
      if !rest.counterOpen then cast.happen (.counter 0 .close)
      return { ending := .of pretty (.ok Command.stopped), responses }

/-- A process from its start to its ending. -/
def process (s : Command.Start) (o : Ordeal) : Play Servers Account := do
  match ← Command.begin host s with
  | .ended ending => return { ending }
  | .errand pretty settings errand =>
    return { ending := .of pretty (← (errand.run host names exchange settings).run) }
  | .watch pretty settings => return { ending := ← watch pretty settings o }
  | .serve pretty settings port => serve pretty settings port o

end WalletEngine.Rehearsal
