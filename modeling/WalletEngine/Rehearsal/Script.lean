import WalletEngine.Rehearsal.Clock

/-! # Scripted ledgers

A script has a list of answers for each kind of call. Every call takes the next one, and the last
one is repeated for ever; a kind without answers is out of reach. An answer may take its time.
-/

namespace WalletEngine.Rehearsal
open Liveness (Service Probe)

/-- An outcome of a call, and how many milliseconds it takes to come. -/
structure Timed (α : Type) where
  delay : Nat
  outcome : Except Ledger.Fault α

/-- The answers that a ledger gives. -/
structure Answers where
  node : List (Timed Probe) := []
  simulator : List (Timed Probe) := []
  balance : List (Timed Binary64) := []
  history : List (Timed (List Transfer.HistoryEntry)) := []
  submit : List (Timed Ledger.Receipt) := []
  faucet : List (Timed Ledger.FaucetReceipt) := []

/-- A call of a ledger. -/
inductive Call where
  | health (service : Service)
  | balance (address : String)
  | history (address : String)
  | submit (transfer : SignedTransfer)
  | faucet (address : String) (amount : Binary64)

/-- A ledger that goes by a script, and the calls of it so far. -/
structure Script where
  answers : Answers := {}
  calls : List Call := []

/-- The next of a list whose last one is repeated for ever, and what is left. -/
def next {α : Type} : List α → Option α × List α
  | [] => (none, [])
  | [a] => (some a, [a])
  | a :: rest => (some a, rest)

/-- What a call without an answer comes to. -/
def offline {α : Type} : Timed α := ⟨0, .error (.transport "offline")⟩

/-- A place in a script where the answers to a kind of call are. -/
structure Route (α : Type) where
  get : Answers → List (Timed α)
  set : Answers → List (Timed α) → Answers

namespace Route

def health : Service → Route Probe
  | .node => ⟨Answers.node, fun s answers => { s with node := answers }⟩
  | .simulator => ⟨Answers.simulator, fun s answers => { s with simulator := answers }⟩

def balance : Route Binary64 := ⟨Answers.balance, fun s answers => { s with balance := answers }⟩

/-- The answers about histories. -/
def history : Route (List Transfer.HistoryEntry) :=
  ⟨Answers.history, fun s answers => { s with history := answers }⟩

def submit : Route Ledger.Receipt := ⟨Answers.submit, fun s answers => { s with submit := answers }⟩

/-- The answers to requests for funds. -/
def faucet : Route Ledger.FaucetReceipt :=
  ⟨Answers.faucet, fun s answers => { s with faucet := answers }⟩

/-- Makes a call: the next answer of the route is its own. -/
def take {α : Type} (route : Route α) (call : Call) : Play Script (Timed α) :=
  modifyGet fun w =>
    let script := w.outside
    let (answer, rest) := next (route.get script.answers)
    let outside : Script := ⟨route.set script.answers rest, script.calls ++ [call]⟩
    (answer.getD offline, { w with outside })

/-- Makes a call whose outcome comes as an event. -/
def post {α : Type} (route : Route α) (call : Call) :
    Crew.Posted (Play Script) (Except Ledger.Fault α) := fun event => do
  let answer ← route.take call
  after answer.delay (event answer.outcome)

end Route

/-- The crew with a ledger that goes by the script. -/
def scripted : Cast Script where
  host := host
  after := after
  ledger := {
    health := fun service => (Route.health service).post (.health service)
    balance := fun address => Route.balance.post (.balance address)
    history := fun address => Route.history.post (.history address)
    submit := fun transfer => Route.submit.post (.submit transfer)
    faucet := fun address amount => Route.faucet.post (.faucet address amount) }

/-- Makes a call and waits for its outcome. -/
def Route.ask {α : Type} (route : Route α) (call : Call) : Play Script (Except Ledger.Fault α) := do
  let answer ← route.take call
  scripted.sleep answer.delay
  return answer.outcome

/-- The ledger for those who wait for its outcomes. -/
def ledger : Ledger (Play Script) where
  health service := (Route.health service).ask (.health service)
  balance address := Route.balance.ask (.balance address)
  history address := Route.history.ask (.history address)
  submit transfer := Route.submit.ask (.submit transfer)
  faucet address amount := Route.faucet.ask (.faucet address amount)

end WalletEngine.Rehearsal
