import WalletEngine.Rehearsal.Clock

/-! # Visits to the crew

Visitors hire members, send them away and deal with those that are there. They wait for their
answers while everybody else goes on.
-/

namespace WalletEngine.Rehearsal.Cast
open Liveness (Service Report Overview)
variable {σ : Type}

/-- Hires a lookout, which caches in a store if one is given. -/
def hireLookout (cast : Cast σ) (cache : Option Store) : Play σ Nat := do
  let lookout ← Crew.Lookout.openOn cast.host cache
  modifyGet fun w =>
    let (crew, index) := w.crew.addLookout lookout
    (index, { w with crew })

def hirePoller (cast : Cast σ) (store : Store) (lookout refreshEvery healthEvery : Nat) :
    Play σ Nat := do
  let panel ← Crew.Poller.firstPanel cast.host store
  let listener ← listen
  let w ← get
  let (crew, index, events) := w.crew.addPoller
    { scheduler := { panel }, store, lookout, refreshEvery, healthEvery, listener }
  set { w with crew }
  events.forM (after 0)
  return index

def hireCounter (_ : Cast σ) (store : Store) (approver : Relay.Approver)
    (lookout healthEvery : Nat) : Play σ Nat := do
  let listener ← listen
  let w ← get
  let (crew, index, events) := w.crew.addCounter { store, approver, lookout, healthEvery, listener }
  set { w with crew }
  events.forM (after 0)
  return index

def scheduler? (index : Nat) (w : World σ) : Option Polling.Scheduler :=
  w.crew.pollers[index]?.map (·.scheduler)

def latest? (index : Nat) (w : World σ) : Option Overview :=
  w.crew.lookouts[index]?.map (·.monitor.latest)

/-- Hands a call in at a counter. The answer has the number of the call. -/
def call (cast : Cast σ) (index : Nat) (request : Relay.Request) : Play σ Nat := do
  let id ← freshNumber
  cast.happen (.counter index (.call ⟨id, request⟩))
  return id

/-- How a call at a counter has ended, if it has. -/
def outcome? (index id : Nat) (w : World σ) : Option (Option Relay.Reply) :=
  w.crew.counters[index]?.bind (·.desk.outcome? id)

/-- The way to the coordinator behind a counter. -/
def line (cast : Cast σ) (index : Nat) : Relay.Line (Play σ) where
  request request := do
    let id ← cast.call index request
    return (← cast.await (outcome? index id)).join

/-- Probes a service with a ledger; a lookout keeps the report. -/
def probe (cast : Cast σ) (ledger : Ledger (Play σ)) (index : Nat) (service : Service) :
    Play σ Report := do
  let outcome ← ledger.health service
  let report := Report.ofOutcome outcome (← get).now
  cast.happen (.lookout index (.single service report))
  return report

/-- Asks a lookout for a full round. The answer has the number of the visitor. -/
def ask (cast : Cast σ) (index : Nat) : Play σ Nat := do
  let number ← freshNumber
  cast.happen (.lookout index (.ask (.visitor number)))
  return number

def overview? (number : Nat) (w : World σ) : Option Overview := w.crew.overviews.lookup number

/-- The overview of a full round of a lookout. -/
def survey (cast : Cast σ) (index : Nat) : Play σ (Option Overview) := do
  let number ← cast.ask index
  cast.await (overview? number)

/-- The overviews of two rounds that are asked for one right after the other. -/
def surveyTwice (cast : Cast σ) (index : Nat) : Play σ (Option Overview × Option Overview) := do
  let first ← cast.ask index
  cast.settle
  let second ← cast.ask index
  let one ← cast.await (overview? first)
  let two ← cast.await (overview? second)
  return (one, two)

/-- How a wait for something new to be shown has ended. -/
inductive Change where
  | changed
  /-- Nothing will be shown any more. -/
  | closed
  | timeout
  deriving DecidableEq, Repr

/-- Waits for some milliseconds at most until a poller shows something new. -/
def awaitChange (cast : Cast σ) (index limit : Nat) : Play σ Change := do
  let shown := ((scheduler? index (← get)).map (·.shown)).getD 0
  let news (w : World σ) : Option Change := do
    let scheduler ← scheduler? index w
    if scheduler.shown ≠ shown then some .changed
    else if !scheduler.isAlive then some .closed
    else none
  return (← cast.awaitFor limit news).getD .timeout

end WalletEngine.Rehearsal.Cast
