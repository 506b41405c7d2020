import WalletEngine.Liveness.Monitor
import WalletEngine.Polling.Scheduler
import WalletEngine.Relay.Coordinator
import WalletEngine.Relay.Desk
import WalletEngine.Shutdown

/-! # The crew of a process

Monitors, pollers and counters run side by side in one process: a poller is a scheduler with its
timers, a counter is the desk of a coordinator with a timer of its own, and both ask monitors for
full rounds of probes. The crew is one machine put together from theirs. Whatever takes time, or
needs the store or the ledger, is an effect; its outcome comes back as an event, and nothing is
assumed about the order in which outcomes come.
-/

namespace WalletEngine.Crew
open Liveness (Service Probe Report Overview Monitor)
open Polling (Scheduler)
open Relay (Desk)

/-- Who asks a monitor for a full round. -/
inductive Asker where
  /-- A timer, which does not wait for the answer. -/
  | timer
  | poller (index : Nat)
  /-- Somebody from outside the crew, with a number of their own. -/
  | visitor (number : Nat)
  deriving DecidableEq, Repr

/-- A monitor and where it stores its rounds. -/
structure Lookout where
  monitor : Monitor Asker
  cache : Option Store

/-- A scheduler with what it works on. Periods are in milliseconds. -/
structure Poller where
  scheduler : Scheduler
  store : Store
  lookout : Nat
  refreshEvery : Nat
  healthEvery : Nat
  /-- Where the poller listens for the shutdown. -/
  listener : Nat

/-- A desk with the coordinator behind it. -/
structure Counter where
  desk : Desk := {}
  store : Store
  approver : Relay.Approver
  lookout : Nat
  healthEvery : Nat
  listener : Nat

/-- What happens to a crew. Members are named by their places in the lists. -/
inductive Event where
  | lookout (index : Nat) (event : Monitor.Event Asker)
  /-- The outcome of a probe that belongs to a full round. -/
  | probed (index : Nat) (service : Service) (outcome : Except Ledger.Fault Probe)
  | poller (index : Nat) (event : Scheduler.Event)
  | counter (index : Nat) (event : Desk.Event)
  /-- The timer of a counter has run off. -/
  | counterTick (index : Nat)
  /-- How far a call has come at once. -/
  | begun (index call : Nat) (progress : Relay.Progress)
  /-- The outcome of a probe that a call has asked for. -/
  | probedFor (index call : Nat) (service : Service) (outcome : Except Ledger.Fault Probe)

/-- What a crew has done for it. -/
inductive Effect where
  /-- Probe a service for the round of a lookout. -/
  | probe (index : Nat) (service : Service)
  /-- Store the overview of the round of a lookout. -/
  | cache (index : Nat) (store : Store) (overview : Overview)
  /-- What the scheduler of a poller has done for it; it never asks for probes here. -/
  | poll (index : Nat) (store : Store) (effect : Scheduler.Effect)
  /-- Begin with the request of a call. -/
  | begin (index : Nat) (call : Relay.Call) (store : Store) (approver : Relay.Approver)
  | probeFor (index call : Nat) (service : Service)
  /-- Have an event happen after some milliseconds, or next if there are none. -/
  | after (delay : Nat) (event : Event)

end Crew

/-- The members of a process, and the overviews that visitors have been answered with. -/
structure Crew where
  lookouts : List Crew.Lookout := []
  pollers : List Crew.Poller := []
  counters : List Crew.Counter := []
  overviews : List (Nat × Liveness.Overview) := []

namespace Crew
open Liveness (Service Report Overview Monitor)
open Polling (Scheduler)
open Relay (Desk)

def answer (crew : Crew) (overview : Overview) : Asker → Crew × List Effect
  | .timer => (crew, [])
  | .poller i => (crew, [.after 0 (.poller i (.overview overview))])
  | .visitor n => ({ crew with overviews := (n, overview) :: crew.overviews }, [])

/-- Has an effect of the monitor of a lookout carried out. -/
def lookoutEffect (crew : Crew) (index : Nat) (cache : Option Store) :
    Monitor.Effect Asker → Crew × List Effect
  | .probe service => (crew, [.probe index service])
  | .store overview => (crew, (cache.map fun store => .cache index store overview).toList)
  | .answer caller overview => crew.answer overview caller

/-- One effect after the other, each with what it has done to the crew. -/
def thread {α : Type} (crew : Crew) (effects : List α) (f : Crew → α → Crew × List Effect) :
    Crew × List Effect :=
  effects.foldl (fun (crew, done) effect =>
    let (crew, more) := f crew effect
    (crew, done ++ more)) (crew, [])

def lookoutStep (crew : Crew) (index : Nat) (event : Monitor.Event Asker) : Crew × List Effect :=
  match crew.lookouts[index]? with
  | none => (crew, [])
  | some lookout =>
    let (monitor, effects) := lookout.monitor.step event
    let crew := { crew with lookouts := crew.lookouts.set index { lookout with monitor } }
    crew.thread effects fun crew effect => crew.lookoutEffect index lookout.cache effect

/-- Has an effect of the scheduler of a poller carried out. -/
def pollerEffect (crew : Crew) (index : Nat) (poller : Poller) :
    Scheduler.Effect → Crew × List Effect
  | .probeAll => (crew, [.after 0 (.lookout poller.lookout (.ask (.poller index)))])
  | effect => (crew, [.poll index poller.store effect])

/-- What an event of a poller has follow on its own: a timer that ran off runs again while the loop
is running, and a request is taken next. -/
def pollerNext (poller : Poller) (index : Nat) (event : Scheduler.Event) : List Effect :=
  match event, poller.scheduler.looping with
  | .refreshTick, true => [.after poller.refreshEvery (.poller index .refreshTick)]
  | .healthTick, true => [.after poller.healthEvery (.poller index .healthTick)]
  | .request, _ => [.after 0 (.poller index .takeRequest)]
  | _, _ => []

def pollerStep (crew : Crew) (now : Time.Instant) (index : Nat) (event : Scheduler.Event) :
    Crew × List Effect :=
  match crew.pollers[index]? with
  | none => (crew, [])
  | some poller =>
    let (scheduler, effects) := poller.scheduler.step now event
    let crew := { crew with pollers := crew.pollers.set index { poller with scheduler } }
    let (crew, effects) := crew.thread effects fun crew effect =>
      crew.pollerEffect index poller effect
    (crew, effects ++ pollerNext poller index event)

/-- The calls that were taken between two states of a desk, to be begun with. -/
def taken (before after : Desk) : List Relay.Call :=
  after.handling.filter fun c => !before.handling.contains c

/-- An event of a counter. Calls are taken as soon as the desk can take them. -/
def counterStep (crew : Crew) (index : Nat) (event : Desk.Event) : Crew × List Effect :=
  match crew.counters[index]? with
  | none => (crew, [])
  | some counter =>
    let desk := match event with
      | .call c => counter.desk.place c
      | event => counter.desk.step event
    let crew := { crew with counters := crew.counters.set index { counter with desk } }
    (crew, (taken counter.desk desk).map fun c => .begin index c counter.store counter.approver)

def step (crew : Crew) (now : Time.Instant) : Event → Crew × List Effect
  | .lookout index event => crew.lookoutStep index event
  | .probed index service outcome =>
    crew.lookoutStep index (.reply service (.ofOutcome outcome now))
  | .poller index event => crew.pollerStep now index event
  | .counter index event => crew.counterStep index event
  | .counterTick index =>
    match crew.counters[index]? with
    | none => (crew, [])
    | some counter =>
      if counter.desk.isOpen then
        (crew, [.after 0 (.lookout counter.lookout (.ask .timer)),
          .after counter.healthEvery (.counterTick index)])
      else (crew, [])
  | .begun index call (.answered reply) => crew.counterStep index (.reply call reply)
  | .begun index call (.probing service) => (crew, [.probeFor index call service])
  | .probedFor index call service outcome =>
    match crew.counters[index]? with
    | none => (crew, [])
    | some counter =>
      let report := Report.ofOutcome outcome now
      let (crew, effects) := crew.lookoutStep counter.lookout (.single service report)
      let (crew, more) := crew.counterStep index (.reply call (.ofReport report))
      (crew, effects ++ more)

def addLookout (crew : Crew) (lookout : Lookout) : Crew × Nat :=
  ({ crew with lookouts := crew.lookouts ++ [lookout] }, crew.lookouts.length)

/-- Adds a poller. The answer has its place and the events that its timers begin with. -/
def addPoller (crew : Crew) (poller : Poller) : Crew × Nat × List Event :=
  let index := crew.pollers.length
  ({ crew with pollers := crew.pollers ++ [poller] }, index,
    [.poller index .refreshTick, .poller index .healthTick])

/-- Adds a counter. The answer has its place and the event that its timer begins with. -/
def addCounter (crew : Crew) (counter : Counter) : Crew × Nat × List Event :=
  let index := crew.counters.length
  ({ crew with counters := crew.counters ++ [counter] }, index, [.counterTick index])

/-- What the members do for whose listener the signal of a shutdown is waiting. -/
def heard (crew : Crew) (shutdown : Shutdown) : List Event :=
  let hears (listener : Nat) : Bool := shutdown.listeners.getD listener false
  (crew.pollers.zipIdx.filter fun (p, _) => hears p.listener).map (fun (_, i) => .poller i .stop) ++
  (crew.counters.zipIdx.filter fun (c, _) => hears c.listener).map (fun (_, i) => .counter i .close)

end Crew
end WalletEngine
