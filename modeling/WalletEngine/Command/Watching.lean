import WalletEngine.Command.Basic
import WalletEngine.Crew.Surroundings

/-! # Watching

A process that watches has a crew of one lookout, which caches, and one poller. It writes a line
whenever the poller shows something new.
-/

namespace WalletEngine.Command.Watching
variable {m : Type → Type} [Monad m]

def line (p : Polling.Panel) : Json :=
  .object [("address", .ofOption .string p.address), ("balance", .ofOption .float p.balance),
    ("transactions", .integer p.history.length), ("node", .bool p.nodeConnected),
    ("simulator", .bool p.simulatorConnected),
    ("lastRefresh", .ofOption Time.Instant.toJson p.lastRefresh)]

/-- A period of the settings in milliseconds. -/
def milliseconds (nanos : Nat) : Nat := nanos / Time.perMilli

/-- The crew of the process, and the events that its timers begin with. -/
def crew (host : Host m) (store : Store) (settings : Settings) (listener : Nat) :
    m (Crew × List Crew.Event) := do
  let (crew, lookout) := ({} : Crew).addLookout (← Crew.Lookout.openOn host (some store))
  let panel ← Crew.Poller.firstPanel host store
  let (crew, _, events) := crew.addPoller
    { scheduler := { panel }, store, lookout, listener
      refreshEvery := milliseconds settings.refreshEvery
      healthEvery := milliseconds settings.healthEvery }
  return (crew, events)

def scheduler? (crew : Crew) : Option Polling.Scheduler := crew.pollers.head?.map (·.scheduler)

/-- What the crew shows, if that is news to whoever has seen `seen` showings. -/
def news? (crew : Crew) (seen : Nat) : Option (Nat × Polling.Panel) := do
  let scheduler ← scheduler? crew
  if scheduler.shown = seen then none else some (scheduler.shown, scheduler.panel)

end WalletEngine.Command.Watching
