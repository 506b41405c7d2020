import WalletEngine.Crew.Basic

/-! # The surroundings of a crew

A crew only says what it wants done. Here its effects are carried out with a store, a ledger and a
clock: store operations at once, calls of the ledger and timers by having an event happen later. How
events are kept until they happen is up to the surroundings.
-/

namespace WalletEngine.Crew
variable {m : Type → Type} [Monad m]

/-- A call whose outcome comes as an event; whoever makes the call says which event. -/
abbrev Posted (m : Type → Type) (α : Type) : Type := (α → Event) → m Unit

/-- What the crew of a process works with. -/
structure Surroundings (m : Type → Type) where
  host : Host m
  /-- The ledger; nobody waits for an outcome. -/
  ledger : Ledger (Posted m)
  /-- Has an event happen after some milliseconds, or next if there are none. -/
  after : Nat → Event → m Unit

namespace Surroundings

/-- Has an event happen next. -/
def post (s : Surroundings m) (event : Event) : m Unit := s.after 0 event

def performPoll (s : Surroundings m) (index : Nat) (store : Store) :
    Polling.Scheduler.Effect → m Unit
  | .readSnapshot => do
    let found ← (store.snapshot s.host).run
    s.post (.poller index (.snapshot (found.toOption.join)))
  | .fetchBalance address =>
    s.ledger.balance address fun outcome => .poller index (.balance outcome)
  | .fetchHistory address =>
    s.ledger.history address fun outcome => .poller index (.history outcome)
  | .writeBalance expected balance => do
    s.post (.poller index (.written (← (store.setBalance s.host (some expected) balance).run)))
  | .reload => do
    s.post (.poller index (.reloaded ((← (store.load s.host).run).toOption.join)))
  | .probeAll => pure ()

def perform (s : Surroundings m) : Effect → m Unit
  | .probe index service => s.ledger.health service fun outcome => .probed index service outcome
  | .cache index store overview => do
    discard (store.recordHealth s.host overview).run
    s.post (.lookout index .stored)
  | .poll index store effect => s.performPoll index store effect
  | .begin index call store approver => do
    let coordinator : Relay.Coordinator m := { host := s.host, store, approver }
    s.post (.begun index call.id (← coordinator.begin call.request))
  | .probeFor index call service =>
    s.ledger.health service fun outcome => .probedFor index call service outcome
  | .after delay event => s.after delay event

def deliver (s : Surroundings m) (crew : Crew) (event : Event) : m Crew := do
  let (crew, effects) := crew.step (← s.host.now) event
  effects.forM s.perform
  return crew

end Surroundings

/-- A lookout of a store, which knows what the store has cached, or one that caches nowhere. -/
def Lookout.openOn (host : Host m) (cache : Option Store) : m Lookout := do
  let cached ← match cache with
    | none => pure none
    | some store => pure (← (store.health host).run).toOption.join
  return { monitor := .start cache.isSome cached (← host.now), cache }

/-- What a poller of a store shows at the start. -/
def Poller.firstPanel (host : Host m) (store : Store) : m Polling.Panel := do
  let wallet := (← (store.load host).run).toOption.join
  let overview := (← (store.health host).run).toOption.join
  return .start wallet overview

end WalletEngine.Crew
