import WalletEngine.Command.Watching

/-! # Serving

A process that serves starts in a fixed order: it listens for signals, opens the counter, binds the
address of the web surface, and serves there. The counter and the surface each listen for the
shutdown, and each begins to listen when it is reached; a signal may come at any time. The process
ends when the surface has ended and then the counter.
-/

namespace WalletEngine.Command

/-- How far a serving process has come. -/
inductive Serving.Phase where
  /-- Signals are heard. -/
  | installed
  /-- The counter is open. -/
  | opened
  /-- The address is bound. -/
  | bound
  /-- The surface serves until its listener is signalled. -/
  | serving (listener : Nat)
  /-- The surface has ended. -/
  | draining
  | ended
  /-- The address could not be bound. -/
  | failed
  deriving DecidableEq, Repr

/-- A serving process. -/
structure Serving where
  shutdown : Shutdown := {}
  phase : Serving.Phase := .installed
  /-- Where the counter listens, once it is open. -/
  counter : Option Nat := none
  /-- The counter is open and has not heard of the shutdown. -/
  counterOpen : Bool := false
  deriving DecidableEq, Repr

namespace Serving
variable {m : Type → Type} [Monad m]

/-- What happens to a serving process. -/
inductive Event where
  /-- The process takes its next step, if it need not wait for anything. -/
  | proceed
  /-- The address is not to be had. -/
  | refuse
  /-- A signal asks the process to stop. -/
  | signal
  /-- The counter looks whether it is signalled. -/
  | counterTurn
  /-- The surface looks whether it is signalled. -/
  | surfaceTurn
  deriving DecidableEq, Repr

def step (s : Serving) : Event → Serving
  | .proceed =>
    match s.phase with
    | .installed =>
      let (shutdown, listener) := s.shutdown.subscribe
      { shutdown, phase := .opened, counter := some listener, counterOpen := true }
    | .opened => { s with phase := .bound }
    | .bound =>
      let (shutdown, listener) := s.shutdown.subscribe
      { s with shutdown, phase := .serving listener }
    | .draining => if s.counterOpen then s else { s with phase := .ended }
    | _ => s
  | .refuse => if s.phase = .opened then { s with phase := .failed } else s
  | .signal => { s with shutdown := s.shutdown.trigger }
  | .counterTurn =>
    match s.counter, s.counterOpen with
    | some listener, true =>
      let (shutdown, signalled) := s.shutdown.receive listener
      { s with shutdown, counterOpen := !signalled }
    | _, _ => s
  | .surfaceTurn =>
    match s.phase with
    | .serving listener =>
      let (shutdown, signalled) := s.shutdown.receive listener
      { s with shutdown, phase := if signalled then .draining else s.phase }
    | _ => s

/-- A serving process after some events. -/
def run (s : Serving) (events : List Event) : Serving := events.foldl step s

/-- What follows a signal, until the process has nothing left to do. -/
def closing : List Event := [.signal, .counterTurn, .surfaceTurn, .proceed]

/-- The crew of the process, and the event that its timer begins with. Every transfer is approved.
-/
def crew (host : Host m) (store : Store) (settings : Settings) (listener : Nat) :
    m (Crew × List Crew.Event) := do
  let (crew, lookout) := ({} : Crew).addLookout (← Crew.Lookout.openOn host (some store))
  let (crew, _, events) := crew.addCounter
    { store, approver := fun _ => true, lookout, listener
      healthEvery := Watching.milliseconds settings.healthEvery }
  return (crew, events)

def addressInUse (port : UInt16) : Trouble :=
  .notBound (surfaceAddress port) "Address already in use (os error 98)"

end Serving
end WalletEngine.Command
