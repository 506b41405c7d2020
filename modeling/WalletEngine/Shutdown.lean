/-! # Shutdown

A shutdown is announced once, to all who listen at that moment. Whoever starts to listen later hears
nothing; waiting therefore means to start listening first and then to look at the flag. The two
halves of an announcement, raising the flag and sending the signal, are steps of their own here, so
that what can happen between them can be said.
-/

namespace WalletEngine

/-- The flag, and for each listener whether a signal is waiting for it. -/
structure Shutdown where
  triggered : Bool := false
  listeners : List Bool := []
  deriving DecidableEq, Repr

namespace Shutdown

/-- A new listener; the answer has its number. -/
def subscribe (s : Shutdown) : Shutdown × Nat :=
  ({ s with listeners := s.listeners ++ [false] }, s.listeners.length)

def raise (s : Shutdown) : Shutdown := { s with triggered := true }

/-- Sends the signal to all listeners. -/
def announce (s : Shutdown) : Shutdown := { s with listeners := s.listeners.map fun _ => true }

/-- Announces the shutdown, unless that was done before. -/
def trigger (s : Shutdown) : Shutdown :=
  if s.triggered then s else s.raise.announce

theorem trigger_trigger (s : Shutdown) : s.trigger.trigger = s.trigger := by
  cases h : s.triggered <;> simp [trigger, h, raise, announce]

theorem triggered_trigger (s : Shutdown) : s.trigger.triggered := by
  cases h : s.triggered <;> simp [trigger, h, raise, announce]

theorem length_trigger (s : Shutdown) : s.trigger.listeners.length = s.listeners.length := by
  cases h : s.triggered <;> simp [trigger, h, raise, announce]

/-- Takes the signal that waits for a listener; false if there is none. -/
def receive (s : Shutdown) (listener : Nat) : Shutdown × Bool :=
  ({ s with listeners := s.listeners.set listener false }, s.listeners.getD listener false)

/-- How far a wait has come. -/
inductive Wait where
  | started
  /-- Listening, with the flag not looked at yet. -/
  | listening (listener : Nat)
  /-- The flag was down, so only a signal ends the wait. -/
  | blocked (listener : Nat)
  | over
  deriving DecidableEq, Repr

def Wait.step (s : Shutdown) : Wait → Shutdown × Wait
  | .started => let (s, n) := s.subscribe; (s, .listening n)
  | .listening n => (s, if s.triggered then .over else .blocked n)
  | .blocked n =>
    match s.receive n with
    | (s, true) => (s, .over)
    | (s, false) => (s, .blocked n)
  | .over => (s, .over)

/-- The steps of a wait up to where only a signal could end it. -/
def Wait.run (s : Shutdown) (w : Wait) : Shutdown × Wait :=
  let (s, w) := w.step s
  let (s, w) := w.step s
  w.step s

end Shutdown
end WalletEngine
