import WalletEngine.Liveness.Report
import WalletEngine.Polling.Flight

/-! # Watching the services

A monitor keeps the latest report on each service. Reports come from single probes and from full
rounds, which probe both services at once; only one round is on its way at a time, and whoever asks
for another meanwhile is answered with what is known. A monitor that caches has every full round
stored before it is answered.

The monitor is a machine: an event changes it and has effects, which the surroundings carry out and
report back as events, in any order and after any time.
-/

namespace WalletEngine.Liveness
variable {κ : Type}

/-- A full round on its way: who asked for it, and the reports that have come. -/
structure Round (κ : Type) where
  caller : κ
  node : Option Report := none
  simulator : Option Report := none
  deriving DecidableEq, Repr

def Round.add (r : Round κ) (service : Service) (report : Report) : Round κ :=
  match service with
  | .node => { r with node := some report }
  | .simulator => { r with simulator := some report }

/-- The overview of a round, once both reports have come. -/
def Round.overview? (r : Round κ) : Option Overview :=
  match r.node, r.simulator with
  | some node, some simulator => some ⟨node, simulator⟩
  | _, _ => none

/-- What a monitor knows and does for callers from `κ`. -/
structure Monitor (κ : Type) where
  latest : Overview
  flight : Polling.Flight := {}
  round : Option (Round κ) := none
  /-- Whether full rounds are stored. -/
  caching : Bool
  deriving DecidableEq, Repr

namespace Monitor

/-- What happens to a monitor. -/
inductive Event (κ : Type) where
  /-- A single probe has come back. -/
  | single (service : Service) (report : Report)
  /-- Somebody asks for a full round. -/
  | ask (caller : κ)
  /-- A probe of the round has come back. -/
  | reply (service : Service) (report : Report)
  /-- The overview of the round has been stored, or could not be. -/
  | stored
  /-- The caller of the round has gone away, and with it the round. -/
  | abandon
  deriving DecidableEq, Repr

/-- What a monitor has done for it. -/
inductive Effect (κ : Type) where
  /-- Probe a service for the round. -/
  | probe (service : Service)
  | store (overview : Overview)
  | answer (caller : κ) (overview : Overview)
  deriving DecidableEq, Repr

/-- Keeps a report as the latest one on its service. -/
def keep (m : Monitor κ) (service : Service) (report : Report) : Monitor κ :=
  { m with latest := m.latest.set service report }

def endRound (m : Monitor κ) : Monitor κ :=
  { m with round := none, flight := m.flight.finish }

/-- A monitor that knows nothing but what was cached, if it caches. -/
def start (caching : Bool) (cached : Option Overview) (now : Time.Instant) : Monitor κ :=
  { latest := (if caching then cached else none).getD (.unknown now), caching }

def step (m : Monitor κ) : Event κ → Monitor κ × List (Effect κ)
  | .single service report => (m.keep service report, [])
  | .ask caller =>
    match m.flight.begin? with
    | none => (m, [.answer caller m.latest])
    | some flight =>
      ({ m with flight, round := some { caller } }, [.probe .node, .probe .simulator])
  | .reply service report =>
    match m.round with
    | none => (m, [])
    | some round =>
      let round := round.add service report
      let kept := { m.keep service report with round := some round }
      match round.overview? with
      | none => (kept, [])
      | some overview =>
        if m.caching then (kept, [.store overview])
        else (kept.endRound, [.answer round.caller overview])
  | .stored =>
    match m.round with
    | none => (m, [])
    | some round =>
      match round.overview? with
      | none => (m, [])
      | some overview => (m.endRound, [.answer round.caller overview])
  | .abandon => if m.round.isSome then (m.endRound, []) else (m, [])

end Monitor
end WalletEngine.Liveness
