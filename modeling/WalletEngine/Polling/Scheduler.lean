import WalletEngine.Ledger.Basic
import WalletEngine.Polling.Flight
import WalletEngine.Polling.Panel
import WalletEngine.Store.Basic

/-! # The scheduler of a surface

A scheduler refreshes the wallet and the overview of the services, each at its own period, and the
wallet also on request. A wallet round reads the stored wallet, fetches balance and history
together, stores the balance if nobody has written since, and shows what it has found. One round is
on its way at a time: a tick that comes meanwhile is skipped, a request that comes meanwhile has the
round run once more. Stopping ends the timers; what is on its way runs on.

Like the monitor, the scheduler is a machine: effects are carried out by the surroundings, and their
outcomes come back as events.
-/

namespace WalletEngine.Polling

/-- How far a wallet round has come, and what it knows. -/
inductive Stage where
  /-- Waiting for the stored wallet. -/
  | reading
  /-- Waiting for balance and history. -/
  | fetching (version : UInt64) (address : String)
      (balance : Option (Except Ledger.Fault Binary64))
      (history : Option (Except Ledger.Fault (List Transfer.HistoryEntry)))
  /-- Waiting for the balance to be stored. -/
  | writing (address : String) (balance : Binary64)
      (history : Option (List Transfer.HistoryEntry))
  /-- Waiting for the wallet that somebody else has written. -/
  | reloading (address : String) (history : Option (List Transfer.HistoryEntry))

/-- The state of a scheduler. -/
structure Scheduler where
  panel : Panel
  flight : Flight := {}
  /-- The round on its way is to run once more. -/
  rerun : Bool := false
  /-- A request that the loop has not taken yet. -/
  permit : Bool := false
  /-- The loop is running. -/
  looping : Bool := true
  stage : Option Stage := none
  /-- Full rounds of probes that were asked for and not shown yet. -/
  probes : Nat := 0
  /-- How often something was shown. -/
  shown : Nat := 0

namespace Scheduler

/-- What happens to a scheduler. -/
inductive Event where
  | refreshTick
  | healthTick
  /-- Somebody asks for a refresh. -/
  | request
  /-- The loop takes the request that waits. -/
  | takeRequest
  | stop
  /-- The stored version and wallet; none also if they could not be read. -/
  | snapshot (found : Option (UInt64 × Wallet))
  | balance (outcome : Except Ledger.Fault Binary64)
  | history (outcome : Except Ledger.Fault (List Transfer.HistoryEntry))
  /-- The outcome of storing the balance. -/
  | written (outcome : Except Store.Fault UInt64)
  /-- The stored wallet; none also if it could not be read. -/
  | reloaded (wallet : Option Wallet)
  /-- The answer to a full round of probes. -/
  | overview (o : Liveness.Overview)

/-- What a scheduler has done for it. -/
inductive Effect where
  | readSnapshot
  | fetchBalance (address : String)
  | fetchHistory (address : String)
  /-- Store a balance, if the version is still the one that was read. -/
  | writeBalance (expected : UInt64) (balance : Binary64)
  | reload
  | probeAll
  deriving DecidableEq, Repr

/-- Begins a wallet round, unless one is on its way. A request is remembered then, a tick is not. -/
def refresh (s : Scheduler) (requested : Bool) : Scheduler × List Effect :=
  match s.flight.begin? with
  | some flight => ({ s with flight, stage := some .reading }, [.readSnapshot])
  | none => ({ s with rerun := s.rerun || requested }, [])

/-- Ends a pass of the wallet round: it runs once more if that was asked for. -/
def endPass (s : Scheduler) : Scheduler × List Effect :=
  if s.rerun then ({ s with rerun := false, stage := some .reading }, [.readSnapshot])
  else ({ s with stage := none, flight := s.flight.finish }, [])

/-- Shows what a pass has found and ends it. -/
def publish (s : Scheduler) (f : Findings) (now : Time.Instant) : Scheduler × List Effect :=
  endPass { s with panel := s.panel.showFindings f now, shown := s.shown + 1 }

/-- Goes on once both balance and history have come. -/
def fetched (s : Scheduler) (now : Time.Instant) (version : UInt64) (address : String)
    (balance : Option (Except Ledger.Fault Binary64))
    (history : Option (Except Ledger.Fault (List Transfer.HistoryEntry))) :
    Scheduler × List Effect :=
  match balance, history with
  | some (.ok remote), some entries =>
    ({ s with stage := some (.writing address remote entries.toOption) },
      [.writeBalance version remote])
  | some (.error _), some entries =>
    s.publish { address, balance := none, history := entries.toOption } now
  | balance, history =>
    ({ s with stage := some (.fetching version address balance history) }, [])

def step (s : Scheduler) (now : Time.Instant) : Event → Scheduler × List Effect
  | .refreshTick => if s.looping then s.refresh false else (s, [])
  | .healthTick =>
    if s.looping then ({ s with probes := s.probes + 1 }, [.probeAll]) else (s, [])
  | .request => ({ s with permit := true }, [])
  | .takeRequest =>
    if s.looping && s.permit then ({ s with permit := false }).refresh true else (s, [])
  | .stop => ({ s with looping := false }, [])
  | .snapshot found =>
    match s.stage, found with
    | some .reading, some (version, wallet) =>
      ({ s with stage := some (.fetching version wallet.address none none) },
        [.fetchBalance wallet.address, .fetchHistory wallet.address])
    | some .reading, none => s.endPass
    | _, _ => (s, [])
  | .balance outcome =>
    match s.stage with
    | some (.fetching version address none history) =>
      s.fetched now version address (some outcome) history
    | _ => (s, [])
  | .history outcome =>
    match s.stage with
    | some (.fetching version address balance none) =>
      s.fetched now version address balance (some outcome)
    | _ => (s, [])
  | .written outcome =>
    match s.stage with
    | some (.writing address remote history) =>
      match outcome with
      | .error (.conflict (.version ..)) =>
        ({ s with stage := some (.reloading address history) }, [.reload])
      | _ => s.publish { address, balance := some remote, history } now
    | _ => (s, [])
  | .reloaded wallet =>
    match s.stage with
    | some (.reloading address history) =>
      s.publish { address, balance := wallet.map (·.balance), history } now
    | _ => (s, [])
  | .overview o =>
    ({ s with panel := s.panel.showOverview o, probes := s.probes - 1, shown := s.shown + 1 }, [])

/-- Whether anything may still be shown. -/
def isAlive (s : Scheduler) : Bool := s.looping || s.stage.isSome || s.probes != 0

end Scheduler
end WalletEngine.Polling
