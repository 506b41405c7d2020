import WalletEngine.Proofs.Polling.Passes

/-! # After the stop

Once the loop was stopped no probes are asked for and no wallet round begins. What is on its way
runs on: the rounds of probes that were asked for, and the pass of a wallet round. The round may
even make one more pass, exactly if the loop has taken a request during the current one. What is
asked for and shown after the stop is accounted for by that.
-/

namespace WalletEngine.Polling

open Scheduler

/-! ## What is left to do -/

/-- The outcome of a round of probes. -/
def Scheduler.Event.isOverview : Event → Bool
  | .overview _ => true
  | _ => false

namespace Situation

/-- The rounds of probes that were asked for and whose outcome the scheduler was not told. -/
def probing (s : Situation) : Nat :=
  s.asked.count .probeAll + s.back.countP Event.isOverview

/-- What a scheduler is told during some incidents. -/
def heard (handle : Handle) (s : Situation) : List Incident → List Event
  | [] => []
  | i :: rest => ((s.hears? i).map Prod.snd).toList ++ (s.meet handle i).heard handle rest

end Situation

/-! ## Steps after the stop -/

section Steps
variable {s : Scheduler} {a : Account} {heard : Option (Time.Instant × Event)}
  {r : Scheduler × List Effect}

end Steps

/-! ## Runs after the stop -/

section Runs
variable (handle : Handle) (s : Situation)

end Runs

section Stopped
variable {handle : Handle} {start s : Situation} {before after : List Incident} {a : Account}
  {i : Incident}

end Stopped

/-! ## Requests that were taken -/

section Taken
variable {handle : Handle} {start s : Situation} {before since : List Incident} {a : Account}
  {i : Incident}

end Taken

/-! ## What belongs to what was begun before -/

section Belongs
variable {handle : Handle} {start s : Situation} {before since incidents : List Incident}
  {a : Account}

theorem Pass.begun (h : Pass handle start before since a) :
    ∃ earlier first, before = earlier ++ [first] ∧ (start.undergo handle earlier).Begins first := by
  induction h with
  | begins hbefore hbegins => exact ⟨_, _, hbefore, hbegins⟩
  | goesOn _ _ ih => exact ih

end Belongs

section Sample

end Sample

end WalletEngine.Polling
