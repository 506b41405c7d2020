import WalletEngine.Liveness.Monitor

/-! # Steps of a monitor

A round begins with somebody who asks while none is on its way, takes in the reports that come, and
ends with an answer or is abandoned. Who asks meanwhile is answered with what is known.
-/

namespace WalletEngine.Liveness

/-! ## Rounds -/

/-- The report of a round on a service, if it has come. -/
def Round.report? {κ : Type} (r : Round κ) : Service → Option Report
  | .node => r.node
  | .simulator => r.simulator

theorem Round.report?_add {κ : Type} (r : Round κ) (service other : Service) (report : Report) :
    (r.add service report).report? other =
      if other = service then some report else r.report? other := by
  cases service <;> cases other <;> rfl

theorem Round.caller_add {κ : Type} (r : Round κ) (service : Service) (report : Report) :
    (r.add service report).caller = r.caller := by
  cases service <;> rfl

theorem Round.report?_of_overview? {κ : Type} {r : Round κ} {o : Overview}
    (h : r.overview? = some o) (service : Service) : r.report? service = some (o.get service) := by
  rw [Round.overview?] at h
  split at h
  next node simulator hnode hsimulator =>
    cases h
    cases service with
    | node => exact hnode
    | simulator => exact hsimulator
  next => cases h

/-! ## Answers -/

namespace Monitor
variable {κ : Type} {m : Monitor κ}

/-- How a monitor comes to answer. -/
inductive Answers (m : Monitor κ) (caller : κ) : Event κ → Overview → Prop
  /-- A round is on its way, and the caller gets what is known. -/
  | known (hbusy : m.flight.busy = true) : Answers m caller (.ask caller) m.latest
  /-- The last report of the round has come. -/
  | replied {round : Round κ} {service : Service} {report : Report} {o : Overview}
      (hround : m.round = some round) (hcaller : round.caller = caller)
      (ho : (round.add service report).overview? = some o) :
      Answers m caller (.reply service report) o
  /-- The round was stored. -/
  | stored {round : Round κ} {o : Overview} (hround : m.round = some round)
      (hcaller : round.caller = caller) (ho : round.overview? = some o) :
      Answers m caller .stored o

/-- How a monitor comes to have a round on its way. -/
inductive Runs (m : Monitor κ) (round : Round κ) : Event κ → Prop
  | begun (hfree : m.flight.busy = false) (hround : round = { caller := round.caller }) :
      Runs m round (.ask round.caller)
  | replied {old : Round κ} {service : Service} {report : Report} (hold : m.round = some old)
      (hround : round = old.add service report) : Runs m round (.reply service report)
  | kept {event : Event κ} (hround : m.round = some round) : Runs m round event

theorem answers_of_mem_step {event : Event κ} {caller : κ} {o : Overview}
    (h : .answer caller o ∈ (m.step event).2) : m.Answers caller event o := by
  cases event with
  | single service report => cases h
  | ask asker =>
      rw [step] at h
      split at h
      next hbusy =>
        cases List.mem_singleton.mp h
        exact .known (Polling.Flight.begin?_eq_none.mp hbusy)
      next => simp at h
  | reply service report =>
      rw [step] at h
      split at h
      next => cases h
      next round hround =>
        simp only at h
        split at h
        next => cases h
        next overview hoverview =>
          split at h
          next => cases List.mem_singleton.mp h
          next =>
            cases List.mem_singleton.mp h
            exact .replied hround (by cases service <;> rfl) hoverview
  | stored =>
      rw [step] at h
      split at h
      next => cases h
      next round hround =>
        split at h
        next => cases h
        next overview hoverview =>
          cases List.mem_singleton.mp h
          exact .stored hround rfl hoverview
  | abandon =>
      rw [step] at h
      split at h <;> cases h

theorem runs_of_step {event : Event κ} {round : Round κ}
    (h : (m.step event).1.round = some round) : m.Runs round event := by
  cases event with
  | single service report => exact .kept h
  | ask asker =>
      rw [step] at h
      split at h
      next => exact .kept h
      next flight hfree =>
        cases h
        refine .begun ?_ rfl
        cases hbusy : m.flight.busy with
        | false => rfl
        | true => rw [Polling.Flight.begin?_eq_none.mpr hbusy] at hfree; cases hfree
  | reply service report =>
      rw [step] at h
      split at h
      next => exact .kept h
      next old hold =>
        simp only at h
        split at h
        next =>
          cases h
          exact .replied hold rfl
        next =>
          split at h
          next =>
            cases h
            exact .replied hold rfl
          next => cases h
  | stored =>
      rw [step] at h
      split at h
      next => exact .kept h
      next =>
        split at h
        next => exact .kept h
        next => cases h
  | abandon =>
      rw [step] at h
      split at h
      next => cases h
      next => exact .kept h

/-- A monitor with a round on its way is busy. -/
def IsHonest (m : Monitor κ) : Prop := m.round.isSome = true → m.flight.busy = true

theorem IsHonest.step (h : m.IsHonest) (event : Event κ) : (m.step event).1.IsHonest := by
  cases event with
  | single service report => exact h
  | ask caller =>
      rw [Monitor.step]
      split
      next => exact h
      next flight hfree =>
        intro _
        rw [Polling.Flight.begin?] at hfree
        split at hfree
        next => cases hfree
        next => cases hfree; rfl
  | reply service report =>
      rw [Monitor.step]
      split
      next => exact h
      next round hround =>
        have hbusy : m.flight.busy = true := h (by rw [hround]; rfl)
        simp only
        split
        next => exact fun _ => hbusy
        next =>
          split
          next => exact fun _ => hbusy
          next => exact fun h => by cases h
  | stored =>
      rw [Monitor.step]
      split
      next => exact h
      next =>
        split
        next => exact h
        next => exact fun h => by cases h
  | abandon =>
      rw [Monitor.step]
      split
      next => exact fun h => by cases h
      next => exact h

end Monitor
end WalletEngine.Liveness
