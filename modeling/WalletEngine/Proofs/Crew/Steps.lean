import WalletEngine.Crew.Basic
import WalletEngine.Proofs.Liveness.Monitor

/-! # Steps of a crew

An event reaches at most one monitor and at most one scheduler, and every other member stays as it
was. What a monitor answers to a poller is the only thing that has an overview shown there.
-/

namespace WalletEngine

open Liveness (Monitor Overview Report Service)

/-! ## Steps of the crew -/

namespace Crew

/-- What an event tells a monitor, and which one. -/
def tells (crew : Crew) (now : Time.Instant) : Event → Option (Nat × Monitor.Event Asker)
  | .lookout index event => some (index, event)
  | .probed index service outcome => some (index, .reply service (.ofOutcome outcome now))
  | .probedFor index _ service outcome =>
    (crew.counters[index]?).map fun counter =>
      (counter.lookout, .single service (.ofOutcome outcome now))
  | _ => none

/-- A lookout after an event of its monitor. -/
def Lookout.told (event : Monitor.Event Asker) (k : Lookout) : Lookout :=
  { k with monitor := (k.monitor.step event).1 }

/-- A poller after an event of its scheduler. -/
def Poller.told (now : Time.Instant) (event : Polling.Scheduler.Event) (p : Poller) : Poller :=
  { p with scheduler := (p.scheduler.step now event).1 }

section Thread
variable {α : Type} {f : Crew → α → Crew × List Effect}

/-- What no step changes is not changed by all of them. -/
theorem thread_keeps {β : Type} (part : Crew → β) (hkeeps : ∀ crew a, part (f crew a).1 = part crew)
    (crew : Crew) (effects : List α) : part (crew.thread effects f).1 = part crew := by
  rw [thread]
  generalize ([] : List Effect) = done
  induction effects generalizing crew done with
  | nil => rfl
  | cons a rest ih => exact (ih (f crew a).1 (done ++ (f crew a).2)).trans (hkeeps crew a)

/-- What is done for all steps is done for one of them. -/
theorem mem_thread {crew : Crew} {effects : List α} {effect : Effect} :
    effect ∈ (crew.thread effects f).2 → ∃ before, ∃ a ∈ effects, effect ∈ (f before a).2 := by
  have hfrom (done : List Effect) : effect ∈ (effects.foldl (fun sofar a =>
      ((f sofar.1 a).1, sofar.2 ++ (f sofar.1 a).2)) (crew, done)).2 →
        effect ∈ done ∨ ∃ before, ∃ a ∈ effects, effect ∈ (f before a).2 := by
    induction effects generalizing crew done with
    | nil => exact .inl
    | cons a rest ih =>
        intro h
        rcases ih (done ++ (f crew a).2) h with hdone | ⟨before, b, hb, hmem⟩
        · exact (List.mem_append.mp hdone).imp_right fun hnow =>
            ⟨crew, a, List.mem_cons_self, hnow⟩
        · exact .inr ⟨before, b, List.mem_cons_of_mem _ hb, hmem⟩
  exact fun h => (hfrom [] h).resolve_left List.not_mem_nil

end Thread

section Members
variable (crew : Crew) (now : Time.Instant)

theorem lookoutEffect_keeps (index : Nat) (cache : Option Store) (effect : Monitor.Effect Asker) :
    (crew.lookoutEffect index cache effect).1.lookouts = crew.lookouts ∧
      (crew.lookoutEffect index cache effect).1.pollers = crew.pollers := by
  cases effect with
  | probe service => exact ⟨rfl, rfl⟩
  | store overview => exact ⟨rfl, rfl⟩
  | answer caller overview => cases caller <;> exact ⟨rfl, rfl⟩

/-- A change of the member at one place. -/
def changed {α : Type} (f : α → α) (index : Nat) (j : Nat) (a : α) : α := if index = j then f a else a

theorem getElem?_set_changed {α : Type} {l : List α} {index : Nat} {a : α}
    (h : l[index]? = some a) (f : α → α) (j : Nat) :
    (l.set index (f a))[j]? = (l[j]?).map (changed f index j) := by
  unfold changed
  rw [List.getElem?_set]
  split
  next hindex =>
    subst hindex
    rw [if_pos (List.getElem?_eq_some_iff.mp h).1, h]
    rfl
  next => simp

theorem getElem?_changed_of_none {α : Type} {l : List α} {index : Nat} (h : l[index]? = none)
    (f : α → α) (j : Nat) : l[j]? = (l[j]?).map (changed f index j) := by
  unfold changed
  by_cases hindex : index = j
  · subst hindex
    rw [h]
    rfl
  · simp [hindex]

/-- The members after an event of a lookout. -/
theorem lookoutStep_members (index : Nat) (event : Monitor.Event Asker) :
    (∀ j, (crew.lookoutStep index event).1.lookouts[j]? = (crew.lookouts[j]?).map
        (changed (Lookout.told event) index j)) ∧
      (crew.lookoutStep index event).1.pollers = crew.pollers := by
  rw [lookoutStep]
  split
  next hnone => exact ⟨getElem?_changed_of_none hnone _, rfl⟩
  next k hk =>
    refine ⟨fun j => ?_, ?_⟩
    · rw [thread_keeps lookouts fun crew e => (crew.lookoutEffect_keeps index k.cache e).1]
      exact getElem?_set_changed hk (Lookout.told event) j
    · exact thread_keeps pollers (fun crew e => (crew.lookoutEffect_keeps index k.cache e).2) ..

/-- The members after an event of a poller. -/
theorem pollerStep_members (index : Nat) (event : Polling.Scheduler.Event) :
    (crew.pollerStep now index event).1.lookouts = crew.lookouts ∧
      ∀ j, (crew.pollerStep now index event).1.pollers[j]? = (crew.pollers[j]?).map
        (changed (Poller.told now event) index j) := by
  rw [pollerStep]
  split
  next hnone => exact ⟨rfl, getElem?_changed_of_none hnone _⟩
  next p hp =>
    have heffect (crew : Crew) (e : Polling.Scheduler.Effect) :
        (crew.pollerEffect index p e).1 = crew := by cases e <;> rfl
    refine ⟨?_, fun j => ?_⟩
    · exact thread_keeps lookouts (fun crew e => congrArg lookouts (heffect crew e)) ..
    · exact (congrArg (·[j]?) (thread_keeps pollers
        (fun crew e => congrArg pollers (heffect crew e)) ..)).trans
          (getElem?_set_changed hp (Poller.told now event) j)

theorem counterStep_members (index : Nat) (event : Relay.Desk.Event) :
    (crew.counterStep index event).1.lookouts = crew.lookouts ∧
      (crew.counterStep index event).1.pollers = crew.pollers := by
  rw [counterStep]
  split <;> exact ⟨rfl, rfl⟩

/-- The lookouts after a step: the one that is told something goes on, the others do not. -/
theorem lookouts_step (event : Event) (j : Nat) :
    (crew.step now event).1.lookouts[j]? = (crew.lookouts[j]?).map fun k =>
      (crew.tells now event).elim k fun told => changed (Lookout.told told.2) told.1 j k := by
  have hsame {later : Crew} (h : later.lookouts = crew.lookouts) :
      later.lookouts[j]? = (crew.lookouts[j]?).map fun k => k := by rw [h, Option.map_id']
  cases event with
  | lookout index event => exact (crew.lookoutStep_members index event).1 j
  | probed index service outcome => exact (crew.lookoutStep_members index _).1 j
  | poller index event => exact hsame (crew.pollerStep_members now index event).1
  | counter index event => exact hsame (crew.counterStep_members index event).1
  | counterTick index =>
      rw [step]
      split
      next => exact hsame rfl
      next => split <;> exact hsame rfl
  | begun index call progress =>
      cases progress with
      | answered reply => exact hsame (crew.counterStep_members index _).1
      | probing service => exact hsame rfl
  | probedFor index call service outcome =>
      rw [step, tells]
      split
      next hnone =>
        rw [hnone]
        exact hsame rfl
      next counter hcounter =>
        rw [hcounter]
        exact (congrArg (·[j]?) (Crew.counterStep_members _ index _).1).trans
          ((crew.lookoutStep_members counter.lookout _).1 j)

/-- The pollers after a step: the one that the event is for goes on, the others do not. -/
theorem pollers_step (event : Event) (j : Nat) :
    (crew.step now event).1.pollers[j]? = (crew.pollers[j]?).map fun p =>
      match event with
      | .poller index event => changed (Poller.told now event) index j p
      | _ => p := by
  have hsame {later : Crew} (h : later.pollers = crew.pollers) :
      later.pollers[j]? = (crew.pollers[j]?).map fun p => p := by rw [h, Option.map_id']
  cases event with
  | lookout index event => exact hsame (crew.lookoutStep_members index event).2
  | probed index service outcome => exact hsame (crew.lookoutStep_members index _).2
  | poller index event => exact (crew.pollerStep_members now index event).2 j
  | counter index event => exact hsame (crew.counterStep_members index event).2
  | counterTick index =>
      rw [step]
      split
      next => exact hsame rfl
      next => split <;> exact hsame rfl
  | begun index call progress =>
      cases progress with
      | answered reply => exact hsame (crew.counterStep_members index _).2
      | probing service => exact hsame rfl
  | probedFor index call service outcome =>
      rw [step]
      split
      next => exact hsame rfl
      next counter hcounter =>
        exact hsame ((Crew.counterStep_members _ index _).2.trans
          (crew.lookoutStep_members counter.lookout _).2)

/-! ## Who has an overview shown -/

variable {crew now} {delay index : Nat} {o : Overview}

theorem answers_of_mem_lookoutStep {place : Nat} {event : Monitor.Event Asker}
    (h : .after delay (.poller index (.overview o)) ∈ (crew.lookoutStep place event).2) :
    ∃ k, crew.lookouts[place]? = some k ∧ k.monitor.Answers (.poller index) event o := by
  rw [lookoutStep] at h
  split at h
  next => cases h
  next k hk =>
    obtain ⟨before, effect, heffect, hmem⟩ := mem_thread h
    refine ⟨k, hk, Monitor.answers_of_mem_step ?_⟩
    cases effect with
    | probe service => cases List.mem_singleton.mp hmem
    | store overview =>
        rw [lookoutEffect] at hmem
        cases k.cache <;> simp at hmem
    | answer caller overview =>
        cases caller with
        | timer => cases hmem
        | visitor n => cases hmem
        | poller i =>
            cases List.mem_singleton.mp hmem
            exact heffect

theorem notMem_pollerStep {place : Nat} {event : Polling.Scheduler.Event} :
    .after delay (.poller index (.overview o)) ∉ (crew.pollerStep now place event).2 := by
  intro h
  rw [pollerStep] at h
  split at h
  next => cases h
  next p hp =>
    change _ ∈ _ ++ pollerNext p place event at h
    rcases List.mem_append.mp h with hdone | hnext
    · obtain ⟨before, effect, -, hmem⟩ := mem_thread hdone
      cases effect <;> cases List.mem_singleton.mp hmem
    · unfold pollerNext at hnext
      split at hnext <;> simp at hnext

theorem notMem_counterStep {place : Nat} {event : Relay.Desk.Event} :
    .after delay (.poller index (.overview o)) ∉ (crew.counterStep place event).2 := by
  intro h
  rw [counterStep] at h
  split at h
  next => cases h
  next => simp at h

/-- An overview is shown by a poller because a monitor has answered it. -/
theorem answers_of_mem_step {event : Event}
    (h : .after delay (.poller index (.overview o)) ∈ (crew.step now event).2) :
    ∃ place told k, crew.tells now event = some (place, told) ∧ crew.lookouts[place]? = some k ∧
      k.monitor.Answers (.poller index) told o := by
  cases event with
  | lookout place told =>
      obtain ⟨k, hk, hanswers⟩ := answers_of_mem_lookoutStep h
      exact ⟨place, told, k, rfl, hk, hanswers⟩
  | probed place service outcome =>
      obtain ⟨k, hk, hanswers⟩ := answers_of_mem_lookoutStep h
      exact ⟨place, _, k, rfl, hk, hanswers⟩
  | poller place event => exact absurd h notMem_pollerStep
  | counter place event => exact absurd h notMem_counterStep
  | counterTick place =>
      rw [step] at h
      split at h
      next => cases h
      next => split at h <;> simp at h
  | begun place call progress =>
      cases progress with
      | answered reply => exact absurd h notMem_counterStep
      | probing service => simp [step] at h
  | probedFor place call service outcome =>
      rw [step] at h
      split at h
      next => cases h
      next counter hcounter =>
        rcases List.mem_append.mp h with hdone | hmore
        · obtain ⟨k, hk, hanswers⟩ := answers_of_mem_lookoutStep hdone
          exact ⟨counter.lookout, _, k, by rw [tells, hcounter]; rfl, hk, hanswers⟩
        · exact absurd hmore notMem_counterStep

end Members

end Crew
end WalletEngine
