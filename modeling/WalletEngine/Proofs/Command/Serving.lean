import Mathlib.Data.List.Induction
import WalletEngine.Command.Serving
import WalletEngine.Proofs.Shutdown.Signals

/-! # Whether a serving process ends

The shutdown is announced to those who listen at that moment. The counter begins to listen when it
is opened and the surface when its address is bound, so each of them misses a signal that comes
before. A surface that has missed it serves for ever, although the shutdown was announced and the
counter may have ended; a signal that comes later ends the process.
-/

namespace WalletEngine.Command.Serving

variable {s : Serving} {n : Nat}

/-! ## Those who listen -/

/-- The parts of the process that listen for the shutdown. -/
inductive Task where
  | counter
  | surface
  deriving DecidableEq

/-- The event in which a task looks whether it is signalled. -/
def Task.turn : Task → Event
  | .counter => .counterTurn
  | .surface => .surfaceTurn

/-- Where a task listens, if it does. -/
def listener? (s : Serving) : Task → Option Nat
  | .counter => if s.counterOpen then s.counter else none
  | .surface =>
    match s.phase with
    | .serving n => some n
    | _ => none

/-- A task does not listen yet. -/
def Phase.precedes : Phase → Task → Bool
  | .installed, _ => true
  | .opened, .surface => true
  | .bound, .surface => true
  | _, _ => false

/-- The task that begins to listen when the process goes on. -/
def Phase.next? : Phase → Option Task
  | .installed => some .counter
  | .bound => some .surface
  | _ => none

/-- What an event does. -/
inductive Goes (s : Serving) : Event → Serving → Prop
  | idles (event : Event) : Goes s event s
  | opens (hphase : s.phase = .installed) :
      Goes s .proceed
        { shutdown := s.shutdown.subscribe.1, phase := .opened
          counter := some s.shutdown.subscribe.2, counterOpen := true }
  | binds (hphase : s.phase = .opened) : Goes s .proceed { s with phase := .bound }
  | listens (hphase : s.phase = .bound) :
      Goes s .proceed
        { s with shutdown := s.shutdown.subscribe.1, phase := .serving s.shutdown.subscribe.2 }
  | ends (hphase : s.phase = .draining) : Goes s .proceed { s with phase := .ended }
  | fails (hphase : s.phase = .opened) : Goes s .refuse { s with phase := .failed }
  | signals : Goes s .signal { s with shutdown := s.shutdown.trigger }
  | counterLooks (m : Nat) (hm : s.listener? .counter = some m) :
      Goes s .counterTurn
        { s with
          shutdown := (s.shutdown.receive m).1
          counterOpen := !s.shutdown.pending m }
  | surfaceLooks (m : Nat) (hm : s.listener? .surface = some m) :
      Goes s .surfaceTurn
        { s with
          shutdown := (s.shutdown.receive m).1
          phase := if s.shutdown.pending m then .draining else s.phase }

theorem listener?_surface_iff : s.listener? .surface = some n ↔ s.phase = .serving n := by
  rw [listener?]
  split
  next m hphase => simp [hphase]
  next hphase => simpa using hphase n

theorem listener?_counter_iff :
    s.listener? .counter = some n ↔ s.counterOpen = true ∧ s.counter = some n := by
  cases hopen : s.counterOpen <;> simp [listener?, hopen]

theorem goes_step (s : Serving) (event : Event) : s.Goes event (s.step event) := by
  cases event with
  | proceed =>
      rw [step]
      split
      next hphase => exact .opens hphase
      next hphase => exact .binds hphase
      next hphase => exact .listens hphase
      next hphase =>
        split
        next => exact .idles _
        next => exact .ends hphase
      next => exact .idles _
  | refuse =>
      rw [step]
      split
      next hphase => exact .fails hphase
      next => exact .idles _
  | signal => exact .signals
  | counterTurn =>
      rw [step]
      split
      next hcounter hopen => exact .counterLooks _ (listener?_counter_iff.mpr ⟨hopen, hcounter⟩)
      next => exact .idles _
  | surfaceTurn =>
      rw [step]
      split
      next m hphase => exact .surfaceLooks m (listener?_surface_iff.mpr hphase)
      next => exact .idles _

/-- What an event does to the shutdown. -/
inductive Touches (s : Serving) (event : Event) : Shutdown → Prop
  | leaves : Touches s event s.shutdown
  | subscribes : Touches s event s.shutdown.subscribe.1
  | triggers (hevent : event = .signal) : Touches s event s.shutdown.trigger
  | receives (task : Task) (m : Nat) (hevent : event = task.turn)
      (hm : s.listener? task = some m) : Touches s event (s.shutdown.receive m).1

theorem touches_step (s : Serving) (event : Event) : s.Touches event (s.step event).shutdown := by
  have hgoes := goes_step s event
  generalize s.step event = later at hgoes ⊢
  cases hgoes with
  | opens => exact .subscribes
  | listens => exact .subscribes
  | signals => exact .triggers rfl
  | counterLooks m hm => exact .receives .counter m rfl hm
  | surfaceLooks m hm => exact .receives .surface m rfl hm
  | _ => exact .leaves

/-- A task that listens did so before or has just begun. -/
theorem listener?_step {task : Task} {event : Event} (h : (s.step event).listener? task = some n) :
    s.listener? task = some n ∨ event = .proceed ∧ s.phase.next? = some task ∧
      n = s.shutdown.subscribe.2 ∧ (s.step event).shutdown = s.shutdown.subscribe.1 := by
  have hgoes := goes_step s event
  generalize s.step event = later at hgoes h ⊢
  cases hgoes with
  | opens hphase =>
      cases task with
      | counter =>
          cases h
          exact .inr ⟨rfl, by rw [hphase]; rfl, rfl, rfl⟩
      | surface => cases h
  | listens hphase =>
      cases task with
      | counter => exact .inl h
      | surface =>
          cases h
          exact .inr ⟨rfl, by rw [hphase]; rfl, rfl, rfl⟩
  | counterLooks m hm =>
      left
      cases task with
      | counter =>
          obtain ⟨-, hcounter⟩ := listener?_counter_iff.mp h
          rw [hm, ← hcounter]
          exact ((listener?_counter_iff.mp hm).2).symm
      | surface => exact h
  | surfaceLooks m hm =>
      left
      cases task with
      | counter => exact h
      | surface =>
          have hphase := listener?_surface_iff.mp h
          dsimp only at hphase
          split at hphase
          next => cases hphase
          next => exact listener?_surface_iff.mpr hphase
  | idles => exact .inl h
  | signals => exact .inl h
  | _ =>
      left
      cases task with
      | counter => exact h
      | surface => cases h

theorem precedes_of_next? {phase : Phase} {task : Task} (h : phase.next? = some task) :
    phase.precedes task = true := by
  cases phase <;> cases h <;> rfl

theorem precedes_of_step {task : Task} {event : Event}
    (h : (s.step event).phase.precedes task = true) : s.phase.precedes task = true := by
  have hgoes := goes_step s event
  generalize s.step event = later at hgoes h
  cases hgoes with
  | idles => exact h
  | signals => exact h
  | counterLooks => exact h
  | opens hphase => rw [hphase]; rfl
  | binds hphase =>
      rw [hphase]
      cases task with
      | counter => cases h
      | surface => rfl
  | surfaceLooks m hm =>
      dsimp only at h
      split at h
      next => cases task <;> cases h
      next => exact h
  | _ => cases task <;> cases h

theorem not_precedes_step {task : Task} (h : s.phase.next? = some task) :
    (s.step .proceed).phase.precedes task = false := by
  cases hphase : s.phase with
  | installed =>
      rw [hphase] at h
      cases h
      simp only [step, hphase]
      rfl
  | bound =>
      rw [hphase] at h
      cases h
      simp only [step, hphase]
      rfl
  | _ =>
      rw [hphase] at h
      cases h

/-- Tasks have listeners of their own, from when they begin to listen. -/
structure Sound (s : Serving) : Prop where
  parted : s.shutdown.Parted s.listener?
  silent : ∀ task, s.phase.precedes task = true → s.listener? task = none
  counter : s.counterOpen = true → ∃ n, s.listener? .counter = some n

theorem length_step (s : Serving) (event : Event) :
    s.shutdown.listeners.length ≤ (s.step event).shutdown.listeners.length := by
  have htouches := touches_step s event
  generalize (s.step event).shutdown = later at htouches
  cases htouches with
  | leaves => exact Nat.le_refl _
  | subscribes =>
      rw [Shutdown.length_subscribe]
      exact Nat.le_succ _
  | triggers => exact Nat.le_of_eq (Shutdown.length_trigger _).symm
  | receives => exact Nat.le_of_eq (Shutdown.length_receive _ _).symm

theorem admits_step (s : Serving) (event : Event) :
    s.shutdown.Admits (s.step event).shutdown s.listener? (s.step event).listener?
      (s.phase.next?.getD .counter) where
  length := length_step s event
  listener task n hn := by
    rcases listener?_step hn with hold | ⟨-, hnext, rfl, hshutdown⟩
    · exact .inl hold
    · refine .inr ⟨by rw [hnext]; rfl, rfl, ?_⟩
      rw [hshutdown, Shutdown.length_subscribe]
      exact Nat.lt_succ_self _

theorem sound_start : ({} : Serving).Sound where
  parted := by
    constructor
    · intro task n hn
      cases task <;> cases hn
    · intro a b n ha
      cases a <;> cases ha
  silent task _ := by cases task <;> rfl
  counter h := by cases h

theorem Sound.step (h : s.Sound) (event : Event) : (s.step event).Sound where
  parted := h.parted.of_admits (admits_step s event)
  silent task hprecedes := by
    cases hlistener : (s.step event).listener? task with
    | none => rfl
    | some n =>
        rcases listener?_step hlistener with hold | ⟨rfl, hnext, -, -⟩
        · rw [h.silent task (precedes_of_step hprecedes)] at hold
          cases hold
        · cases (not_precedes_step hnext).symm.trans hprecedes
  counter hopen := by
    have hgoes := goes_step s event
    generalize s.step event = later at hgoes hopen ⊢
    cases hgoes with
    | opens => exact ⟨_, rfl⟩
    | counterLooks m hm =>
        exact ⟨m, listener?_counter_iff.mpr ⟨hopen, (listener?_counter_iff.mp hm).2⟩⟩
    | _ => exact h.counter hopen

/-- A task stops listening only when it is signalled. -/
theorem Sound.listener?_kept (h : s.Sound) {task : Task} (hn : s.listener? task = some n)
    (hnone : s.shutdown.pending n = false) (event : Event) :
    (s.step event).listener? task = some n := by
  have hgoes := goes_step s event
  generalize s.step event = later at hgoes ⊢
  cases hgoes with
  | idles => exact hn
  | signals => exact hn
  | counterLooks m hm =>
      cases task with
      | surface => exact hn
      | counter =>
          cases hm.symm.trans hn
          rw [listener?_counter_iff] at hn ⊢
          exact ⟨by simp [hnone], hn.2⟩
  | surfaceLooks m hm =>
      cases task with
      | counter => exact hn
      | surface =>
          cases hm.symm.trans hn
          rw [listener?_surface_iff] at hn ⊢
          simp only [hnone, Bool.false_eq_true, if_false]
          exact hn
  | opens hphase =>
      rw [h.silent task (by rw [hphase]; rfl)] at hn
      cases hn
  | _ hphase =>
      cases task with
      | counter => exact hn
      | surface => cases hphase.symm.trans (listener?_surface_iff.mp hn)

/-- A task that is signalled stops listening with its next turn. -/
theorem listener?_turn {task : Task} (hn : s.listener? task = some n)
    (hsignal : s.shutdown.pending n = true) : (s.step task.turn).listener? task = none := by
  cases task with
  | counter =>
      obtain ⟨hopen, hcounter⟩ := listener?_counter_iff.mp hn
      have hstep : (s.step .counterTurn).counterOpen = !s.shutdown.pending n := by
        simp only [step, hcounter, hopen]
        rfl
      rw [listener?, Task.turn, hstep, hsignal]
      rfl
  | surface =>
      have hphase := listener?_surface_iff.mp hn
      have hstep : (s.step .surfaceTurn).phase =
          if s.shutdown.pending n then .draining else .serving n := by
        simp only [step, hphase]
        rfl
      rw [hsignal, if_pos rfl] at hstep
      rw [listener?, Task.turn, hstep]

/-- A task that has ended listens no more. -/
theorem listener?_ended {task : Task} (hphase : s.phase.precedes task = false)
    (hnone : s.listener? task = none) (event : Event) :
    (s.step event).listener? task = none := by
  cases hlistener : (s.step event).listener? task with
  | none => rfl
  | some n =>
      rcases listener?_step hlistener with hold | ⟨-, hnext, -, -⟩
      · cases hnone.symm.trans hold
      · cases hphase.symm.trans (precedes_of_next? hnext)

/-! ## Missing the signal -/

theorem triggered_step (h : s.shutdown.triggered = true) (event : Event) :
    (s.step event).shutdown.triggered = true := by
  have htouches := touches_step s event
  generalize (s.step event).shutdown = later at htouches ⊢
  cases htouches with
  | triggers => exact Shutdown.triggered_trigger _
  | _ => exact h

/-- The shutdown was announced, and no signal waits for the task. -/
structure Misses (s : Serving) (task : Task) : Prop where
  triggered : s.shutdown.triggered = true
  silent : ∀ n, s.listener? task = some n → s.shutdown.pending n = false

theorem Misses.step {task : Task} (h : s.Misses task) (event : Event) :
    (s.step event).Misses task where
  triggered := triggered_step h.triggered event
  silent n hn := by
    rcases listener?_step hn with hold | ⟨-, -, rfl, hshutdown⟩
    · have hsilent := h.silent n hold
      have htouches := touches_step s event
      generalize (s.step event).shutdown = later at htouches ⊢
      cases htouches with
      | leaves => exact hsilent
      | subscribes => exact (Shutdown.pending_subscribe _ n).trans hsilent
      | triggers =>
          rw [Shutdown.trigger_of_triggered _ h.triggered]
          exact hsilent
      | receives _ m => exact Shutdown.pending_receive_of_not _ _ hsilent m
    · rw [hshutdown]
      exact Shutdown.pending_subscribe_new _

/-- A task that has missed the signal listens for ever. -/
theorem Misses.listener?_run {task : Task} (h : s.Misses task) (hsound : s.Sound)
    (hn : s.listener? task = some n) (events : List Event) :
    (s.run events).listener? task = some n := by
  induction events generalizing s with
  | nil => exact hn
  | cons event rest ih =>
      exact ih (h.step event) (hsound.step event) (hsound.listener?_kept hn (h.silent n hn) event)

/-! ## Hearing the signal -/

/-- The shutdown was not announced before the task listened, and the task has missed no signal. -/
structure Hears (s : Serving) (task : Task) : Prop where
  quiet : s.phase.precedes task = true → s.shutdown.triggered = false
  attends : ∀ n, s.listener? task = some n → s.shutdown.Attends n

theorem Hears.step {task : Task} (h : s.Hears task) (hsound : s.Sound) (event : Event)
    (hlate : event = .signal → s.phase.precedes task = false) : (s.step event).Hears task where
  quiet hprecedes := by
    have hbefore := precedes_of_step hprecedes
    have htouches := touches_step s event
    generalize (s.step event).shutdown = later at htouches ⊢
    cases htouches with
    | triggers hevent => cases (hlate hevent).symm.trans hbefore
    | _ => exact h.quiet hbefore
  attends n hn := by
    rcases listener?_step hn with hold | ⟨-, hnext, rfl, hshutdown⟩
    · have hattends := h.attends n hold
      have htouches := touches_step s event
      generalize (s.step event).shutdown = later at htouches ⊢
      cases htouches with
      | leaves => exact hattends
      | subscribes => exact hattends.subscribe
      | triggers => exact hattends.trigger
      | receives other m hevent hm =>
          by_cases hmn : m = n
          · -- the task has looked itself, and in vain since it listens still
            subst hmn
            obtain rfl := hsound.parted.apart other task m hm hold
            cases hsignal : s.shutdown.pending m with
            | false => exact hattends.receive_self hsignal
            | true =>
                rw [hevent, listener?_turn hm hsignal] at hn
                cases hn
          · exact hattends.receive hmn
    · rw [hshutdown]
      exact Shutdown.attends_subscribe (h.quiet (precedes_of_next? hnext))

/-! ## Early signals -/

/-- A signal came before a task listened. -/
def Early (task : Task) (events : List Event) : Prop :=
  ∃ before after, events = before ++ .signal :: after ∧
    (run {} before).phase.precedes task = true

section Histories
variable {task : Task} {events : List Event}

theorem run_concat (s : Serving) (events : List Event) (event : Event) :
    s.run (events ++ [event]) = (s.run events).step event :=
  List.foldl_append

theorem Early.append (h : Early task events) (event : Event) :
    Early task (events ++ [event]) := by
  obtain ⟨before, after, rfl, hprecedes⟩ := h
  exact ⟨before, after ++ [event], by simp, hprecedes⟩

theorem Early.of_concat {event : Event} (h : Early task (events ++ [event])) :
    Early task events ∨ event = .signal ∧ (run {} events).phase.precedes task = true := by
  obtain ⟨before, after, hsplit, hprecedes⟩ := h
  rcases List.eq_nil_or_concat after with rfl | ⟨after, last, rfl⟩
  · right
    obtain ⟨rfl, hlast⟩ := List.append_inj' hsplit rfl
    cases hlast
    exact ⟨rfl, hprecedes⟩
  · left
    rw [List.concat_eq_append, ← List.cons_append, ← List.append_assoc] at hsplit
    exact ⟨before, after, (List.append_inj' hsplit rfl).1, hprecedes⟩

/-- The counter listens first, so what comes too early for it does so for the surface. -/
theorem Early.surface (h : Early .counter events) : Early .surface events := by
  obtain ⟨before, after, hsplit, hprecedes⟩ := h
  refine ⟨before, after, hsplit, ?_⟩
  cases hphase : (run {} before).phase with
  | installed => rfl
  | _ =>
      rw [hphase] at hprecedes
      cases hprecedes

theorem sound_run (events : List Event) : (run {} events).Sound := by
  induction events using List.reverseRecOn with
  | nil => exact sound_start
  | append_singleton events event ih =>
      rw [run_concat]
      exact ih.step event

theorem hears_or_misses (task : Task) (events : List Event) :
    ¬ Early task events ∧ (run {} events).Hears task ∨
      Early task events ∧ (run {} events).Misses task := by
  induction events using List.reverseRecOn with
  | nil =>
      left
      refine ⟨?_, fun _ => rfl, fun n hn => ?_⟩
      · rintro ⟨before, after, hsplit, -⟩
        simp at hsplit
      · cases task <;> cases hn
  | append_singleton events event ih =>
      rw [run_concat]
      have hsound := sound_run events
      rcases ih with ⟨hnot, hears⟩ | ⟨hearly, hmisses⟩
      · by_cases hnow : event = .signal ∧ (run {} events).phase.precedes task = true
        · obtain ⟨rfl, hprecedes⟩ := hnow
          right
          refine ⟨⟨events, [], rfl, hprecedes⟩, Shutdown.triggered_trigger _, fun n hn => ?_⟩
          rcases listener?_step hn with hold | ⟨hproceed, -⟩
          · cases (hsound.silent task hprecedes).symm.trans hold
          · cases hproceed
        · left
          refine ⟨fun h => h.of_concat.elim hnot hnow, hears.step hsound event fun hsignal => ?_⟩
          rw [← Bool.not_eq_true]
          exact fun hprecedes => hnow ⟨hsignal, hprecedes⟩
      · exact .inr ⟨hearly.append event, hmisses.step event⟩

end Histories

/-! ## The end of a process -/

/-- Once the shutdown was announced, a task that hears of it stops listening in its turn. -/
theorem Hears.listener?_run {task : Task} (h : s.Hears task) (hsound : s.Sound)
    (htriggered : s.shutdown.triggered = true) {events : List Event}
    (hturn : task.turn ∈ events ∨ s.listener? task = none) :
    (s.run events).listener? task = none := by
  induction events generalizing s with
  | nil => exact hturn.elim (fun hmem => by cases hmem) id
  | cons event rest ih =>
      have hlate : s.phase.precedes task = false := by
        rw [← Bool.not_eq_true]
        intro hprecedes
        cases (h.quiet hprecedes).symm.trans htriggered
      apply ih (h.step hsound event fun _ => hlate) (hsound.step event)
        (triggered_step htriggered event)
      rcases hturn with hmem | hnone
      · rcases List.mem_cons.mp hmem with rfl | hrest
        · right
          cases hlistener : s.listener? task with
          | none => exact listener?_ended hlate hlistener _
          | some n =>
              exact listener?_turn hlistener ((h.attends n hlistener).signal.trans htriggered)
        · exact .inl hrest
      · exact .inr (listener?_ended hlate hnone event)

/-- The surface listens or has ended. -/
def Phase.late : Phase → Bool
  | .serving _ | .draining | .ended => true
  | _ => false

theorem late_step (h : s.phase.late = true) (event : Event) :
    (s.step event).phase.late = true := by
  have hgoes := goes_step s event
  generalize s.step event = later at hgoes ⊢
  cases hgoes with
  | opens hphase => rw [hphase] at h; cases h
  | binds hphase => rw [hphase] at h; cases h
  | fails hphase => rw [hphase] at h; cases h
  | listens => rfl
  | ends => rfl
  | surfaceLooks m hm =>
      dsimp only
      split
      next => rfl
      next => exact h
  | _ => exact h

theorem late_run (h : s.phase.late = true) (events : List Event) :
    (s.run events).phase.late = true := by
  induction events generalizing s with
  | nil => exact h
  | cons event rest ih => exact ih (late_step h event)

theorem ended_of_proceed (hsound : s.Sound) (hlate : s.phase.late = true)
    (hsurface : s.listener? .surface = none) (hcounter : s.listener? .counter = none) :
    (s.step .proceed).phase = .ended := by
  have hclosed : s.counterOpen = false := by
    rw [← Bool.not_eq_true]
    intro hopen
    obtain ⟨n, hn⟩ := hsound.counter hopen
    cases hcounter.symm.trans hn
  cases hphase : s.phase with
  | serving n => cases hsurface.symm.trans (listener?_surface_iff.mpr hphase)
  | draining => simp [step, hphase, hclosed]
  | ended => simp [step, hphase]
  | _ =>
      rw [hphase] at hlate
      cases hlate

/-- Once the shutdown was announced, a task that listens does so for ever exactly if a signal came
before it listened, and otherwise stops with its next turn, whatever else happens. So a process that
serves ends, as soon as the surface and the counter have each had a turn in any order, unless a
signal came before the surface listened. Calls at the counter play no part in this. -/
theorem outlives_shutdown_iff_early (events : List Event)
    (htriggered : (run {} events).shutdown.triggered = true) :
    (∀ task n, (run {} events).listener? task = some n →
      ((∀ more, ((run {} events).run more).listener? task = some n) ↔ Early task events) ∧
      (¬ Early task events → ∀ more, task.turn ∈ more →
        ((run {} events).run more).listener? task = none)) ∧
    (¬ Early .surface events → ∀ n, (run {} events).phase = .serving n →
      ∀ more, .surfaceTurn ∈ more → .counterTurn ∈ more →
        (((run {} events).run more).step .proceed).phase = .ended) := by
  have hsound := sound_run events
  have hstops {task : Task} (hnot : ¬ Early task events) (more : List Event)
      (hturn : task.turn ∈ more) : ((run {} events).run more).listener? task = none := by
    rcases hears_or_misses task events with ⟨-, hears⟩ | ⟨hearly, -⟩
    · exact hears.listener?_run hsound htriggered (.inl hturn)
    · exact absurd hearly hnot
  constructor
  · intro task n hn
    refine ⟨⟨fun hever => ?_, fun hearly => ?_⟩, hstops⟩
    · by_contra hnot
      cases (hever [task.turn]).symm.trans (hstops hnot _ (List.mem_singleton_self _))
    · rcases hears_or_misses task events with ⟨hnot, -⟩ | ⟨-, hmisses⟩
      · exact absurd hearly hnot
      · exact hmisses.listener?_run hsound hn
  · intro hnot n hserving more hsurface hcounter
    have hlate : (run {} events).phase.late = true := by rw [hserving]; rfl
    have hrun : ((run {} events).run more).Sound := by
      rw [run, run, ← List.foldl_append]
      exact sound_run (events ++ more)
    exact ended_of_proceed hrun (late_run hlate more) (hstops hnot more hsurface)
      (hstops (fun hearly => hnot hearly.surface) more hcounter)

theorem serving_ends_sample :
    let s := run {} [.proceed, .proceed, .proceed, .signal]
    s.shutdown.triggered = true ∧ s.phase = .serving 1 ∧
      (s.run [.counterTurn, .surfaceTurn, .proceed]).phase = .ended := by
  have hnot : ¬ Early .surface [.proceed, .proceed, .proceed, .signal] := by
    rcases hears_or_misses .surface [.proceed, .proceed, .proceed, .signal] with
      ⟨hnot, -⟩ | ⟨-, hmisses⟩
    · exact hnot
    · exact absurd (hmisses.silent 1 rfl) (by decide)
  have hends := (outlives_shutdown_iff_early [.proceed, .proceed, .proceed, .signal] rfl).2
    hnot 1 rfl [.counterTurn, .surfaceTurn] (by decide) (by decide)
  exact ⟨rfl, rfl, hends⟩

/-- The signal comes while the address is not bound yet. The counter hears it and ends; the surface
serves for ever. -/
theorem serves_on_after_early_signal :
    let s := run {} [.proceed, .signal, .counterTurn, .proceed, .proceed]
    s.shutdown.triggered = true ∧ s.counter = some 0 ∧ s.counterOpen = false ∧
      s.phase = .serving 1 ∧ ∀ events, (s.run events).phase = .serving 1 := by
  intro s
  have hmisses : s.Misses .surface := by
    refine ⟨rfl, fun n hn => ?_⟩
    cases hn
    rfl
  refine ⟨rfl, rfl, rfl, rfl, fun events => ?_⟩
  rw [← listener?_surface_iff]
  exact hmisses.listener?_run (sound_run _) rfl events

end WalletEngine.Command.Serving
