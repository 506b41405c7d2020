import Mathlib.Data.List.Basic
import WalletEngine.Shutdown

/-! # Signals and waits

What a listener has waiting after each operation, why nobody takes a signal from anybody else, and
what one step of a wait does. A wait listens before it looks at the flag: if it finds the flag down,
the signal is still to come, and it listens already.
-/

namespace WalletEngine.Shutdown

/-! ## Signals -/

/-- A signal waits for a listener. -/
def pending (s : Shutdown) (n : Nat) : Bool := s.listeners.getD n false

section Signals
variable (s : Shutdown) (m n : Nat)

@[simp] theorem pending_subscribe : s.subscribe.1.pending n = s.pending n := by
  simp only [pending, subscribe, List.getD_eq_getElem?_getD, List.getElem?_append]
  split
  next => rfl
  next h =>
    rw [List.getElem?_eq_none (Nat.not_lt.mp h)]
    cases n - s.listeners.length <;> rfl

theorem pending_announce : s.announce.pending n = decide (n < s.listeners.length) := by
  by_cases h : n < s.listeners.length <;> simp [pending, announce, h]

@[simp] theorem pending_receive_self : (s.receive n).1.pending n = false := by
  by_cases h : n < s.listeners.length <;> simp [pending, receive, h]

variable {m n} in
theorem pending_receive (h : m ≠ n) : (s.receive m).1.pending n = s.pending n := by
  simp [pending, receive, List.getElem?_set_ne h]

theorem pending_receive_of_not (h : s.pending n = false) (m : Nat) :
    (s.receive m).1.pending n = false := by
  by_cases hmn : m = n
  · subst hmn
    exact pending_receive_self s m
  · exact (pending_receive s hmn).trans h

theorem pending_of_length_le (h : s.listeners.length ≤ n) : s.pending n = false := by
  rw [pending, List.getD_eq_getElem?_getD, List.getElem?_eq_none h]
  rfl

/-- A new listener has missed all that was sent. -/
theorem pending_subscribe_new : s.subscribe.1.pending s.subscribe.2 = false :=
  (pending_subscribe s _).trans (pending_of_length_le s _ (Nat.le_refl _))

theorem trigger_of_triggered (h : s.triggered = true) : s.trigger = s := by
  rw [trigger, if_pos h]

theorem pending_trigger (h : s.triggered = false) :
    s.trigger.pending n = decide (n < s.listeners.length) := by
  rw [trigger, h]
  exact pending_announce s.raise n

@[simp] theorem length_receive : (s.receive n).1.listeners.length = s.listeners.length :=
  List.length_set

@[simp] theorem length_subscribe : s.subscribe.1.listeners.length = s.listeners.length + 1 :=
  List.length_append

@[simp] theorem length_announce : s.announce.listeners.length = s.listeners.length :=
  List.length_map _

end Signals

/-- A listener that has missed nothing and taken nothing: a signal waits for it exactly if the
shutdown was announced. -/
structure Attends (s : Shutdown) (n : Nat) : Prop where
  bound : n < s.listeners.length
  signal : s.pending n = s.triggered

section Attending
variable {s : Shutdown} {m n : Nat}

theorem attends_subscribe (h : s.triggered = false) : s.subscribe.1.Attends s.subscribe.2 where
  bound := by
    rw [length_subscribe]
    exact Nat.lt_succ_self _
  signal := (pending_subscribe_new s).trans h.symm

theorem Attends.subscribe (h : s.Attends n) : s.subscribe.1.Attends n where
  bound := by
    rw [length_subscribe]
    exact Nat.lt_succ_of_lt h.bound
  signal := (pending_subscribe s n).trans h.signal

theorem Attends.trigger (h : s.Attends n) : s.trigger.Attends n := by
  cases htriggered : s.triggered with
  | true =>
      rw [trigger_of_triggered s htriggered]
      exact h
  | false =>
      constructor
      · rw [length_trigger]
        exact h.bound
      · rw [pending_trigger s n htriggered, triggered_trigger]
        exact decide_eq_true h.bound

theorem Attends.receive (h : s.Attends n) (hmn : m ≠ n) : (s.receive m).1.Attends n where
  bound := by
    rw [length_receive]
    exact h.bound
  signal := (pending_receive s hmn).trans h.signal

/-- A listener that looks in vain has taken nothing. -/
theorem Attends.receive_self (h : s.Attends n) (hnone : s.pending n = false) :
    (s.receive n).1.Attends n where
  bound := by
    rw [length_receive]
    exact h.bound
  signal := (pending_receive_self s n).trans (hnone.symm.trans h.signal)

end Attending

/-! ## Holders -/

section Holders
variable {ι : Type} {s later : Shutdown} {before after : ι → Option Nat} {holder : ι}

/-- No two have the same listener. -/
structure Parted (s : Shutdown) (listener? : ι → Option Nat) : Prop where
  bound : ∀ holder n, listener? holder = some n → n < s.listeners.length
  apart : ∀ a b n, listener? a = some n → listener? b = some n → a = b

/-- Nobody gets a listener that was there, and at most one gets a new one. -/
structure Admits (s later : Shutdown) (before after : ι → Option Nat) (holder : ι) : Prop where
  length : s.listeners.length ≤ later.listeners.length
  listener : ∀ other n, after other = some n → before other = some n ∨
    other = holder ∧ n = s.listeners.length ∧ n < later.listeners.length

theorem Parted.of_admits (h : s.Parted before) (hadmits : s.Admits later before after holder) :
    later.Parted after where
  bound other n hn := by
    rcases hadmits.listener other n hn with hold | ⟨-, -, hlt⟩
    · exact Nat.lt_of_lt_of_le (h.bound other n hold) hadmits.length
    · exact hlt
  apart a b n ha hb := by
    rcases hadmits.listener a n ha with holda | ⟨rfl, hna, -⟩
    · rcases hadmits.listener b n hb with holdb | ⟨-, hnb, -⟩
      · exact h.apart a b n holda holdb
      · exact absurd hnb (Nat.ne_of_lt (h.bound a n holda))
    · rcases hadmits.listener b n hb with holdb | ⟨rfl, -, -⟩
      · exact absurd hna (Nat.ne_of_lt (h.bound b n holdb))
      · rfl

end Holders

/-! ## Waits -/

/-- Where a wait listens. -/
def Wait.listener? : Wait → Option Nat
  | .listening n => some n
  | .blocked n => some n
  | _ => none

/-- How many steps a wait is from its end, once the shutdown was announced. -/
def Wait.distance : Wait → Nat
  | .started => 2
  | .listening _ => 1
  | .blocked _ => 1
  | .over => 0

section Waits
variable {s : Shutdown} {w : Wait} {n : Nat}

theorem step_blocked (s : Shutdown) (n : Nat) :
    (Wait.blocked n).step s = ((s.receive n).1, if s.pending n then .over else .blocked n) := by
  have hreceive : s.receive n = ((s.receive n).1, s.pending n) := rfl
  rw [Wait.step, hreceive]
  cases s.pending n <;> rfl

theorem triggered_step (s : Shutdown) (w : Wait) : (w.step s).1.triggered = s.triggered := by
  cases w with
  | blocked m => rw [step_blocked]; rfl
  | _ => rfl

theorem length_step (s : Shutdown) (w : Wait) :
    s.listeners.length ≤ (w.step s).1.listeners.length := by
  cases w with
  | started => exact Nat.le_of_lt (by simp [Wait.step])
  | blocked m =>
      rw [step_blocked]
      exact Nat.le_of_eq (length_receive s m).symm
  | _ => exact Nat.le_refl _

/-- A wait begins with a listener of its own and keeps to it. -/
theorem listener?_step (h : (w.step s).2.listener? = some n) :
    w.listener? = some n ∨ n = s.listeners.length ∧ w = .started := by
  cases w with
  | started => exact .inr ⟨(Option.some.inj h).symm, rfl⟩
  | listening m =>
      rw [Wait.step] at h
      split at h
      next => cases h
      next => exact .inl h
  | blocked m =>
      rw [step_blocked] at h
      split at h
      next => cases h
      next => exact .inl h
  | _ => cases h

/-- A wait takes no signal but its own. -/
theorem pending_step (h : w.listener? ≠ some n) : (w.step s).1.pending n = s.pending n := by
  cases w with
  | started => exact pending_subscribe s n
  | blocked m =>
      rw [step_blocked]
      exact pending_receive s fun hsame => h (congrArg some hsame)
  | _ => rfl

/-- A wait blocks only if the flag is down, and stays blocked only if no signal waits for it. -/
theorem blocked_of_step (h : (w.step s).2 = .blocked n) :
    w = .listening n ∧ s.triggered = false ∨ w = .blocked n ∧ s.pending n = false := by
  cases w with
  | started => cases h
  | listening m =>
      rw [Wait.step] at h
      split at h
      next => cases h
      next hdown =>
        cases h
        exact .inl ⟨rfl, Bool.not_eq_true _ ▸ hdown⟩
  | blocked m =>
      rw [step_blocked] at h
      split at h
      next => cases h
      next hnone =>
        cases h
        exact .inr ⟨rfl, Bool.not_eq_true _ ▸ hnone⟩
  | _ => cases h

theorem distance_step (hup : s.triggered = true)
    (hwoken : ∀ n, w = .blocked n → s.pending n = true) :
    (w.step s).2.distance = w.distance - 1 := by
  cases w with
  | started => rfl
  | listening m => simp [Wait.step, Wait.distance, hup]
  | blocked m => simp [step_blocked, Wait.distance, hwoken m rfl]
  | _ => rfl

theorem distance_le_two (w : Wait) : w.distance ≤ 2 := by
  cases w <;> simp [Wait.distance]

theorem distance_eq_zero_iff : w.distance = 0 ↔ w = .over := by
  cases w <;> simp [Wait.distance]

end Waits

end WalletEngine.Shutdown
