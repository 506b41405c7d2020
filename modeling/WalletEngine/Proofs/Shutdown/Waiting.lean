import Mathlib.Logic.Function.Basic
import WalletEngine.Proofs.Shutdown.Signals

/-! # Who hears of a shutdown

A shutdown is announced in two steps, and waits take steps of their own, which may come between
them. Each receiver from before the announcement gets one signal, and no wait misses it.
-/

namespace WalletEngine.Shutdown

/-! ## A shutdown among those who hear of it -/

/-- A receiver, and how many signals it has obtained. -/
structure Receiver where
  listener : Nat
  signals : Nat := 0

/-- A shutdown among receivers, waits and callers of `trigger`. A wait that has taken no step yet is
as good as one that is still to begin. -/
structure Gathering (ι : Type) where
  shutdown : Shutdown := {}
  /-- A call has raised the flag and still is to announce it. It keeps other calls out. -/
  announcing : Bool := false
  /-- How many calls of `trigger` have returned. -/
  returned : Nat := 0
  receivers : List Receiver := []
  waits : ι → Wait := fun _ => .started
  /-- What those have seen who looked at the flag. -/
  looks : List Bool := []

namespace Gathering
variable {ι : Type} {g later : Gathering ι}

/-- The signal has been sent. -/
def announced (g : Gathering ι) : Bool := g.shutdown.triggered && !g.announcing

/-- Who may have a listener. -/
inductive Holder (ι : Type) where
  | receiver (k : Nat)
  | wait (i : ι)

def listener? (g : Gathering ι) : Holder ι → Option Nat
  | .receiver k => g.receivers[k]?.map Receiver.listener
  | .wait i => (g.waits i).listener?

theorem listener?_receiver {k : Nat} {r : Receiver} (h : g.receivers[k]? = some r) :
    g.listener? (.receiver k) = some r.listener := by
  rw [listener?, h]
  rfl

theorem listener?_blocked {i : ι} {n : Nat} (h : g.waits i = .blocked n) :
    g.listener? (.wait i) = some n := by
  rw [listener?, h]
  rfl

/-- What is known of a gathering after any happenings. -/
structure Sound (g : Gathering ι) : Prop where
  parted : g.shutdown.Parted g.listener?
  raised : g.announcing = true → g.shutdown.triggered = true
  returned : 0 < g.returned ↔ g.announced = true
  woken : g.announced = true → ∀ i n, g.waits i = .blocked n → g.shutdown.pending n = true

theorem sound_empty : ({} : Gathering ι).Sound where
  parted := by
    constructor
    · intro holder n h
      cases holder <;> cases h
    · intro a b n h
      cases a <;> cases h
  raised h := by cases h
  returned := by simp [announced]
  woken h := by cases h

/-- The flag and the calls of `trigger` are as they were. -/
structure Leaves (g later : Gathering ι) : Prop where
  triggered : later.shutdown.triggered = g.shutdown.triggered
  announcing : later.announcing = g.announcing
  returned : later.returned = g.returned

theorem Leaves.announced (h : g.Leaves later) : later.announced = g.announced := by
  rw [Gathering.announced, Gathering.announced, h.triggered, h.announcing]

theorem Sound.of_leaves (h : g.Sound) (hleaves : g.Leaves later)
    (hparted : later.shutdown.Parted later.listener?)
    (hwoken : g.announced = true → ∀ i n, later.waits i = .blocked n →
      later.shutdown.pending n = true) : later.Sound where
  parted := hparted
  raised := by
    rw [hleaves.announcing, hleaves.triggered]
    exact h.raised
  returned := by
    rw [hleaves.returned, hleaves.announced]
    exact h.returned
  woken := by
    rw [hleaves.announced]
    exact hwoken

/-! ## Steps -/

/-- What happens at a gathering, through any clone of the shutdown. -/
inductive Happening (ι : Type) where
  | clone
  | subscribe
  /-- A receiver looks for a signal. -/
  | receive (receiver : Nat)
  /-- Somebody looks at the flag. -/
  | look
  /-- A wait takes its next step. -/
  | advance (wait : ι)
  /-- A call of `trigger` gets in. It raises the flag, or returns if the flag is up. -/
  | trigger
  /-- The call that has raised the flag announces it and returns. -/
  | announce
  deriving DecidableEq

variable [DecidableEq ι]

def step (g : Gathering ι) : Happening ι → Gathering ι
  | .clone => g
  | .subscribe =>
    { g with
      shutdown := g.shutdown.subscribe.1
      receivers := g.receivers ++ [{ listener := g.shutdown.subscribe.2 }] }
  | .receive k =>
    match g.receivers[k]? with
    | none => g
    | some r =>
      { g with
        shutdown := (g.shutdown.receive r.listener).1
        receivers := g.receivers.set k
          { r with signals := r.signals + (g.shutdown.receive r.listener).2.toNat } }
  | .look => { g with looks := g.looks ++ [g.shutdown.triggered] }
  | .advance i =>
    { g with
      shutdown := ((g.waits i).step g.shutdown).1
      waits := Function.update g.waits i ((g.waits i).step g.shutdown).2 }
  | .trigger =>
    if g.announcing then g
    else if g.shutdown.triggered then { g with returned := g.returned + 1 }
    else { g with shutdown := g.shutdown.raise, announcing := true }
  | .announce =>
    if g.announcing then
      { g with
        shutdown := g.shutdown.announce
        announcing := false
        returned := g.returned + 1 }
    else g

def run (g : Gathering ι) (happenings : List (Happening ι)) : Gathering ι := happenings.foldl step g

/-- Both steps of a call that nobody keeps out are a trigger. -/
theorem shutdown_trigger_announce (h : g.announcing = false) :
    ((g.step .trigger).step .announce).shutdown = g.shutdown.trigger := by
  cases htriggered : g.shutdown.triggered <;> simp [step, Shutdown.trigger, h, htriggered]

theorem step_trigger_of_busy (h : g.announcing = true) : g.step .trigger = g := by
  rw [step, if_pos h]

theorem step_trigger_of_up (h : g.announcing = false) (hup : g.shutdown.triggered = true) :
    g.step .trigger = { g with returned := g.returned + 1 } := by
  simp [step, h, hup]

theorem step_trigger_of_down (h : g.announcing = false) (hdown : g.shutdown.triggered = false) :
    g.step .trigger = { g with shutdown := g.shutdown.raise, announcing := true } := by
  simp [step, h, hdown]

theorem step_announce_of_busy (h : g.announcing = true) :
    g.step .announce =
      { g with
        shutdown := g.shutdown.announce
        announcing := false
        returned := g.returned + 1 } := by
  rw [step, if_pos h]

theorem step_announce_of_free (h : g.announcing = false) : g.step .announce = g := by
  simp [step, h]

theorem step_receive {k : Nat} {r : Receiver} (h : g.receivers[k]? = some r) :
    g.step (.receive k) =
      { g with
        shutdown := (g.shutdown.receive r.listener).1
        receivers := g.receivers.set k
          { r with signals := r.signals + (g.shutdown.pending r.listener).toNat } } := by
  rw [step, h]
  rfl

theorem step_receive_of_none {k : Nat} (h : g.receivers[k]? = none) :
    g.step (.receive k) = g := by
  rw [step, h]

/-! ## What is kept -/

theorem leaves_step (g : Gathering ι) {happening : Happening ι} (htrigger : happening ≠ .trigger)
    (hannounce : happening ≠ .announce) : g.Leaves (g.step happening) := by
  cases happening with
  | trigger => exact absurd rfl htrigger
  | announce => exact absurd rfl hannounce
  | receive k =>
      rw [step]
      split <;> exact ⟨rfl, rfl, rfl⟩
  | advance i => exact ⟨triggered_step _ _, rfl, rfl⟩
  | _ => exact ⟨rfl, rfl, rfl⟩

theorem admits_subscribe (g : Gathering ι) :
    g.shutdown.Admits (g.step .subscribe).shutdown g.listener? (g.step .subscribe).listener?
      (.receiver g.receivers.length) where
  length := by simp [step]
  listener other n hn := by
    cases other with
    | wait i => exact .inl hn
    | receiver k =>
        rcases Nat.lt_trichotomy k g.receivers.length with hlt | rfl | hgt
        · left
          simpa [step, listener?, List.getElem?_append_left hlt] using hn
        · right
          simp [step, listener?, Shutdown.subscribe] at hn ⊢
          omega
        · simp [step, listener?, List.getElem?_append_right (Nat.le_of_lt hgt),
            Nat.sub_ne_zero_of_lt hgt] at hn

theorem admits_advance (g : Gathering ι) (i : ι) :
    g.shutdown.Admits (g.step (.advance i)).shutdown g.listener? (g.step (.advance i)).listener?
      (.wait i) where
  length := length_step _ _
  listener other n hn := by
    cases other with
    | receiver k => exact .inl hn
    | wait j =>
        by_cases hji : j = i
        · subst hji
          simp only [step, listener?, Function.update_self] at hn
          rcases listener?_step hn with hold | ⟨hn, hstarted⟩
          · exact .inl hold
          · refine .inr ⟨rfl, hn, ?_⟩
            simp [step, hn, hstarted, Wait.step]
        · left
          simpa [step, listener?, Function.update_of_ne hji] using hn

theorem Sound.subscribe (h : g.Sound) : (g.step .subscribe).Sound := by
  refine h.of_leaves ?_ (h.parted.of_admits (admits_subscribe g)) ?_
  · exact ⟨rfl, rfl, rfl⟩
  · intro hannounced i n hblocked
    rw [step, pending_subscribe]
    exact h.woken hannounced i n hblocked

theorem Sound.receive (h : g.Sound) (k : Nat) : (g.step (.receive k)).Sound := by
  cases hr : g.receivers[k]? with
  | none =>
      rw [step_receive_of_none hr]
      exact h
  | some r =>
      have hlistener (holder : Holder ι) :
          (g.step (.receive k)).listener? holder = g.listener? holder := by
        rw [step_receive hr]
        cases holder with
        | wait i => rfl
        | receiver j =>
            by_cases hjk : k = j
            · subst hjk
              simp [listener?, List.getElem?_set_self', hr]
            · simp [listener?, List.getElem?_set_ne hjk]
      rw [step_receive hr] at hlistener ⊢
      refine h.of_leaves ?_ ⟨?_, ?_⟩ ?_
      · exact ⟨rfl, rfl, rfl⟩
      · intro holder n hn
        rw [length_receive]
        exact h.parted.bound holder n ((hlistener holder).symm.trans hn)
      · intro a b n ha hb
        exact h.parted.apart a b n ((hlistener a).symm.trans ha) ((hlistener b).symm.trans hb)
      · intro hannounced i n hblocked
        refine (pending_receive _ ?_).trans (h.woken hannounced i n hblocked)
        rintro rfl
        cases h.parted.apart _ _ _ (listener?_receiver hr) (listener?_blocked hblocked)

theorem Sound.advance (h : g.Sound) (i : ι) : (g.step (.advance i)).Sound := by
  apply h.of_leaves (leaves_step g (by simp) (by simp)) (h.parted.of_admits (admits_advance g i))
  intro hannounced j n hblocked
  by_cases hji : j = i
  · subst hji
    simp only [step, Function.update_self] at hblocked
    rcases blocked_of_step hblocked with ⟨-, hdown⟩ | ⟨hwait, hnone⟩
    · rw [announced, hdown] at hannounced
      cases hannounced
    · rw [h.woken hannounced j n hwait] at hnone
      cases hnone
  · simp only [step, Function.update_of_ne hji] at hblocked
    refine (pending_step fun hlistens => hji ?_).trans (h.woken hannounced j n hblocked)
    cases h.parted.apart _ (.wait i) _ (listener?_blocked hblocked) hlistens
    rfl

theorem Sound.trigger (h : g.Sound) : (g.step .trigger).Sound := by
  cases hbusy : g.announcing with
  | true =>
      rw [step_trigger_of_busy hbusy]
      exact h
  | false =>
      cases hup : g.shutdown.triggered with
      | true =>
          rw [step_trigger_of_up hbusy hup]
          refine ⟨⟨h.parted.bound, h.parted.apart⟩, h.raised, ?_, h.woken⟩
          simp [announced, hbusy, hup]
      | false =>
          have hnone : g.returned = 0 := by
            have hreturned := h.returned
            simp only [announced, hup, Bool.false_and, Bool.false_eq_true, iff_false] at hreturned
            omega
          rw [step_trigger_of_down hbusy hup]
          refine ⟨⟨h.parted.bound, h.parted.apart⟩, fun _ => rfl, ?_, ?_⟩
          · simp [announced, hnone]
          · simp [announced]

/-- The signal is sent to all who listen, and so to all who are blocked. -/
theorem Sound.announce (h : g.Sound) : (g.step .announce).Sound := by
  cases hbusy : g.announcing with
  | false =>
      rw [step_announce_of_free hbusy]
      exact h
  | true =>
      rw [step_announce_of_busy hbusy]
      refine ⟨⟨?_, h.parted.apart⟩, fun _ => h.raised hbusy, ?_, ?_⟩
      · intro holder n hn
        rw [length_announce]
        exact h.parted.bound holder n hn
      · have hup : g.shutdown.announce.triggered = true := h.raised hbusy
        simp [announced, hup]
      · intro _ i n hblocked
        rw [pending_announce]
        exact decide_eq_true (h.parted.bound _ n (listener?_blocked hblocked))

theorem Sound.step (h : g.Sound) (happening : Happening ι) : (g.step happening).Sound := by
  cases happening with
  | clone => exact h
  | subscribe => exact h.subscribe
  | receive k => exact h.receive k
  | look => exact h.of_leaves ⟨rfl, rfl, rfl⟩ ⟨h.parted.bound, h.parted.apart⟩ h.woken
  | advance i => exact h.advance i
  | trigger => exact h.trigger
  | announce => exact h.announce

theorem Sound.run (h : g.Sound) (happenings : List (Happening ι)) : (g.run happenings).Sound := by
  induction happenings generalizing g with
  | nil => exact h
  | cons happening rest ih => exact ih (h.step happening)

/-! ## The flag -/

theorem Sound.triggered_step (h : g.Sound) (happening : Happening ι) :
    (g.step happening).shutdown.triggered = true ↔
      g.shutdown.triggered = true ∨ .trigger = happening := by
  cases happening with
  | trigger =>
      simp only [or_true, iff_true]
      cases hbusy : g.announcing with
      | true =>
          rw [step_trigger_of_busy hbusy]
          exact h.raised hbusy
      | false =>
          cases hup : g.shutdown.triggered with
          | true => rw [step_trigger_of_up hbusy hup, hup]
          | false =>
              rw [step_trigger_of_down hbusy hup]
              rfl
  | announce =>
      cases hbusy : g.announcing with
      | true =>
          rw [step_announce_of_busy hbusy]
          simp [Shutdown.announce]
      | false =>
          rw [step_announce_of_free hbusy]
          simp
  | _ =>
      rw [(leaves_step g (by simp) (by simp)).triggered]
      simp

theorem Sound.triggered_run (h : g.Sound) (happenings : List (Happening ι)) :
    (g.run happenings).shutdown.triggered = true ↔
      g.shutdown.triggered = true ∨ .trigger ∈ happenings := by
  induction happenings generalizing g with
  | nil => simp [Gathering.run]
  | cons happening rest ih =>
      rw [List.mem_cons, ← or_assoc, ← h.triggered_step happening]
      exact ih (h.step happening)

/-! ## One signal for each receiver -/

/-- A receiver has obtained a signal, or one waits for it, exactly once the signal was sent. -/
def Serves (g : Gathering ι) (k : Nat) : Prop :=
  ∃ r, g.receivers[k]? = some r ∧
    r.signals + (g.shutdown.pending r.listener).toNat = g.announced.toNat

theorem Serves.step {k : Nat} (hserves : g.Serves k) (h : g.Sound) (happening : Happening ι) :
    (g.step happening).Serves k := by
  obtain ⟨r, hr, hsignals⟩ := hserves
  cases happening with
  | clone => exact ⟨r, hr, hsignals⟩
  | look => exact ⟨r, hr, hsignals⟩
  | subscribe =>
      refine ⟨r, ?_, ?_⟩
      · exact (List.getElem?_append_left (List.getElem?_eq_some_iff.mp hr).1).trans hr
      · rw [Gathering.step, pending_subscribe]
        exact hsignals
  | receive j =>
      cases hother : g.receivers[j]? with
      | none =>
          rw [step_receive_of_none hother]
          exact ⟨r, hr, hsignals⟩
      | some other =>
          rw [step_receive hother]
          by_cases hjk : j = k
          · subst hjk
            cases hr.symm.trans hother
            refine ⟨_, List.getElem?_set_self (List.getElem?_eq_some_iff.mp hr).1, ?_⟩
            rw [pending_receive_self]
            exact hsignals
          · refine ⟨r, (List.getElem?_set_ne hjk).trans hr, ?_⟩
            rw [pending_receive]
            · exact hsignals
            · intro hsame
              cases h.parted.apart _ (.receiver k) _ (listener?_receiver hother)
                (hsame ▸ listener?_receiver hr)
              exact hjk rfl
  | advance i =>
      refine ⟨r, hr, ?_⟩
      rw [(leaves_step g (by simp) (by simp)).announced, ← hsignals]
      refine congrArg (r.signals + Bool.toNat ·) (pending_step fun hlistens => ?_)
      cases h.parted.apart _ (.wait i) _ (listener?_receiver hr) hlistens
  | trigger =>
      cases hbusy : g.announcing with
      | true =>
          rw [step_trigger_of_busy hbusy]
          exact ⟨r, hr, hsignals⟩
      | false =>
          cases hup : g.shutdown.triggered with
          | true =>
              rw [step_trigger_of_up hbusy hup]
              exact ⟨r, hr, hsignals⟩
          | false =>
              rw [step_trigger_of_down hbusy hup]
              refine ⟨r, hr, hsignals.trans ?_⟩
              simp [announced, hup]
  | announce =>
      cases hbusy : g.announcing with
      | false =>
          rw [step_announce_of_free hbusy]
          exact ⟨r, hr, hsignals⟩
      | true =>
          have hlt := h.parted.bound _ _ (listener?_receiver hr)
          have hup : g.shutdown.announce.triggered = true := h.raised hbusy
          rw [step_announce_of_busy hbusy]
          refine ⟨r, hr, ?_⟩
          simp only [announced, hbusy, Bool.not_true, Bool.and_false, Bool.toNat_false] at hsignals
          simp only [announced, pending_announce, hlt, hup]
          simp only [decide_true, Bool.not_false, Bool.and_self, Bool.toNat_true]
          omega

theorem Serves.run {k : Nat} (hserves : g.Serves k) (h : g.Sound)
    (happenings : List (Happening ι)) : (g.run happenings).Serves k := by
  induction happenings generalizing g with
  | nil => exact hserves
  | cons happening rest ih => exact ih (hserves.step h happening) (h.step happening)

/-- Who subscribes before the signal is sent will be served. -/
theorem serves_subscribe (h : g.announced = false) :
    (g.step .subscribe).Serves g.receivers.length := by
  refine ⟨{ listener := g.shutdown.subscribe.2 }, by simp [step], ?_⟩
  have hannounced : (g.step .subscribe).announced = false := h
  rw [hannounced]
  exact congrArg (0 + Bool.toNat ·) (pending_subscribe_new g.shutdown)

/-- A receiver that looks for a signal after one was sent has obtained just one. -/
theorem Serves.signals_receive {k : Nat} (h : g.Serves k) (hannounced : g.announced = true) :
    ∃ r, (g.step (.receive k)).receivers[k]? = some r ∧ r.signals = 1 := by
  obtain ⟨r, hr, hsignals⟩ := h
  rw [step_receive hr]
  refine ⟨_, List.getElem?_set_self (List.getElem?_eq_some_iff.mp hr).1, ?_⟩
  rw [hsignals, hannounced]
  rfl

/-- No receiver that is served obtains a signal before a call has returned, or two after. -/
theorem Serves.signals {k : Nat} (hserves : g.Serves k) (h : g.Sound) :
    ∃ r, g.receivers[k]? = some r ∧ r.signals ≤ 1 ∧ (g.returned = 0 → r.signals = 0) ∧
      (0 < g.returned →
        ∃ served, (g.step (.receive k)).receivers[k]? = some served ∧ served.signals = 1) := by
  obtain ⟨r, hr, hsignals⟩ := hserves
  refine ⟨r, hr, ?_, ?_, ?_⟩
  · have hone := Bool.toNat_le g.announced
    omega
  · intro hreturned
    have hnot : g.announced = false := by
      rw [← Bool.not_eq_true, ← h.returned, hreturned]
      exact Nat.lt_irrefl 0
    rw [hnot, Bool.toNat_false] at hsignals
    omega
  · intro hreturned
    exact Serves.signals_receive ⟨r, hr, hsignals⟩ (h.returned.mp hreturned)

/-! ## The end of waits -/

theorem returned_le_step (g : Gathering ι) (happening : Happening ι) :
    g.returned ≤ (g.step happening).returned := by
  cases happening with
  | trigger =>
      simp only [step]
      split
      next => exact Nat.le_refl _
      next =>
        split
        next => exact Nat.le_succ _
        next => exact Nat.le_refl _
  | announce =>
      simp only [step]
      split
      next => exact Nat.le_succ _
      next => exact Nat.le_refl _
  | _ => exact Nat.le_of_eq (leaves_step g (by simp) (by simp)).returned.symm

theorem waits_step_of_ne {i : ι} {happening : Happening ι} (h : happening ≠ .advance i) :
    (g.step happening).waits i = g.waits i := by
  cases happening with
  | trigger =>
      simp only [step]
      split
      next => rfl
      next => split <;> rfl
  | announce =>
      simp only [step]
      split <;> rfl
  | receive k =>
      rw [step]
      split <;> rfl
  | advance j =>
      refine Function.update_of_ne ?_ _ _
      rintro rfl
      exact h rfl
  | _ => rfl

/-- Once a call has returned, every step brings a wait nearer to its end. -/
theorem Sound.distance_advance (h : g.Sound) (hreturned : 0 < g.returned) (i : ι) :
    ((g.step (.advance i)).waits i).distance = (g.waits i).distance - 1 := by
  have hannounced := h.returned.mp hreturned
  have hup : g.shutdown.triggered = true := by
    rw [announced, Bool.and_eq_true] at hannounced
    exact hannounced.1
  simp only [Gathering.step, Function.update_self]
  exact distance_step hup (h.woken hannounced i)

theorem Sound.distance_run (h : g.Sound) (hreturned : 0 < g.returned) (i : ι)
    (happenings : List (Happening ι)) :
    ((g.run happenings).waits i).distance =
      (g.waits i).distance - happenings.count (.advance i) := by
  induction happenings generalizing g with
  | nil => rfl
  | cons happening rest ih =>
      have hlater := Nat.lt_of_lt_of_le hreturned (returned_le_step g happening)
      refine (ih (h.step happening) hlater).trans ?_
      by_cases hadvance : happening = .advance i
      · subst hadvance
        rw [h.distance_advance hreturned, List.count_cons_self]
        omega
      · rw [waits_step_of_ne hadvance, List.count_cons_of_ne hadvance]

theorem Sound.over_run (h : g.Sound) (hreturned : 0 < g.returned) (i : ι)
    (happenings : List (Happening ι))
    (hcount : (g.waits i).distance ≤ happenings.count (.advance i)) :
    (g.run happenings).waits i = .over := by
  rw [← distance_eq_zero_iff, h.distance_run hreturned]
  exact Nat.sub_eq_zero_of_le hcount

end Gathering

/-! ## Every signal is heard -/

open Gathering

/-- A shutdown is announced once and no wait misses it. Whoever looks at the flag sees it raised
exactly if a call of `trigger` has got in before. A receiver from before the first such call obtains
no signal until a call returns, and just one after that. From then on no wait is blocked: a wait that
seems to be has a signal waiting, and each ends within two steps of its own, whatever happens
between them. -/
theorem announced_once_and_missed_by_no_wait {ι : Type} [DecidableEq ι]
    (history : List (Happening ι)) :
    let g := Gathering.run {} history
    ((g.step .look).looks.getLast? = some true ↔ .trigger ∈ history) ∧
      (∀ before after, history = before ++ .subscribe :: after → .trigger ∉ before →
        let k := (Gathering.run {} before).receivers.length
        ∃ r, g.receivers[k]? = some r ∧ r.signals ≤ 1 ∧ (g.returned = 0 → r.signals = 0) ∧
          (0 < g.returned →
            ∃ served, (g.step (.receive k)).receivers[k]? = some served ∧ served.signals = 1)) ∧
      (0 < g.returned → ∀ i,
        (∀ n, g.waits i = .blocked n → (g.step (.advance i)).waits i = .over) ∧
          ∀ happenings, 2 ≤ happenings.count (.advance i) →
            (g.run happenings).waits i = .over) := by
  intro g
  have hsound : g.Sound := sound_empty.run history
  refine ⟨?_, ?_, ?_⟩
  · rw [step, List.getLast?_concat, Option.some.injEq, sound_empty.triggered_run]
    simp
  · rintro before after rfl hbefore
    have hdown : (run {} before).announced = false := by
      rw [announced, Bool.and_eq_false_iff]
      left
      rw [← Bool.not_eq_true, sound_empty.triggered_run]
      simpa using hbefore
    have hrun : g = ((run {} before).step .subscribe).run after := List.foldl_append
    have hserves : g.Serves (run {} before).receivers.length := by
      rw [hrun]
      exact (serves_subscribe hdown).run (sound_empty.run before).subscribe after
    exact hserves.signals hsound
  · intro hreturned i
    constructor
    · intro n hblocked
      apply hsound.over_run hreturned i [.advance i]
      rw [hblocked, List.count_singleton_self]
      exact Nat.le_refl 1
    · intro happenings hcount
      exact hsound.over_run hreturned i happenings (Nat.le_trans (distance_le_two _) hcount)

/-- A wait that blocks before the shutdown, while a receiver listens, and two calls of `trigger`. -/
def sampleHistory : List (Happening Nat) :=
  [.subscribe, .advance 0, .advance 0, .trigger, .announce, .trigger]

theorem wait_of_sampleHistory_ends :
    let g := Gathering.run {} sampleHistory
    g.returned = 2 ∧ g.waits 0 = .blocked 1 ∧ (g.step (.advance 0)).waits 0 = .over ∧
      ∃ served, (g.step (.receive 0)).receivers[0]? = some served ∧ served.signals = 1 := by
  obtain ⟨-, hreceivers, hwaits⟩ := announced_once_and_missed_by_no_wait sampleHistory
  have hreturned : 0 < (Gathering.run {} sampleHistory).returned := by decide
  obtain ⟨-, -, -, -, hserved⟩ := hreceivers [] (sampleHistory.drop 1) rfl (by decide)
  exact ⟨rfl, rfl, (hwaits hreturned 0).1 1 rfl, hserved hreturned⟩

end WalletEngine.Shutdown
