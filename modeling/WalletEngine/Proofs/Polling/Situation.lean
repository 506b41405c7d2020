import WalletEngine.Polling.Scheduler
import WalletEngine.Proofs.Store.Visits

/-! # A scheduler among others

A scheduler works on a store that others use as well. What it asks for is done at any later time, and
what comes of it reaches the scheduler at any time after that, while ticks, requests and the calls of
others go on. The order is that of a list of happenings, which may be any list.
-/

namespace WalletEngine.Polling

open Scheduler Steps

/-- The handle that a scheduler works with. -/
structure Handle where
  start : String
  store : Store

/-- The place of the store. -/
def Handle.place (handle : Handle) : Disk.Path := Store.placeFrom handle.start handle.store

/-- A scheduler, the disk it works on and what is under way between them. -/
structure Situation where
  disk : Disk
  scheduler : Scheduler
  /-- What the scheduler has asked for and nobody has done yet. -/
  asked : List Effect := []
  /-- Outcomes that the scheduler was not told yet. -/
  back : List Event := []

/-- What reaches a scheduler from outside without being asked for. -/
inductive Signal where
  | refreshTick
  | healthTick
  | request
  | takeRequest
  | stop

/-- The event of a signal. -/
def Signal.event : Signal → Event
  | .refreshTick => .refreshTick
  | .healthTick => .healthTick
  | .request => .request
  | .takeRequest => .takeRequest
  | .stop => .stop

/-- What the ledger and the services say when they are asked. -/
structure Replies where
  balance : Except Ledger.Fault Binary64
  history : Except Ledger.Fault (List Transfer.HistoryEntry)
  overview : Liveness.Overview

/-- What happens in a situation. -/
inductive Happening where
  /-- Somebody else calls a store. -/
  | visit (v : Store.Visit)
  | signal (now : Time.Instant) (signal : Signal)
  /-- Something that the scheduler has asked for is done. -/
  | done (effect : Effect) (moment : Moment) (replies : Replies)
  /-- The scheduler is told one of the outcomes that it was not told yet. -/
  | told (now : Time.Instant) (index : Nat)

/-- Does what a scheduler asks for. -/
def Handle.carryOut (handle : Handle) (moment : Moment) (replies : Replies) (disk : Disk) :
    Effect → Event × Disk
  | .readSnapshot =>
    let found := outcome (handle.store.snapshot (moment.host handle.start)) disk
    (.snapshot found.1.toOption.join, found.2)
  | .fetchBalance _ => (.balance replies.balance, disk)
  | .fetchHistory _ => (.history replies.history, disk)
  | .writeBalance expected balance =>
    let result :=
      outcome (handle.store.setBalance (moment.host handle.start) (some expected) balance) disk
    (.written result.1, result.2)
  | .reload =>
    let found := outcome (handle.store.load (moment.host handle.start)) disk
    (.reloaded found.1.toOption.join, found.2)
  | .probeAll => (.overview replies.overview, disk)

section CarryOut
variable (handle : Handle) (moment : Moment) (replies : Replies) (disk : Disk)

/-- A snapshot is taken of what is stored, and the disk stays as it is. -/
theorem carryOut_readSnapshot : handle.carryOut moment replies disk .readSnapshot =
    (.snapshot ((Store.stored disk handle.place).bind fun i => i.wallet.map (i.version, ·)),
      disk) := by
  simp only [Handle.carryOut, Store.snapshot, bind_pure_comp, Store.disk_of_reading,
    Store.toOption_of_reading, Handle.place]
  cases Store.stored disk (Store.placeFrom handle.start handle.store) <;> rfl

/-- The wallet that is read again is the stored one, and the disk stays as it is. -/
theorem carryOut_reload : handle.carryOut moment replies disk .reload =
    (.reloaded ((Store.stored disk handle.place).bind (·.wallet)), disk) := by
  simp only [Handle.carryOut, Store.load, bind_pure_comp, Store.disk_of_reading,
    Store.toOption_of_reading, Handle.place]
  cases Store.stored disk (Store.placeFrom handle.start handle.store) <;> rfl

/-- The balance of a round is stored as any other handle would store it. -/
theorem carryOut_writeBalance (expected : UInt64) (balance : Binary64) :
    ∃ result, handle.carryOut moment replies disk (.writeBalance expected balance) =
        (.written result, (Store.Visit.run
          ⟨handle.start, handle.store, moment, .setBalance (some expected) balance⟩ disk).2) ∧
      (Store.Visit.run
        ⟨handle.start, handle.store, moment, .setBalance (some expected) balance⟩ disk).1 =
          result.map .updated := by
  simp only [Store.Visit.run, Store.Call.perform, outcome_map, Handle.carryOut]
  exact ⟨_, rfl, rfl⟩

end CarryOut

namespace Situation

/-- Lets an event happen to the scheduler. -/
def tell (s : Situation) (now : Time.Instant) (event : Event) : Situation :=
  { s with
    scheduler := (s.scheduler.step now event).1
    asked := s.asked ++ (s.scheduler.step now event).2 }

/-- The situation after something has happened. -/
def step (handle : Handle) (s : Situation) : Happening → Situation
  | .visit v => { s with disk := (v.run s.disk).2 }
  | .signal now signal => s.tell now signal.event
  | .done effect moment replies =>
    if effect ∈ s.asked then
      { s with
        disk := (handle.carryOut moment replies s.disk effect).2
        asked := s.asked.erase effect
        back := s.back ++ [(handle.carryOut moment replies s.disk effect).1] }
    else s
  | .told now index =>
    match s.back[index]? with
    | some event => { s with back := s.back.eraseIdx index }.tell now event
    | none => s

/-- The situation after everything in a list has happened. -/
def run (handle : Handle) (s : Situation) (happenings : List Happening) : Situation :=
  happenings.foldl (step handle) s

end Situation

theorem run_append (s : Situation) (handle : Handle) (happenings : List Happening)
    (happening : Happening) :
    s.run handle (happenings ++ [happening]) = (s.run handle happenings).step handle happening := by
  rw [Situation.run, List.foldl_append]
  rfl

/-! ## The traffic of a round -/

/-- An effect that concerns the store. -/
def Scheduler.Effect.isStore : Effect → Bool
  | .readSnapshot | .writeBalance .. | .reload => true
  | _ => false

/-- The outcome of an effect that concerns the store. -/
def Scheduler.Event.isStore : Event → Bool
  | .snapshot _ | .written _ | .reloaded _ => true
  | _ => false

/-- What is under way between a scheduler and its store at each stage of a round. `P` holds of the
version that the balance will be written on. -/
inductive Traffic (P : UInt64 → Prop) : Option Stage → List Effect → List Event → Prop
  | idle : Traffic P none [] []
  | toRead : Traffic P (some .reading) [.readSnapshot] []
  | read {found : Option (UInt64 × Wallet)} (h : ∀ p ∈ found, P p.1) :
      Traffic P (some .reading) [] [.snapshot found]
  | fetching {version : UInt64} {address : String}
      {balance : Option (Except Ledger.Fault Binary64)}
      {history : Option (Except Ledger.Fault (List Transfer.HistoryEntry))} (h : P version) :
      Traffic P (some (.fetching version address balance history)) [] []
  | toWrite {version : UInt64} {address : String} {balance : Binary64}
      {history : Option (List Transfer.HistoryEntry)} (h : P version) :
      Traffic P (some (.writing address balance history)) [.writeBalance version balance] []
  | written {address : String} {balance : Binary64}
      {history : Option (List Transfer.HistoryEntry)} {result : Except Store.Fault UInt64} :
      Traffic P (some (.writing address balance history)) [] [.written result]
  | toReload {address : String} {history : Option (List Transfer.HistoryEntry)} :
      Traffic P (some (.reloading address history)) [.reload] []
  | reloaded {address : String} {history : Option (List Transfer.HistoryEntry)}
      {wallet : Option Wallet} :
      Traffic P (some (.reloading address history)) [] [.reloaded wallet]

section Alone
variable {P : UInt64 → Prop} {stage : Option Stage} {asked : List Effect}

/-- An outcome that the scheduler waits for is all that is under way. -/
theorem Traffic.alone_of_back {before behind : List Event} {event : Event}
    (h : Traffic P stage asked (before ++ event :: behind)) :
    asked = [] ∧ before = [] ∧ behind = [] := by
  -- In every stage at most one thing is under way.
  have hlength : asked.length + (before ++ event :: behind).length ≤ 1 := by
    generalize before ++ event :: behind = back at h
    cases h <;> simp
  rw [List.length_append, List.length_cons] at hlength
  refine ⟨List.eq_nil_of_length_eq_zero ?_, List.eq_nil_of_length_eq_zero ?_,
    List.eq_nil_of_length_eq_zero ?_⟩ <;> omega

/-- So is something that the scheduler has asked for. -/
theorem Traffic.alone_of_asked {back : List Event} {effect : Effect}
    (h : Traffic P stage asked back) (hmem : effect ∈ asked) : asked = [effect] ∧ back = [] := by
  cases h with
  | toRead | toWrite | toReload =>
      rw [List.mem_singleton.mp hmem]
      exact ⟨rfl, rfl⟩
  | _ => cases hmem

end Alone

/-- The scheduler is busy exactly during a round, and at most one thing is under way between it and
its store. -/
structure Orderly (P : UInt64 → Prop) (s : Situation) : Prop where
  busy : s.scheduler.flight.busy = s.scheduler.stage.isSome
  traffic : Traffic P s.scheduler.stage (s.asked.filter Effect.isStore)
    (s.back.filter Event.isStore)

/-- A scheduler that has not begun anything. -/
structure IsFresh (s : Situation) : Prop where
  stage : s.scheduler.stage = none
  busy : s.scheduler.flight.busy = false
  asked : s.asked = []
  back : s.back = []

/-! ## Steps of the scheduler -/

/-- What a step of the scheduler leaves and asks for fits what is under way besides. -/
def Fits (P : UInt64 → Prop) (r : Scheduler × List Effect) (asked : List Effect)
    (back : List Event) : Prop :=
  r.1.flight.busy = r.1.stage.isSome ∧
    Traffic P r.1.stage (asked ++ r.2.filter Effect.isStore) back

section Steps
variable {P : UInt64 → Prop} {s : Scheduler} {asked : List Effect} {back : List Event}

theorem fits_nothing (hbusy : s.flight.busy = s.stage.isSome)
    (h : Traffic P s.stage asked back) : Fits P (s, []) asked back :=
  ⟨hbusy, by rwa [List.filter_nil, List.append_nil]⟩

theorem fits_endPass (hbusy : s.flight.busy = true) : Fits P s.endPass [] [] := by
  rw [endPass]
  split
  next => exact ⟨hbusy, .toRead⟩
  next => exact ⟨rfl, .idle⟩

theorem fits_publish (f : Findings) (now : Time.Instant) (hbusy : s.flight.busy = true) :
    Fits P (s.publish f now) [] [] :=
  fits_endPass hbusy

theorem fits_fetched (now : Time.Instant) {version : UInt64} (address : String)
    (balance : Option (Except Ledger.Fault Binary64))
    (history : Option (Except Ledger.Fault (List Transfer.HistoryEntry)))
    (hbusy : s.flight.busy = true) (h : P version) :
    Fits P (s.fetched now version address balance history) [] [] := by
  unfold fetched
  split
  next => exact ⟨hbusy, .toWrite h⟩
  next => exact fits_publish _ _ hbusy
  next => exact ⟨hbusy, .fetching h⟩

theorem fits_refresh (requested : Bool) (hbusy : s.flight.busy = s.stage.isSome)
    (h : Traffic P s.stage asked back) : Fits P (s.refresh requested) asked back := by
  rw [refresh]
  split
  next flight hflight =>
    have hidle : s.flight.busy = false := by
      cases hb : s.flight.busy with
      | false => rfl
      | true => rw [Flight.begin?_eq_none.mpr hb] at hflight; cases hflight
    rw [Flight.begin?, hidle] at hflight
    rw [hidle] at hbusy
    cases hstage : s.stage with
    | some stage => rw [hstage] at hbusy; cases hbusy
    | none =>
        rw [hstage] at h
        cases h
        cases hflight
        exact ⟨rfl, .toRead⟩
  next => exact fits_nothing hbusy h

/-- Before the outcome of something that concerns the store, a round never goes on but when balance
and history have come. -/
theorem fits_step_of_not_isStore (now : Time.Instant) {event : Event}
    (hevent : event.isStore = false) (hbusy : s.flight.busy = s.stage.isSome)
    (h : Traffic P s.stage asked back) : Fits P (s.step now event) asked back := by
  cases event with
  | refreshTick =>
      rw [Scheduler.step]
      split
      next => exact fits_refresh false hbusy h
      next => exact fits_nothing hbusy h
  | healthTick =>
      rw [Scheduler.step]
      split
      next => exact ⟨hbusy, by simpa [Effect.isStore] using h⟩
      next => exact fits_nothing hbusy h
  | request => exact fits_nothing hbusy h
  | takeRequest =>
      rw [Scheduler.step]
      split
      next => exact fits_refresh true hbusy h
      next => exact fits_nothing hbusy h
  | stop => exact fits_nothing hbusy h
  | overview o => exact fits_nothing hbusy h
  | balance result =>
      simp only [Scheduler.step]
      split
      next hstage =>
        rw [hstage] at h hbusy
        cases h with
        | fetching hversion => exact fits_fetched now _ _ _ hbusy hversion
      next => exact fits_nothing hbusy h
  | history result =>
      simp only [Scheduler.step]
      split
      next hstage =>
        rw [hstage] at h hbusy
        cases h with
        | fetching hversion => exact fits_fetched now _ _ _ hbusy hversion
      next => exact fits_nothing hbusy h
  | snapshot found => cases hevent
  | written result => cases hevent
  | reloaded wallet => cases hevent

/-- The outcome of something that concerns the store is followed by one thing more that concerns it,
or by none. -/
theorem fits_step_of_isStore (now : Time.Instant) {event : Event}
    (hbusy : s.flight.busy = s.stage.isSome) (h : Traffic P s.stage [] [event]) :
    Fits P (s.step now event) [] [] := by
  generalize hstage : s.stage = stage at h hbusy
  cases h with
  | @read found hfound =>
      simp only [Scheduler.step, hstage]
      cases found with
      | none => exact fits_endPass hbusy
      | some p => exact ⟨hbusy, .fetching (hfound p rfl)⟩
  | written =>
      simp only [Scheduler.step, hstage]
      split
      next => exact ⟨hbusy, .toReload⟩
      next => exact fits_publish _ now hbusy
  | reloaded =>
      simp only [Scheduler.step, hstage]
      exact fits_publish _ now hbusy

end Steps

/-! ## Steps of a situation -/

/-- A happening in which the stored wallet is read for the scheduler. -/
def Happening.readsSnapshot : Happening → Bool
  | .done .readSnapshot .. => true
  | _ => false

theorem exists_split {α : Type} {l : List α} {k : Nat} {a : α} (h : l[k]? = some a) :
    ∃ before behind, l = before ++ a :: behind ∧ l.eraseIdx k = before ++ behind := by
  obtain ⟨hk, rfl⟩ := List.getElem?_eq_some_iff.mp h
  refine ⟨l.take k, l.drop (k + 1), ?_, List.eraseIdx_eq_take_drop_succ ..⟩
  rw [List.getElem_cons_drop, List.take_append_drop]

theorem isStore_carryOut (handle : Handle) (moment : Moment) (replies : Replies) (disk : Disk)
    (effect : Effect) :
    (handle.carryOut moment replies disk effect).1.isStore = effect.isStore := by
  cases effect <;> rfl

section Orderly
variable {P : UInt64 → Prop} {s : Situation} {handle : Handle}

theorem Orderly.of_isFresh (h : IsFresh s) : Orderly P s where
  busy := by rw [h.busy, h.stage]; rfl
  traffic := by
    rw [h.stage, h.asked, h.back]
    exact .idle

theorem orderly_tell {now : Time.Instant} {event : Event} {asked : List Effect}
    (hasked : s.asked.filter Effect.isStore = asked)
    (h : Fits P (s.scheduler.step now event) asked (s.back.filter Event.isStore)) :
    Orderly P (s.tell now event) where
  busy := h.1
  traffic := by
    have htraffic := h.2
    rw [← hasked, ← List.filter_append] at htraffic
    exact htraffic

/-- The scheduler is told what nobody had to do for it with the store. -/
theorem Orderly.tell (h : Orderly P s) (now : Time.Instant) {event : Event}
    (hevent : event.isStore = false) : Orderly P (s.tell now event) :=
  orderly_tell rfl (fits_step_of_not_isStore now hevent h.busy h.traffic)

/-- The scheduler is told the outcome of something that was done for it. -/
theorem Orderly.told (h : Orderly P s) (now : Time.Instant) (index : Nat) :
    Orderly P (s.step handle (.told now index)) := by
  rw [Situation.step]
  split
  next event hevent =>
    obtain ⟨before, behind, hback, herase⟩ := exists_split hevent
    have htraffic := h.traffic
    rw [hback, List.filter_append] at htraffic
    -- What concerns the store is all that is under way; the rest leaves the traffic as it is.
    cases hstore : event.isStore with
    | true =>
        rw [List.filter_cons_of_pos hstore] at htraffic
        obtain ⟨hasked, hbefore, hbehind⟩ := htraffic.alone_of_back
        rw [hasked, hbefore, hbehind] at htraffic
        refine orderly_tell hasked ?_
        simp only [herase, List.filter_append, hbefore, hbehind]
        exact fits_step_of_isStore now h.busy htraffic
    | false =>
        rw [List.filter_cons_of_neg (by simp [hstore]), ← List.filter_append, ← herase] at htraffic
        have herased : Orderly P { s with back := s.back.eraseIdx index } := ⟨h.busy, htraffic⟩
        exact herased.tell now hstore
  next => exact h

/-- Something that concerns the store is done for the scheduler. -/
theorem orderly_done {Q : UInt64 → Prop} (h : Orderly P s) (moment : Moment) (replies : Replies)
    {effect : Effect} (hmem : effect ∈ s.asked) (hstore : effect.isStore = true)
    (hnext : ∀ stage, Traffic P stage [effect] [] →
      Traffic Q stage [] [(handle.carryOut moment replies s.disk effect).1]) :
    Orderly Q (s.step handle (.done effect moment replies)) := by
  have htraffic := h.traffic
  have hevent := isStore_carryOut handle moment replies s.disk effect
  obtain ⟨hasked, hback⟩ := htraffic.alone_of_asked (List.mem_filter.mpr ⟨hmem, hstore⟩)
  rw [Situation.step, if_pos hmem]
  refine ⟨h.busy, ?_⟩
  rw [hasked, hback] at htraffic
  rw [← List.erase_filter, hasked, List.filter_append, hback, List.filter_cons_of_pos
    (hevent.trans hstore), List.erase_cons_head]
  exact hnext _ htraffic

/-- Something that the scheduler has asked for is done. -/
theorem Orderly.done (h : Orderly P s) (moment : Moment) (replies : Replies) (effect : Effect)
    (hsnapshot : ∀ found, (handle.carryOut moment replies s.disk effect).1 = .snapshot found →
      ∀ p ∈ found, P p.1) : Orderly P (s.step handle (.done effect moment replies)) := by
  by_cases hmem : effect ∈ s.asked
  · cases hstore : effect.isStore with
    -- Only what concerns the store takes its round one stage further.
    | true =>
        refine orderly_done h moment replies hmem hstore fun stage htraffic => ?_
        cases htraffic with
        | toRead => exact .read (hsnapshot _ rfl)
        | toWrite => exact .written
        | toReload => exact .reloaded
    | false =>
        have hevent := isStore_carryOut handle moment replies s.disk effect
        rw [Situation.step, if_pos hmem]
        refine ⟨h.busy, ?_⟩
        have hnot : effect ∉ s.asked.filter Effect.isStore := fun hin => by
          rw [List.mem_filter, hstore] at hin
          cases hin.2
        rw [← List.erase_filter, List.erase_of_not_mem hnot, List.filter_append,
          List.filter_cons_of_neg (by simp [hevent, hstore]), List.filter_nil, List.append_nil]
        exact h.traffic
  · rw [Situation.step, if_neg hmem]
    exact h

/-- A step keeps the traffic in order; only a new snapshot brings a version that `P` must hold of. -/
theorem Orderly.step (h : Orderly P s) {happening : Happening}
    (hnot : happening.readsSnapshot = false) : Orderly P (s.step handle happening) := by
  cases happening with
  | visit v => exact ⟨h.busy, h.traffic⟩
  | signal now signal => exact h.tell now (by cases signal <;> rfl)
  | told now index => exact h.told now index
  | done effect moment replies =>
      refine h.done moment replies effect ?_
      cases effect with
      | readSnapshot => cases hnot
      | _ => rintro found ⟨⟩

end Orderly

end WalletEngine.Polling
