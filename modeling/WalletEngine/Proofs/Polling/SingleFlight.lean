import WalletEngine.Proofs.Polling.Rounds

/-! # One wallet round at a time

A wallet round holds the guard of its flight until nobody has asked for one more pass. So at most one
round is on its way, ticks that come meanwhile are lost, and requests that come meanwhile are not:
whenever no round is on its way, each request that was taken has been followed by a reading of the
stored wallet that was asked for no earlier than the request was taken.
-/

namespace WalletEngine.Polling

open Scheduler Steps

/-! ## The calls of a round -/

/-- A call that a wallet round makes. -/
inductive Errand where
  | snapshot
  | balance
  | history
  | write
  | reload
  deriving DecidableEq

/-- The call of a wallet round that an effect asks for. -/
def Scheduler.Effect.errand? : Effect → Option Errand
  | .readSnapshot => some .snapshot
  | .fetchBalance _ => some .balance
  | .fetchHistory _ => some .history
  | .writeBalance .. => some .write
  | .reload => some .reload
  | .probeAll => none

/-- The call of a wallet round that an event is the outcome of. -/
def Scheduler.Event.errand? : Event → Option Errand
  | .snapshot _ => some .snapshot
  | .balance _ => some .balance
  | .history _ => some .history
  | .written _ => some .write
  | .reloaded _ => some .reload
  | _ => none

/-- The calls that a round waits for. -/
def Stage.errands : Stage → List Errand
  | .reading => [.snapshot]
  | .fetching _ _ balance history =>
    (if balance.isNone then [.balance] else []) ++ if history.isNone then [.history] else []
  | .writing .. => [.write]
  | .reloading .. => [.reload]

/-- The calls that a scheduler waits for. -/
def Scheduler.awaited (s : Scheduler) : List Errand := s.stage.elim [] Stage.errands

/-- The calls of wallet rounds that were asked for and that the scheduler was not told of yet. -/
def Situation.underWay (s : Situation) : List Errand :=
  s.asked.filterMap Effect.errand? ++ s.back.filterMap Event.errand?

theorem nodup_errands (stage : Stage) : stage.errands.Nodup := by
  cases stage with
  | fetching version address balance history =>
      cases balance <;> cases history <;> simp [Stage.errands]
  | _ => exact List.nodup_singleton _

theorem nodup_awaited (s : Scheduler) : s.awaited.Nodup := by
  rw [awaited]
  cases s.stage with
  | none => exact List.nodup_nil
  | some stage => exact nodup_errands stage

/-- A stage and an outcome of one of the calls that it waits for. -/
inductive Awaits : Stage → Event → Prop
  | snapshot {found : Option (UInt64 × Wallet)} : Awaits .reading (.snapshot found)
  | balance {version : UInt64} {address : String}
      {history : Option (Except Ledger.Fault (List Transfer.HistoryEntry))}
      {result : Except Ledger.Fault Binary64} :
      Awaits (.fetching version address none history) (.balance result)
  | history {version : UInt64} {address : String}
      {balance : Option (Except Ledger.Fault Binary64)}
      {result : Except Ledger.Fault (List Transfer.HistoryEntry)} :
      Awaits (.fetching version address balance none) (.history result)
  | written {address : String} {balance : Binary64}
      {history : Option (List Transfer.HistoryEntry)} {result : Except Store.Fault UInt64} :
      Awaits (.writing address balance history) (.written result)
  | reloaded {address : String} {history : Option (List Transfer.HistoryEntry)}
      {wallet : Option Wallet} : Awaits (.reloading address history) (.reloaded wallet)

theorem awaits_of_mem {stage : Stage} {event : Event} {errand : Errand}
    (hevent : event.errand? = some errand) (hmem : errand ∈ stage.errands) :
    Awaits stage event := by
  cases event <;> cases hevent <;> cases stage with
  | fetching version address balance history =>
      cases balance <;> cases history <;> simp [Stage.errands] at hmem <;> constructor
  | _ => cases List.mem_singleton.mp hmem <;> constructor

/-! ## Steps of the scheduler -/

/-- One guard is out during a round and none otherwise, and only a round is to run once more. -/
structure Scheduler.IsGuarded (s : Scheduler) : Prop where
  flight : s.flight = ⟨s.stage.isSome, s.stage.isSome.toNat⟩
  rerun : s.rerun = true → s.stage.isSome = true

/-- A step after which the scheduler waits for what is left and for what it asks for now. -/
structure Follows (left : List Errand) (r : Scheduler × List Effect) : Prop where
  guarded : r.1.IsGuarded
  awaited : r.1.awaited.Perm (left ++ r.2.filterMap Effect.errand?)

section Steps
variable {s : Scheduler}

theorem follows_nothing (h : s.IsGuarded) : Follows s.awaited (s, []) :=
  ⟨h, by rw [List.filterMap_nil, List.append_nil]⟩

theorem follows_endPass (hflight : s.flight = ⟨true, 1⟩) : Follows [] s.endPass := by
  rw [endPass]
  split
  next => exact ⟨⟨hflight, fun _ => rfl⟩, .refl _⟩
  next hrerun => exact ⟨⟨by rw [hflight]; rfl, fun h => absurd h hrerun⟩, .refl _⟩

theorem follows_publish (f : Findings) (now : Time.Instant) (hflight : s.flight = ⟨true, 1⟩) :
    Follows [] (s.publish f now) :=
  follows_endPass hflight

theorem follows_fetched (now : Time.Instant) (version : UInt64) (address : String)
    (balance : Option (Except Ledger.Fault Binary64))
    (history : Option (Except Ledger.Fault (List Transfer.HistoryEntry)))
    (hflight : s.flight = ⟨true, 1⟩) :
    Follows (Stage.fetching version address balance history).errands
      (s.fetched now version address balance history) := by
  unfold fetched
  split
  next => exact ⟨⟨hflight, fun _ => rfl⟩, .refl _⟩
  next => exact follows_publish _ _ hflight
  next => exact ⟨⟨hflight, fun _ => rfl⟩, by rw [List.filterMap_nil, List.append_nil]; exact .refl _⟩

theorem follows_refresh (requested : Bool) (h : s.IsGuarded) :
    Follows s.awaited (s.refresh requested) := by
  rw [refresh, h.flight, Flight.begin?, Scheduler.awaited]
  cases hstage : s.stage with
  | none => exact ⟨⟨rfl, fun _ => rfl⟩, .refl _⟩
  | some stage =>
      refine ⟨⟨?_, fun _ => ?_⟩, ?_⟩
      · simp
      · simp
      · simp [Scheduler.awaited]

/-- The flight of a scheduler in a round. -/
theorem Scheduler.IsGuarded.flight_of_stage (h : s.IsGuarded) {stage : Stage}
    (hstage : s.stage = some stage) : s.flight = ⟨true, 1⟩ := by
  rw [h.flight, hstage]
  rfl

/-- An event that is the outcome of no call of a round leaves what the scheduler waits for. -/
theorem follows_step_of_none (now : Time.Instant) {event : Event} (hevent : event.errand? = none)
    (h : s.IsGuarded) : Follows s.awaited (s.step now event) := by
  cases event with
  | refreshTick =>
      rw [Scheduler.step]
      split
      next => exact follows_refresh false h
      next => exact follows_nothing h
  | healthTick =>
      rw [Scheduler.step]
      split
      next => exact ⟨⟨h.flight, h.rerun⟩, (follows_nothing h).awaited⟩
      next => exact follows_nothing h
  | request => exact ⟨⟨h.flight, h.rerun⟩, (follows_nothing h).awaited⟩
  | takeRequest =>
      rw [Scheduler.step]
      split
      next =>
        have htaken : IsGuarded { s with permit := false } := ⟨h.flight, h.rerun⟩
        exact follows_refresh true htaken
      next => exact follows_nothing h
  | stop => exact ⟨⟨h.flight, h.rerun⟩, (follows_nothing h).awaited⟩
  | overview o => exact ⟨⟨h.flight, h.rerun⟩, (follows_nothing h).awaited⟩
  | _ => cases hevent

/-- The scheduler does not wait any longer for a call whose outcome has come. -/
theorem follows_step_of_some (now : Time.Instant) {event : Event} {errand : Errand}
    (hevent : event.errand? = some errand) (hmem : errand ∈ s.awaited) (h : s.IsGuarded) :
    Follows (s.awaited.erase errand) (s.step now event) := by
  rw [awaited] at hmem ⊢
  cases hstage : s.stage with
  | none => rw [hstage] at hmem; cases hmem
  | some stage =>
      have hflight := h.flight_of_stage hstage
      rw [hstage] at hmem
      have hawaits := awaits_of_mem hevent hmem
      cases hawaits with
      | @snapshot found =>
          cases hevent
          simp only [Scheduler.step, hstage]
          cases found with
          | none => exact follows_endPass hflight
          | some p => exact ⟨⟨hflight, fun _ => rfl⟩, .refl _⟩
      | @balance version address history result =>
          cases hevent
          simp only [Scheduler.step, hstage]
          exact follows_fetched now version address (some result) history hflight
      | @history version address balance result =>
          cases hevent
          simp only [Scheduler.step, hstage]
          have hfetched := follows_fetched now version address balance (some result) hflight
          cases balance <;> exact hfetched
      | written =>
          cases hevent
          simp only [Scheduler.step, hstage]
          split
          next => exact ⟨⟨hflight, fun _ => rfl⟩, .refl _⟩
          next => exact follows_publish _ now hflight
      | reloaded =>
          cases hevent
          simp only [Scheduler.step, hstage]
          exact follows_publish _ now hflight

end Steps

/-! ## Steps of a situation -/

/-- The scheduler has a guard out exactly during a round, and what is under way is what it waits
for. -/
structure SingleFlight (s : Situation) : Prop where
  guarded : s.scheduler.IsGuarded
  underWay : s.underWay.Perm s.scheduler.awaited

/-- A scheduler that was just started, showing something. -/
def Situation.started (disk : Disk) (panel : Panel) : Situation :=
  { disk, scheduler := { panel } }

theorem errand?_carryOut (handle : Handle) (moment : Moment) (replies : Replies) (disk : Disk)
    (effect : Effect) :
    (handle.carryOut moment replies disk effect).1.errand? = effect.errand? := by
  cases effect <;> rfl

section Situations
variable {s : Situation} {handle : Handle}

theorem singleFlight_started (disk : Disk) (panel : Panel) :
    SingleFlight (.started disk panel) :=
  ⟨⟨rfl, by rintro ⟨⟩⟩, .refl _⟩

/-- The scheduler is told something while `left` is under way besides. -/
theorem singleFlight_tell {now : Time.Instant} {event : Event} {left : List Errand}
    (hleft : s.underWay.Perm left) (h : Follows left (s.scheduler.step now event)) :
    SingleFlight (s.tell now event) where
  guarded := h.guarded
  underWay := by
    refine List.Perm.trans ?_ h.awaited.symm
    rw [List.perm_iff_count] at hleft ⊢
    intro errand
    have hcount := hleft errand
    simp only [Situation.underWay, Situation.tell, List.filterMap_append, List.count_append]
      at hcount ⊢
    omega

theorem SingleFlight.tell (h : SingleFlight s) (now : Time.Instant) {event : Event}
    (hevent : event.errand? = none) : SingleFlight (s.tell now event) :=
  singleFlight_tell h.underWay (follows_step_of_none now hevent h.guarded)

theorem SingleFlight.told (h : SingleFlight s) (now : Time.Instant) (index : Nat) :
    SingleFlight (s.step handle (.told now index)) := by
  rw [Situation.step]
  split
  next event hevent =>
    obtain ⟨before, behind, hback, herase⟩ := exists_split hevent
    have hunderWay := h.underWay
    rw [Situation.underWay, hback, List.filterMap_append] at hunderWay
    cases herrand : event.errand? with
    | none =>
        rw [List.filterMap_cons_none herrand, ← List.filterMap_append, ← herase] at hunderWay
        have herased : SingleFlight { s with back := s.back.eraseIdx index } :=
          ⟨h.guarded, hunderWay⟩
        exact herased.tell now herrand
    | some errand =>
        rw [List.filterMap_cons_some herrand] at hunderWay
        have hmem : errand ∈ s.scheduler.awaited :=
          hunderWay.subset (by simp)
        refine singleFlight_tell ?_ (follows_step_of_some now herrand hmem h.guarded)
        rw [Situation.underWay, herase, List.filterMap_append]
        rw [List.perm_iff_count] at hunderWay ⊢
        intro other
        have hcount := hunderWay other
        simp only [List.count_append, List.count_cons, List.count_erase] at hcount ⊢
        omega
  next => exact h

theorem SingleFlight.done (h : SingleFlight s) (effect : Effect) (moment : Moment)
    (replies : Replies) : SingleFlight (s.step handle (.done effect moment replies)) := by
  rw [Situation.step]
  split
  next hmem =>
    refine ⟨h.guarded, List.Perm.trans ?_ h.underWay⟩
    have hasked := (List.perm_cons_erase hmem).filterMap Effect.errand?
    rw [List.perm_iff_count] at hasked ⊢
    intro errand
    have hcount := hasked errand
    simp only [Situation.underWay, List.filterMap_append, List.count_append, List.filterMap_cons,
      errand?_carryOut] at hcount ⊢
    cases herrand : effect.errand? with
    | none =>
        simp only [herrand, List.filterMap_nil, List.count_nil] at hcount ⊢
        omega
    | some own =>
        simp only [herrand, List.filterMap_nil, List.count_nil, List.count_cons] at hcount ⊢
        omega
  next => exact h

theorem SingleFlight.step (h : SingleFlight s) (happening : Happening) :
    SingleFlight (s.step handle happening) := by
  cases happening with
  | visit v => exact ⟨h.guarded, h.underWay⟩
  | signal now signal => exact h.tell now (by cases signal <;> rfl)
  | done effect moment replies => exact h.done effect moment replies
  | told now index => exact h.told now index

theorem SingleFlight.run (h : SingleFlight s) (happenings : List Happening) :
    SingleFlight (s.run handle happenings) := by
  induction happenings generalizing s with
  | nil => exact h
  | cons happening rest ih => exact ih (h.step happening)

/-! ## Requests -/

/-- The loop takes a request. -/
def Situation.Takes (s : Situation) (happening : Happening) : Prop :=
  ∃ now, happening = .signal now .takeRequest ∧ s.scheduler.looping = true ∧
    s.scheduler.permit = true

/-- The scheduler asks for the stored wallet, for which it has not asked before. -/
def Situation.Asks (handle : Handle) (s : Situation) (happening : Happening) : Prop :=
  .readSnapshot ∉ s.asked ∧ .readSnapshot ∈ (s.step handle happening).asked

/-- The stored wallet is read for the scheduler. -/
def Situation.Reads (s : Situation) (happening : Happening) : Prop :=
  happening.readsSnapshot = true ∧ .readSnapshot ∈ s.asked

/-- Among the happenings there is one in which the scheduler asks for the stored wallet, and a later
one in which the wallet is read. -/
def Situation.ReadsAnew (handle : Handle) (s : Situation) (happenings : List Happening) : Prop :=
  ∃ wait ask between read rest, happenings = wait ++ ask :: (between ++ read :: rest) ∧
    (s.run handle wait).Asks handle ask ∧ (s.run handle (wait ++ ask :: between)).Reads read

/-- What has become of a request that was taken in the first of some happenings. -/
inductive Due (handle : Handle) (s : Situation) (happenings : List Happening) : Prop
  /-- The round on its way will run once more. -/
  | rerun (hrerun : (s.run handle happenings).scheduler.rerun = true)
  /-- The stored wallet was asked for since then, and not read yet. -/
  | asked (wait between : List Happening) (ask : Happening)
      (hsplit : happenings = wait ++ ask :: between) (hasks : (s.run handle wait).Asks handle ask)
      (hasked : .readSnapshot ∈ (s.run handle happenings).asked)
  | read (hread : s.ReadsAnew handle happenings)

theorem rerun_endPass {r : Scheduler} (h : r.rerun = true) :
    r.endPass.1.rerun = true ∨ .readSnapshot ∈ r.endPass.2 := by
  rw [endPass, if_pos h]
  exact .inr (List.mem_singleton_self _)

theorem rerun_fetched {r : Scheduler} (now : Time.Instant) (version : UInt64) (address : String)
    (balance : Option (Except Ledger.Fault Binary64))
    (history : Option (Except Ledger.Fault (List Transfer.HistoryEntry))) (h : r.rerun = true) :
    (r.fetched now version address balance history).1.rerun = true ∨
      .readSnapshot ∈ (r.fetched now version address balance history).2 := by
  unfold fetched
  split
  next => exact .inl h
  next => exact rerun_endPass h
  next => exact .inl h

theorem rerun_refresh {r : Scheduler} (requested : Bool) (h : requested = true ∨ r.rerun = true) :
    (r.refresh requested).1.rerun = true ∨ .readSnapshot ∈ (r.refresh requested).2 := by
  rw [refresh]
  split
  next => exact .inr (List.mem_singleton_self _)
  next =>
    left
    rcases h with rfl | hrerun
    · exact Bool.or_true _
    · exact (congrArg (· || requested) hrerun).trans (Bool.true_or _)

/-- A pass that is to run once more is given up for none but a new one. -/
theorem rerun_step {r : Scheduler} (now : Time.Instant) (event : Event) (h : r.rerun = true) :
    (r.step now event).1.rerun = true ∨ .readSnapshot ∈ (r.step now event).2 := by
  cases event with
  | refreshTick =>
      rw [Scheduler.step]
      split
      next => exact rerun_refresh false (.inr h)
      next => exact .inl h
  | takeRequest =>
      rw [Scheduler.step]
      split
      next => exact rerun_refresh true (.inl rfl)
      next => exact .inl h
  | healthTick =>
      rw [Scheduler.step]
      split <;> exact .inl h
  | snapshot found =>
      simp only [Scheduler.step]
      split
      next => exact .inl h
      next => exact rerun_endPass h
      next => exact .inl h
  | balance result =>
      simp only [Scheduler.step]
      split
      next => exact rerun_fetched now _ _ _ _ h
      next => exact .inl h
  | history result =>
      simp only [Scheduler.step]
      split
      next => exact rerun_fetched now _ _ _ _ h
      next => exact .inl h
  | written result =>
      simp only [Scheduler.step]
      split
      next =>
        split
        next => exact .inl h
        next => exact rerun_endPass h
      next => exact .inl h
  | reloaded wallet =>
      simp only [Scheduler.step]
      split
      next => exact rerun_endPass h
      next => exact .inl h
  | _ => exact .inl h

/-- The stored wallet is not asked for while it was asked for already. -/
theorem notMem_asked (h : SingleFlight s) {asked : List Effect} {effects : List Effect}
    (hasked : s.asked = asked ++ effects) (hmem : .readSnapshot ∈ effects) :
    .readSnapshot ∉ asked := by
  intro hold
  have hnodup := h.underWay.nodup_iff.mpr (nodup_awaited _)
  rw [Situation.underWay, hasked, List.filterMap_append, List.append_assoc] at hnodup
  have hsnapshot : ∀ {effects : List Effect}, .readSnapshot ∈ effects →
      Errand.snapshot ∈ effects.filterMap Effect.errand? :=
    fun h => List.mem_filterMap.mpr ⟨_, h, rfl⟩
  exact (List.nodup_append.mp hnodup).2.2 _ (hsnapshot hold) _
    (List.mem_append_left _ (hsnapshot hmem)) rfl

/-- When the scheduler is told something, a pass that is to run once more still is or is begun. -/
theorem due_tell {now : Time.Instant} {event : Event} (h : SingleFlight (s.tell now event))
    (hstep : (s.scheduler.step now event).1.rerun = true ∨
      .readSnapshot ∈ (s.scheduler.step now event).2) :
    (s.tell now event).scheduler.rerun = true ∨
      .readSnapshot ∉ s.asked ∧ .readSnapshot ∈ (s.tell now event).asked :=
  hstep.imp_right fun hmem => ⟨notMem_asked h rfl hmem, List.mem_append_right _ hmem⟩

theorem due_of_rerun (h : SingleFlight s) (hrerun : s.scheduler.rerun = true)
    (happening : Happening) :
    (s.step handle happening).scheduler.rerun = true ∨ s.Asks handle happening := by
  have hnext : SingleFlight (s.step handle happening) := h.step happening
  rw [Situation.Asks]
  cases happening with
  | visit v => exact .inl hrerun
  | signal now signal => exact due_tell hnext (rerun_step now _ hrerun)
  | done effect moment replies =>
      left
      rw [Situation.step]
      split <;> exact hrerun
  | told now index =>
      cases hevent : s.back[index]? with
      | some event =>
          simp only [Situation.step, hevent] at hnext ⊢
          exact due_tell hnext (rerun_step now event hrerun)
      | none =>
          simp only [Situation.step, hevent]
          exact .inl hrerun

/-- A request that is taken begins a round or has the round on its way run once more. -/
theorem due_of_takes (h : SingleFlight s) {take : Happening} (htakes : s.Takes take) :
    (s.step handle take).scheduler.rerun = true ∨ s.Asks handle take := by
  obtain ⟨now, rfl, hlooping, hpermit⟩ := htakes
  have hnext : SingleFlight (s.step handle (.signal now .takeRequest)) := h.step _
  refine due_tell hnext ?_
  rw [Signal.event, Scheduler.step, if_pos (by rw [hlooping, hpermit]; rfl)]
  exact rerun_refresh true (.inl rfl)

/-- What was asked for is still asked for until it is read. -/
theorem due_of_asked (hasked : .readSnapshot ∈ s.asked) (happening : Happening) :
    .readSnapshot ∈ (s.step handle happening).asked ∨ s.Reads happening := by
  cases happening with
  | visit v => exact .inl hasked
  | signal now signal => exact .inl (List.mem_append_left _ hasked)
  | told now index =>
      left
      rw [Situation.step]
      split
      next => exact List.mem_append_left _ hasked
      next => exact hasked
  | done effect moment replies =>
      by_cases heffect : effect = .readSnapshot
      · subst heffect
        exact .inr ⟨rfl, hasked⟩
      · left
        rw [Situation.step]
        split
        next => exact (List.mem_erase_of_ne (Ne.symm heffect)).mpr hasked
        next => exact hasked

/-- A request that was taken is not forgotten, whatever happens. -/
theorem due_run (h : SingleFlight s) {take : Happening} (htakes : s.Takes take)
    (behind : List Happening) : Due handle s (take :: behind) := by
  induction behind using List.reverseRecOn with
  | nil =>
      rcases due_of_takes h htakes with hrerun | hasks
      · exact .rerun hrerun
      · exact .asked [] [] take rfl hasks hasks.2
  | append_singleton behind happening ih =>
      rw [← List.cons_append]
      generalize take :: behind = happenings at ih ⊢
      cases ih with
      | rerun hrerun =>
          rcases due_of_rerun (h.run happenings) hrerun happening with hnext | hasks
          · exact .rerun (by rwa [run_append])
          · exact .asked happenings [] happening rfl hasks (by rw [run_append]; exact hasks.2)
      | asked wait between ask hsplit hasks hasked =>
          rcases due_of_asked hasked happening with hnext | hreads
          · exact .asked wait (between ++ [happening]) ask (by rw [hsplit]; simp) hasks
              (by rwa [run_append])
          · exact .read ⟨wait, ask, between, happening, [], by rw [hsplit]; simp, hasks,
              hsplit ▸ hreads⟩
      | read hread =>
          obtain ⟨wait, ask, between, read, rest, hsplit, hasks, hreads⟩ := hread
          exact .read ⟨wait, ask, between, read, rest ++ [happening], by rw [hsplit]; simp, hasks,
            hreads⟩

/-- When no round is on its way, a request that was taken has been followed by a new reading. -/
theorem readsAnew_of_idle (h : SingleFlight s) {take : Happening} (htakes : s.Takes take)
    {behind : List Happening}
    (hidle : (s.run handle (take :: behind)).scheduler.stage = none) :
    s.ReadsAnew handle (take :: behind) := by
  have hlast : SingleFlight (s.run handle (take :: behind)) := h.run _
  cases due_run h htakes behind with
  | rerun hrerun =>
      have hstage := hlast.guarded.rerun hrerun
      rw [hidle] at hstage
      cases hstage
  | asked wait between ask hsplit hasks hasked =>
      have hunderWay := hlast.underWay
      rw [Scheduler.awaited, hidle] at hunderWay
      have hmem : Errand.snapshot ∈ (s.run handle (take :: behind)).underWay :=
        List.mem_append_left _ (List.mem_filterMap.mpr ⟨_, hasked, rfl⟩)
      rw [hunderWay.eq_nil] at hmem
      cases hmem
  | read hread => exact hread

end Situations

/-- How many wallet rounds are on their way; each of them holds a guard. -/
def Situation.rounds (s : Situation) : Nat := s.scheduler.flight.guards

theorem SingleFlight.stage_of_rounds {s : Situation} (h : SingleFlight s) :
    (s.rounds = 0 ↔ s.scheduler.stage = none) ∧ s.rounds ≤ 1 := by
  rw [Situation.rounds, h.guarded.flight]
  cases s.scheduler.stage <;> simp

/-- A tick during a round is lost. -/
theorem SingleFlight.tick_of_rounds {s : Situation} {handle : Handle} (h : SingleFlight s)
    (hbusy : s.rounds = 1) (now : Time.Instant) :
    s.step handle (.signal now .refreshTick) = s := by
  have hflight : s.scheduler.flight.busy = true := by
    rw [Situation.rounds, h.guarded.flight] at hbusy
    rw [h.guarded.flight]
    exact Bool.toNat_eq_one.mp hbusy
  have hstep : s.scheduler.step now .refreshTick = (s.scheduler, []) := by
    rw [Scheduler.step, refresh, Flight.begin?_eq_none.mpr hflight, Bool.or_false, ite_self]
  rw [Situation.step, Signal.event, Situation.tell, hstep, List.append_nil]

/-- A scheduler that was started has at most one wallet round on its way, whatever happens in
whatever order: one guard is out at most, and the calls under way are those that one round waits for.
A tick during a round changes nothing. When no round is on its way nothing of one is under way, no
round is to run once more, and each request that the loop has taken was followed by a reading of the
stored wallet that was asked for when the request was taken or later. -/
theorem single_flight (handle : Handle) (disk : Disk) (panel : Panel)
    (happenings : List Happening) :
    let s := (Situation.started disk panel).run handle happenings
    (s.rounds ≤ 1 ∧ s.underWay.Perm s.scheduler.awaited) ∧
    (s.rounds = 1 → ∀ now, s.step handle (.signal now .refreshTick) = s) ∧
    (s.rounds = 0 → s.underWay = [] ∧ s.scheduler.rerun = false ∧
      ∀ before take behind, happenings = before ++ take :: behind →
        ((Situation.started disk panel).run handle before).Takes take →
        ((Situation.started disk panel).run handle before).ReadsAnew handle (take :: behind)) := by
  intro s
  have hsingle : SingleFlight s := (singleFlight_started disk panel).run happenings
  obtain ⟨hrounds, hone⟩ := hsingle.stage_of_rounds
  refine ⟨⟨hone, hsingle.underWay⟩, fun hbusy now => ?_, fun hidle => ?_⟩
  · exact hsingle.tick_of_rounds hbusy now
  · have hstage := hrounds.mp hidle
    refine ⟨?_, ?_, fun before take behind hsplit htakes => ?_⟩
    · have hunderWay := hsingle.underWay
      rw [Scheduler.awaited, hstage] at hunderWay
      exact hunderWay.eq_nil
    · rw [Bool.eq_false_iff]
      intro hrerun
      have hround := hsingle.guarded.rerun hrerun
      rw [hstage] at hround
      cases hround
    · refine readsAnew_of_idle ((singleFlight_started disk panel).run before) htakes ?_
      rw [← hstage, Situation.run, Situation.run, ← List.foldl_append, ← hsplit]
      rfl

/-! ## A request during a round -/

section Sample
open Store (emptyDisk)

/-- There is no wallet in a directory that nobody has used. -/
theorem carryOut_emptyDisk (moment : Moment) :
    sampleHandle.carryOut moment sampleReplies emptyDisk .readSnapshot =
      (.snapshot none, emptyDisk) := by
  rw [carryOut_readSnapshot, place_sampleHandle,
    (Store.stable_of_isEmptyPlace Store.isEmptyPlace_emptyDisk).stored]
  rfl

/-- A tick begins a round, and somebody asks for a refresh. -/
def sampleAsking : List Happening := [.signal .epoch .refreshTick, .signal .epoch .request]

/-- The time of everything. -/
def sampleMoment : Moment := (Store.sampleVisit .snapshot).moment

/-- The wallet is read, and the scheduler is told. -/
def sampleReading : List Happening := [.done .readSnapshot sampleMoment sampleReplies, .told .epoch 0]

/-- The request is taken while the round reads, so the round reads twice. -/
def sampleRereading : List Happening :=
  .signal .epoch .takeRequest :: (sampleReading ++ sampleReading)

/-- A scheduler on a disk without a wallet is told that there is none. -/
theorem run_sampleReading {scheduler : Scheduler} :
    Situation.run sampleHandle { disk := emptyDisk, scheduler, asked := [.readSnapshot] }
      sampleReading =
    { disk := emptyDisk, scheduler := (scheduler.step .epoch (.snapshot none)).1,
      asked := (scheduler.step .epoch (.snapshot none)).2 } := by
  simp only [sampleReading, Situation.run, List.foldl_cons, List.foldl_nil, Situation.step,
    List.mem_singleton, if_true, carryOut_emptyDisk]
  rfl

theorem rounds_sampleRereading :
    ((Situation.started emptyDisk {}).run sampleHandle (sampleAsking ++ sampleRereading)).rounds =
      0 := by
  let busy : Scheduler :=
    { panel := {}, flight := ⟨true, 1⟩, rerun := true, stage := some .reading }
  have hrun : (Situation.started emptyDisk {}).run sampleHandle
      (sampleAsking ++ sampleRereading) =
    Situation.run sampleHandle { disk := emptyDisk, scheduler := busy, asked := [.readSnapshot] }
      (sampleReading ++ sampleReading) := rfl
  rw [hrun, Situation.run, List.foldl_append, ← Situation.run, ← Situation.run, run_sampleReading]
  exact congrArg Situation.rounds run_sampleReading

/-- A request that was taken during a round has the wallet read anew. -/
theorem single_flight_sample :
    let s := (Situation.started emptyDisk {}).run sampleHandle sampleAsking
    s.rounds = 1 ∧ s.ReadsAnew sampleHandle sampleRereading := by
  intro s
  have hidle := (single_flight sampleHandle emptyDisk {}
    (sampleAsking ++ sampleRereading)).2.2 rounds_sampleRereading
  exact ⟨rfl, hidle.2.2 sampleAsking _ _ rfl ⟨.epoch, rfl, rfl, rfl⟩⟩

end Sample

end WalletEngine.Polling
