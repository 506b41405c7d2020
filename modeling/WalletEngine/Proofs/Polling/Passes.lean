import WalletEngine.Proofs.Polling.SingleFlight

/-! # The passes of a wallet round

A wallet round makes one pass after the other, each from reading the stored wallet to showing what
was found. Its calls come back in any order and after any time, and meanwhile others may leave the
disk in any state. When a pass is over, and what it shows then, is known from what its calls came
to.
-/

namespace WalletEngine.Polling

open Scheduler

/-- What happens while others do with the disk what they like. -/
inductive Incident where
  | usual (happening : Happening)
  /-- Others leave the disk like this. -/
  | meddled (disk : Disk)

/-- An incident among some and one more is this one or was among them before. -/
theorem front_cases {part since : List Incident} {j i : Incident}
    (h : part ++ [j] <+: since ++ [i]) : (part = since ∧ j = i) ∨ part ++ [j] <+: since := by
  rcases List.prefix_concat_iff.mp h with hlast | hfront
  · obtain ⟨hpart, hj⟩ := List.append_inj' hlast rfl
    exact .inl ⟨hpart, List.singleton_inj.mp hj⟩
  · exact .inr hfront

/-- What was to be found among some incidents and one more was among them, or is this one. -/
theorem exists_front_snoc {since : List Incident} {i : Incident}
    {P : List Incident → Incident → Prop} :
    (∃ part j, part ++ [j] <+: since ++ [i] ∧ P part j) ↔
      (∃ part j, part ++ [j] <+: since ∧ P part j) ∨ P since i := by
  constructor
  · rintro ⟨part, j, hfront, h⟩
    rcases front_cases hfront with ⟨rfl, rfl⟩ | hfront
    · exact .inr h
    · exact .inl ⟨part, j, hfront, h⟩
  · rintro (⟨part, j, hfront, h⟩ | h)
    · exact ⟨part, j, hfront.trans (List.prefix_append ..), h⟩
    · exact ⟨since, i, List.prefix_rfl, h⟩

namespace Situation

/-- The situation after an incident. -/
def meet (handle : Handle) (s : Situation) : Incident → Situation
  | .usual happening => s.step handle happening
  | .meddled disk => { s with disk }

/-- The situation after some incidents. -/
def undergo (handle : Handle) (s : Situation) (incidents : List Incident) : Situation :=
  incidents.foldl (meet handle) s

/-- What the scheduler is told, and when. -/
def hears? (s : Situation) : Incident → Option (Time.Instant × Event)
  | .usual (.signal now signal) => some (now, signal.event)
  | .usual (.told now index) => (s.back[index]?).map (now, ·)
  | _ => none

/-- What the scheduler asks for then. -/
def orders (s : Situation) (i : Incident) : List Effect :=
  (s.hears? i).elim [] fun (now, event) => (s.scheduler.step now event).2

/-- The scheduler begins a pass of a wallet round. -/
def Begins (s : Situation) (i : Incident) : Prop := .readSnapshot ∈ s.orders i

/-- The scheduler shows something that is no overview, so it shows what a wallet round has found. -/
def Publishes (handle : Handle) (s : Situation) (i : Incident) : Prop :=
  (s.meet handle i).scheduler.shown = s.scheduler.shown + 1 ∧
    ∀ now o, s.hears? i ≠ some (now, .overview o)

variable (handle : Handle) (s : Situation)

theorem undergo_append (first second : List Incident) :
    s.undergo handle (first ++ second) = (s.undergo handle first).undergo handle second :=
  List.foldl_append

theorem undergo_snoc (incidents : List Incident) (i : Incident) :
    s.undergo handle (incidents ++ [i]) = (s.undergo handle incidents).meet handle i :=
  undergo_append ..

theorem scheduler_meet (i : Incident) :
    (s.meet handle i).scheduler = (s.hears? i).elim s.scheduler fun (now, event) =>
      (s.scheduler.step now event).1 := by
  cases i with
  | meddled disk => rfl
  | usual happening =>
      cases happening with
      | visit v => rfl
      | signal now signal => rfl
      | told now index =>
          simp only [meet, step, hears?]
          cases s.back[index]? <;> rfl
      | done effect moment replies =>
          simp only [meet, step, hears?]
          split <;> rfl

/-- What is asked for was asked for before, or is asked for now. -/
theorem mem_asked_meet {effect : Effect} {i : Incident} (h : effect ∈ (s.meet handle i).asked) :
    effect ∈ s.asked ∨ effect ∈ s.orders i := by
  cases i with
  | meddled disk => exact .inl h
  | usual happening =>
      cases happening with
      | visit v => exact .inl h
      | signal now signal => exact List.mem_append.mp h
      | told now index =>
          simp only [meet, step] at h
          simp only [orders, hears?]
          cases hback : s.back[index]? with
          | none =>
              rw [hback] at h
              exact .inl h
          | some event =>
              rw [hback] at h
              exact List.mem_append.mp h
      | done effect moment replies =>
          simp only [meet, step] at h
          split at h
          next => exact .inl (List.mem_of_mem_erase h)
          next => exact .inl h

end Situation

section Flights
variable {handle : Handle} {s : Situation}

theorem SingleFlight.meet (h : SingleFlight s) (i : Incident) : SingleFlight (s.meet handle i) := by
  cases i with
  | usual happening => exact h.step happening
  | meddled disk => exact ⟨h.guarded, h.underWay⟩

theorem SingleFlight.undergo (h : SingleFlight s) (incidents : List Incident) :
    SingleFlight (s.undergo handle incidents) := by
  induction incidents generalizing s with
  | nil => exact h
  | cons i rest ih => exact ih (h.meet i)

/-- An outcome of a call of a round is told only to a round that waits for it. -/
theorem SingleFlight.awaits (h : SingleFlight s) {i : Incident} {now : Time.Instant} {event : Event}
    (hears : s.hears? i = some (now, event)) (herrand : event.errand? ≠ none) :
    ∃ stage, s.scheduler.stage = some stage ∧ Awaits stage event := by
  obtain ⟨errand, herrand⟩ := Option.ne_none_iff_exists'.mp herrand
  cases i with
  | meddled disk => cases hears
  | usual happening =>
      cases happening with
      | visit v => cases hears
      | done effect moment replies => cases hears
      | signal now signal =>
          cases hears
          cases signal <;> cases herrand
      | told now index =>
          obtain ⟨event, hback, heq⟩ := Option.map_eq_some_iff.mp hears
          cases heq
          have hunderWay : errand ∈ s.underWay := List.mem_append_right _
            (List.mem_filterMap.mpr ⟨event, List.mem_of_getElem? hback, herrand⟩)
          have hawaited := h.underWay.subset hunderWay
          rw [awaited] at hawaited
          cases hstage : s.scheduler.stage with
          | none =>
              rw [hstage] at hawaited
              cases hawaited
          | some stage =>
              rw [hstage] at hawaited
              exact ⟨stage, rfl, awaits_of_mem herrand hawaited⟩

end Flights

/-! ## What a pass was told -/

/-- What the calls of a pass have come to, as far as the pass was told. -/
structure Account where
  found : Option (Option (UInt64 × Wallet)) := none
  balance : Option (Except Ledger.Fault Binary64) := none
  history : Option (Except Ledger.Fault (List Transfer.HistoryEntry)) := none
  written : Option (Except Store.Fault UInt64) := none
  reloaded : Option (Option Wallet) := none

namespace Account

def hear (a : Account) : Event → Account
  | .snapshot found => { a with found := some found }
  | .balance outcome => { a with balance := some outcome }
  | .history outcome => { a with history := some outcome }
  | .written outcome => { a with written := some outcome }
  | .reloaded wallet => { a with reloaded := some wallet }
  | _ => a

/-- The account once the scheduler was told something more, if it was. -/
def told (a : Account) : Option (Time.Instant × Event) → Account
  | none => a
  | some (_, event) => a.hear event

/-- The store refused the balance because the wallet had been changed since the snapshot. -/
def Conflicts (a : Account) : Prop :=
  ∃ expected actual, a.written = some (.error (.conflict (.version expected actual)))

/-- What a pass with a wallet has found when it is over. -/
inductive Yields (a : Account) : Findings → Prop
  /-- The ledger did not tell the balance. -/
  | withheld {version : UInt64} {wallet : Wallet} {fault : Ledger.Fault}
      {entries : Except Ledger.Fault (List Transfer.HistoryEntry)}
      (hfound : a.found = some (some (version, wallet)))
      (hbalance : a.balance = some (.error fault)) (hhistory : a.history = some entries) :
      Yields a ⟨wallet.address, none, entries.toOption⟩
  /-- Nobody else had changed the wallet. -/
  | fetched {version : UInt64} {wallet : Wallet} {remote : Binary64}
      {entries : Except Ledger.Fault (List Transfer.HistoryEntry)}
      {result : Except Store.Fault UInt64} (hfound : a.found = some (some (version, wallet)))
      (hbalance : a.balance = some (.ok remote)) (hhistory : a.history = some entries)
      (hwritten : a.written = some result) (hconflict : ¬a.Conflicts) :
      Yields a ⟨wallet.address, some remote, entries.toOption⟩
  /-- Somebody else had changed the wallet, which was read again. -/
  | overtaken {version : UInt64} {wallet : Wallet} {remote : Binary64}
      {entries : Except Ledger.Fault (List Transfer.HistoryEntry)} {now : Option Wallet}
      (hfound : a.found = some (some (version, wallet))) (hbalance : a.balance = some (.ok remote))
      (hhistory : a.history = some entries) (hconflict : a.Conflicts)
      (hreloaded : a.reloaded = some now) :
      Yields a ⟨wallet.address, now.map (·.balance), entries.toOption⟩

/-- An account that has everything that another has. -/
structure Extends (a b : Account) : Prop where
  found : ∀ x, b.found = some x → a.found = some x
  balance : ∀ x, b.balance = some x → a.balance = some x
  history : ∀ x, b.history = some x → a.history = some x
  written : ∀ x, b.written = some x → a.written = some x
  reloaded : ∀ x, b.reloaded = some x → a.reloaded = some x

theorem Extends.refl (a : Account) : a.Extends a :=
  ⟨fun _ => id, fun _ => id, fun _ => id, fun _ => id, fun _ => id⟩

theorem hear_of_none (a : Account) {event : Event} (h : event.errand? = none) :
    a.hear event = a := by
  cases event <;> first | rfl | cases h

/-- A pass that is over has one thing to show. -/
theorem Yields.unique {a : Account} {f g : Findings} (hf : a.Yields f) (hg : a.Yields g) :
    f = g := by
  cases hf <;> cases hg <;> simp_all

theorem Yields.found {a : Account} {f : Findings} (h : a.Yields f) :
    ∃ version wallet, a.found = some (some (version, wallet)) ∧ f.address = wallet.address := by
  cases h <;> exact ⟨_, _, ‹_›, rfl⟩

theorem Yields.history {a : Account} {f : Findings} (h : a.Yields f) :
    ∃ entries, a.history = some entries ∧ f.history = entries.toOption := by
  cases h <;> exact ⟨_, ‹_›, rfl⟩

end Account

/-- A stage of a round, and what its pass was told so far. -/
inductive Knows : Stage → Account → Prop
  | reading : Knows .reading {}
  | fetching {version : UInt64} {wallet : Wallet} {balance : Option (Except Ledger.Fault Binary64)}
      {history : Option (Except Ledger.Fault (List Transfer.HistoryEntry))}
      (hopen : balance = none ∨ history = none) :
      Knows (.fetching version wallet.address balance history)
        { found := some (some (version, wallet)), balance, history }
  | writing {version : UInt64} {wallet : Wallet} {remote : Binary64}
      {entries : Except Ledger.Fault (List Transfer.HistoryEntry)} :
      Knows (.writing wallet.address remote entries.toOption)
        { found := some (some (version, wallet)), balance := some (.ok remote),
          history := some entries }
  | reloading {version expected actual : UInt64} {wallet : Wallet} {remote : Binary64}
      {entries : Except Ledger.Fault (List Transfer.HistoryEntry)} :
      Knows (.reloading wallet.address entries.toOption)
        { found := some (some (version, wallet)), balance := some (.ok remote),
          history := some entries,
          written := some (.error (.conflict (.version expected actual))) }

/-! ## Steps of the scheduler -/

/-- How a pass ends: the round runs once more if that was asked for, and is over otherwise. -/
inductive EndsPass (s : Scheduler) : Scheduler × List Effect → Prop
  | again (hrerun : s.rerun = true) :
      EndsPass s ({ s with rerun := false, stage := some .reading }, [.readSnapshot])
  | ended (hrerun : s.rerun = false) :
      EndsPass s ({ s with stage := none, flight := s.flight.finish }, [])

/-- How a pass goes on once it was told the outcome of a call. -/
inductive Proceeds (s : Scheduler) (now : Time.Instant) (a : Account) :
    Scheduler × List Effect → Prop
  /-- The ledger is asked for both halves at once. -/
  | asks {version : UInt64} {wallet : Wallet}
      (hknows : Knows (.fetching version wallet.address none none) a) :
      Proceeds s now a ({ s with stage := some (.fetching version wallet.address none none) },
        [.fetchBalance wallet.address, .fetchHistory wallet.address])
  /-- The other half has not come yet. -/
  | waits {version : UInt64} {address : String} {balance : Option (Except Ledger.Fault Binary64)}
      {history : Option (Except Ledger.Fault (List Transfer.HistoryEntry))}
      (hknows : Knows (.fetching version address balance history) a) :
      Proceeds s now a ({ s with stage := some (.fetching version address balance history) }, [])
  | stores {version : UInt64} {wallet : Wallet} {remote : Binary64}
      {history : Option (List Transfer.HistoryEntry)}
      (hfound : a.found = some (some (version, wallet))) (hbalance : a.balance = some (.ok remote))
      (hknows : Knows (.writing wallet.address remote history) a) :
      Proceeds s now a ({ s with stage := some (.writing wallet.address remote history) },
        [.writeBalance version remote])
  | reloads {address : String} {history : Option (List Transfer.HistoryEntry)}
      (hknows : Knows (.reloading address history) a) :
      Proceeds s now a ({ s with stage := some (.reloading address history) }, [.reload])
  | gaveUp {r : Scheduler × List Effect} (hfound : a.found = some none) (hends : EndsPass s r) :
      Proceeds s now a r
  | published {f : Findings} {r : Scheduler × List Effect} (hyields : a.Yields f)
      (hends : EndsPass { s with panel := s.panel.showFindings f now, shown := s.shown + 1 } r) :
      Proceeds s now a r

/-- The loop takes the request that waits. -/
def Scheduler.takes (s : Scheduler) : Event → Bool
  | .takeRequest => s.looping && s.permit
  | _ => false

/-- What a step does that is told no outcome of a call of a round. -/
inductive Unprompted (s : Scheduler) : Event → Scheduler × List Effect → Prop
  | begins {event : Event} {flight : Flight} {permit : Bool} (hlooping : s.looping = true)
      (hfree : s.flight.begin? = some flight) :
      Unprompted s event ({ s with flight, permit, stage := some .reading }, [.readSnapshot])
  | probes (hlooping : s.looping = true) :
      Unprompted s .healthTick ({ s with probes := s.probes + 1 }, [.probeAll])
  | shows (o : Liveness.Overview) :
      Unprompted s (.overview o)
        ({ s with panel := s.panel.showOverview o, probes := s.probes - 1, shown := s.shown + 1 },
          [])
  | idles {event : Event} {rerun permit looping : Bool}
      (hlooping : looping = true → s.looping = true) (hrerun : rerun = (s.rerun || s.takes event)) :
      Unprompted s event ({ s with rerun, permit, looping }, [])

section Scheduler
variable {s : Scheduler} {stage : Stage} {a : Account} {event : Event}

theorem endsPass (s : Scheduler) : EndsPass s s.endPass := by
  rw [endPass]
  split
  next hrerun => exact .again hrerun
  next hrerun => exact .ended (Bool.eq_false_iff.mpr hrerun)

/-- A pass that waits has nothing to show. -/
theorem Knows.not_yields (h : Knows stage a) (f : Findings) : ¬a.Yields f := by
  intro hyields
  cases h with
  | reading => cases hyields <;> contradiction
  | fetching hopen => cases hyields <;> simp_all
  | writing =>
      cases hyields with
      | withheld _ hbalance => cases hbalance
      | fetched _ _ _ hwritten => cases hwritten
      | overtaken _ _ _ hconflict => obtain ⟨_, _, ⟨⟩⟩ := hconflict
  | reloading =>
      cases hyields with
      | withheld _ hbalance => cases hbalance
      | fetched _ _ _ _ hconflict => exact hconflict ⟨_, _, rfl⟩
      | overtaken _ _ _ _ hreloaded => cases hreloaded

/-- What a pass is told it was not told before. -/
theorem Knows.extends (h : Knows stage a) (hawaits : Awaits stage event) :
    (a.hear event).Extends a := by
  cases hawaits <;> cases h <;> constructor <;> simp [Account.hear]

/-- Once both have come the balance is stored, if the ledger told it. -/
theorem proceeds_fetched (now : Time.Instant) (version : UInt64) (wallet : Wallet)
    (balance : Option (Except Ledger.Fault Binary64))
    (history : Option (Except Ledger.Fault (List Transfer.HistoryEntry))) :
    Proceeds s now { found := some (some (version, wallet)), balance, history }
      (s.fetched now version wallet.address balance history) := by
  unfold fetched
  split
  next remote entries => exact .stores rfl rfl .writing
  next fault entries => exact .published (.withheld rfl rfl rfl) (endsPass _)
  next hkept hfailed =>
    refine .waits (.fetching ?_)
    rcases history with _ | entries
    · exact .inr rfl
    · rcases balance with _ | fault | remote
      · exact .inl rfl
      · exact (hfailed _ _ rfl rfl).elim
      · exact (hkept _ _ rfl rfl).elim

/-- A round that is told the outcome of a call goes on as its account says. -/
theorem proceeds_step (hstage : s.stage = some stage) (hknows : Knows stage a)
    (hawaits : Awaits stage event) (now : Time.Instant) :
    Proceeds s now (a.hear event) (s.step now event) := by
  cases hawaits with
  | @snapshot found =>
      cases hknows
      simp only [Scheduler.step, hstage]
      cases found with
      | none => exact .gaveUp rfl (endsPass s)
      | some p => exact .asks (.fetching (.inl rfl))
  | @balance version address history result =>
      cases hknows
      simp only [Scheduler.step, hstage]
      exact proceeds_fetched ..
  | @history version address balance result =>
      cases hknows
      simp only [Scheduler.step, hstage]
      cases balance <;> exact proceeds_fetched ..
  | @written address balance history result =>
      cases hknows
      simp only [Scheduler.step, hstage]
      split
      next => exact .reloads .reloading
      next hresult =>
        refine .published (.fetched rfl rfl rfl rfl ?_) (endsPass _)
        rintro ⟨expected, actual, hconflict⟩
        exact hresult _ _ (Option.some.inj hconflict)
  | reloaded =>
      cases hknows
      simp only [Scheduler.step, hstage]
      exact .published (.overtaken rfl rfl rfl ⟨_, _, rfl⟩ rfl) (endsPass _)

theorem unprompted_refresh (event : Event) {requested permit : Bool} (hlooping : s.looping = true)
    (hrequested : requested = s.takes event) :
    Unprompted s event ({ s with permit }.refresh requested) := by
  rw [refresh]
  split
  next flight hflight => exact .begins hlooping hflight
  next => exact .idles (fun h => h) (by rw [hrequested])

theorem unprompted_step (hevent : event.errand? = none) (now : Time.Instant) :
    Unprompted s event (s.step now event) := by
  have hnothing (htakes : s.takes event = false) : Unprompted s event (s, []) :=
    .idles (fun h => h) (by rw [htakes, Bool.or_false])
  cases event with
  | refreshTick =>
      rw [Scheduler.step]
      split
      next hlooping => exact unprompted_refresh .refreshTick hlooping rfl
      next => exact hnothing rfl
  | healthTick =>
      rw [Scheduler.step]
      split
      next hlooping => exact .probes hlooping
      next => exact hnothing rfl
  | request => exact .idles (fun h => h) (Bool.or_false _).symm
  | takeRequest =>
      rw [Scheduler.step]
      split
      next htakes =>
        exact unprompted_refresh .takeRequest (Bool.and_eq_true_iff.mp htakes).1 htakes.symm
      next htakes => exact hnothing (Bool.eq_false_iff.mpr htakes)
  | stop => exact .idles (fun h => absurd h Bool.false_ne_true) (Bool.or_false _).symm
  | overview o => exact .shows o
  | _ => cases hevent

theorem reading_of_endsPass {r : Scheduler × List Effect} (h : EndsPass s r)
    (hmem : .readSnapshot ∈ r.2) : r.1.stage = some .reading := by
  cases h with
  | again => rfl
  | ended => cases hmem

theorem reading_of_fetched {now : Time.Instant} {version : UInt64} {address : String}
    {balance : Option (Except Ledger.Fault Binary64)}
    {history : Option (Except Ledger.Fault (List Transfer.HistoryEntry))}
    (hmem : .readSnapshot ∈ (s.fetched now version address balance history).2) :
    (s.fetched now version address balance history).1.stage = some .reading := by
  unfold fetched at hmem ⊢
  split at hmem
  next => simp at hmem
  next => exact reading_of_endsPass (endsPass _) hmem
  next => cases hmem

/-- Who asks for the stored wallet is at the beginning of a pass. -/
theorem reading_of_asked {now : Time.Instant} (hmem : .readSnapshot ∈ (s.step now event).2) :
    (s.step now event).1.stage = some .reading := by
  cases hevent : event.errand? with
  | none =>
      have hstep := unprompted_step (s := s) hevent now
      generalize s.step now event = r at hmem hstep ⊢
      cases hstep with
      | begins => rfl
      | probes => simp at hmem
      | shows => cases hmem
      | idles => cases hmem
  | some errand =>
      revert hmem
      cases event with
      | snapshot found =>
          simp only [Scheduler.step]
          split
          next => simp
          next => exact reading_of_endsPass (endsPass s)
          next => simp
      | balance outcome =>
          rw [Scheduler.step]
          split
          next => exact reading_of_fetched
          next => simp
      | history outcome =>
          rw [Scheduler.step]
          split
          next => exact reading_of_fetched
          next => simp
      | written outcome =>
          simp only [Scheduler.step]
          split
          next =>
            split
            next => simp
            next => exact reading_of_endsPass (endsPass _)
          next => simp
      | reloaded wallet =>
          rw [Scheduler.step]
          split
          next => exact reading_of_endsPass (endsPass _)
          next => simp
      | _ => cases hevent

end Scheduler

/-! ## Passes in a run -/

/-- The pass that the last of the incidents `before` has begun, what has happened since then, and
what the pass was told. No other pass was begun since. -/
inductive Pass (handle : Handle) (start : Situation) (before : List Incident) :
    List Incident → Account → Prop
  | begins {earlier : List Incident} {first : Incident} (hbefore : before = earlier ++ [first])
      (hbegins : (start.undergo handle earlier).Begins first) : Pass handle start before [] {}
  | goesOn {since : List Incident} {a : Account} {i : Incident}
      (hpass : Pass handle start before since a)
      (hnot : ¬(start.undergo handle (before ++ since)).Begins i) :
      Pass handle start before (since ++ [i])
        (a.told ((start.undergo handle (before ++ since)).hears? i))

/-- What an incident does to a scheduler whose pass was told `a`. -/
inductive Meets (s : Scheduler) (a : Account) :
    Option (Time.Instant × Event) → Scheduler × List Effect → Prop
  | silent : Meets s a none (s, [])
  | unprompted {now : Time.Instant} {event : Event} {r : Scheduler × List Effect}
      (hevent : event.errand? = none) (h : Unprompted s event r) : Meets s a (some (now, event)) r
  | told {now : Time.Instant} {event : Event} {stage : Stage} {r : Scheduler × List Effect}
      (hstage : s.stage = some stage) (hawaits : Awaits stage event) (hknows : Knows stage a)
      (h : Proceeds s now (a.hear event) r) : Meets s a (some (now, event)) r

section Runs
variable {handle : Handle} {start s : Situation} {before since incidents : List Incident}
  {a : Account} {i : Incident}

theorem stage_of_begins (h : s.Begins i) : (s.meet handle i).scheduler.stage = some .reading := by
  rw [Situation.scheduler_meet]
  rw [Situation.Begins, Situation.orders] at h
  cases hhears : s.hears? i with
  | none =>
      rw [hhears] at h
      cases h
  | some heard =>
      rw [hhears] at h
      exact reading_of_asked h

theorem SingleFlight.meets (handle : Handle) (h : SingleFlight s)
    (hknows : ∀ stage, s.scheduler.stage = some stage → Knows stage a) (i : Incident) :
    Meets s.scheduler a (s.hears? i) ((s.meet handle i).scheduler, s.orders i) := by
  rw [Situation.scheduler_meet, Situation.orders]
  cases hhears : s.hears? i with
  | none => exact .silent
  | some heard =>
      obtain ⟨now, event⟩ := heard
      by_cases hevent : event.errand? = none
      · exact .unprompted hevent (unprompted_step hevent now)
      · obtain ⟨stage, hstage, hawaits⟩ := h.awaits hhears hevent
        have hknown := hknows stage hstage
        exact .told hstage hawaits hknown (proceeds_step hstage hknown hawaits now)

/-- A pass at a stage was told what is known at that stage. -/
theorem Pass.knows (hstart : SingleFlight start) (h : Pass handle start before since a)
    {stage : Stage}
    (hstage : (start.undergo handle (before ++ since)).scheduler.stage = some stage) :
    Knows stage a := by
  induction h generalizing stage with
  | @begins earlier first hbefore hbegins =>
      rw [hbefore, List.append_nil, Situation.undergo_snoc, stage_of_begins hbegins] at hstage
      cases hstage
      exact .reading
  | @goesOn since a i hpass hnot ih =>
      have hmeets := (hstart.undergo (before ++ since)).meets handle (fun _ => ih) i
      rw [← List.append_assoc, Situation.undergo_snoc] at hstage
      rw [Situation.Begins] at hnot
      generalize (start.undergo handle (before ++ since)).orders i = orders at hmeets hnot
      generalize ((start.undergo handle (before ++ since)).meet handle i).scheduler = later
        at hmeets hstage
      generalize (start.undergo handle (before ++ since)).hears? i = heard at hmeets ⊢
      cases hmeets with
      | silent => exact ih hstage
      | unprompted hevent hstep =>
          rw [Account.told, a.hear_of_none hevent]
          cases hstep with
          | begins => exact absurd (List.mem_singleton_self _) hnot
          | _ => exact ih hstage
      | told _ _ _ hproceeds =>
          cases hproceeds with
          | asks hknows | waits hknows | stores _ _ hknows | reloads hknows =>
              cases hstage
              exact hknows
          | gaveUp _ hends | published _ hends =>
              cases hends with
              | again => exact absurd (List.mem_singleton_self _) hnot
              | ended => cases hstage

theorem Pass.meets (hstart : SingleFlight start) (h : Pass handle start before since a)
    (i : Incident) :
    Meets (start.undergo handle (before ++ since)).scheduler a
      ((start.undergo handle (before ++ since)).hears? i)
      (((start.undergo handle (before ++ since)).meet handle i).scheduler,
        (start.undergo handle (before ++ since)).orders i) :=
  (hstart.undergo _).meets handle (fun _ => h.knows hstart) i

theorem Meets.idle {s : Scheduler} {heard : Option (Time.Instant × Event)}
    {r : Scheduler × List Effect} (h : Meets s a heard r) (hidle : s.stage = none)
    (hnot : .readSnapshot ∉ r.2) : r.1.stage = none := by
  cases h with
  | silent => exact hidle
  | unprompted _ hstep =>
      cases hstep with
      | begins => exact absurd (List.mem_singleton_self _) hnot
      | _ => exact hidle
  | told hstage => cases hidle.symm.trans hstage

/-- Whoever is in a round is in a pass that was begun before. -/
theorem exists_pass (hstart : SingleFlight start) (hidle : start.scheduler.stage = none)
    (hround : (start.undergo handle incidents).scheduler.stage ≠ none) :
    ∃ before since a, incidents = before ++ since ∧ Pass handle start before since a := by
  induction incidents using List.reverseRecOn with
  | nil => exact absurd hidle hround
  | append_singleton incidents i ih =>
      by_cases hbegins : (start.undergo handle incidents).Begins i
      · exact ⟨_, [], _, (List.append_nil _).symm, .begins rfl hbegins⟩
      · have hbefore : (start.undergo handle incidents).scheduler.stage ≠ none := by
          intro hnone
          have hmeets := (hstart.undergo incidents).meets handle (a := {})
            (fun stage hstage => by rw [hnone] at hstage; cases hstage) i
          rw [Situation.undergo_snoc] at hround
          exact hround (hmeets.idle hnone hbegins)
        obtain ⟨before, since, a, rfl, hpass⟩ := ih hbefore
        exact ⟨before, since ++ [i], _, List.append_assoc .., hpass.goesOn hbegins⟩

/-- Whatever a scheduler meets, there is an account of its pass. -/
theorem meets_of_run (handle : Handle) (hstart : SingleFlight start)
    (hidle : start.scheduler.stage = none) (incidents : List Incident) (i : Incident) :
    ∃ a, Meets (start.undergo handle incidents).scheduler a
      ((start.undergo handle incidents).hears? i)
      (((start.undergo handle incidents).meet handle i).scheduler,
        (start.undergo handle incidents).orders i) := by
  by_cases hround : (start.undergo handle incidents).scheduler.stage = none
  · exact ⟨{}, (hstart.undergo incidents).meets handle
      (fun stage hstage => by rw [hround] at hstage; cases hstage) i⟩
  · obtain ⟨before, since, a, rfl, hpass⟩ := exists_pass hstart hidle hround
    exact ⟨a, hpass.meets hstart i⟩

end Runs

/-! ## What is shown -/

section Shown
variable {s : Scheduler} {a : Account} {heard : Option (Time.Instant × Event)}
  {r : Scheduler × List Effect}

theorem EndsPass.panel (h : EndsPass s r) : r.1.panel = s.panel ∧ r.1.shown = s.shown := by
  cases h <;> exact ⟨rfl, rfl⟩

/-- What is shown changes with overviews, and when a pass is over. -/
theorem Meets.panel (h : Meets s a heard r) (hother : ∀ now o, heard ≠ some (now, .overview o)) :
    (r.1.panel = s.panel ∧ r.1.shown = s.shown) ∨
      ∃ now event f, heard = some (now, event) ∧ event.errand? ≠ none ∧ (a.told heard).Yields f ∧
        r.1.panel = s.panel.showFindings f now ∧ r.1.shown = s.shown + 1 := by
  cases h with
  | silent => exact .inl ⟨rfl, rfl⟩
  | unprompted _ hstep =>
      cases hstep with
      | shows o => exact absurd rfl (hother _ o)
      | _ => exact .inl ⟨rfl, rfl⟩
  | @told now event _ _ _ hawaits _ hproceeds =>
      have herrand : event.errand? ≠ none := by cases hawaits <;> nofun
      cases hproceeds with
      | gaveUp _ hends => exact .inl hends.panel
      | published hyields hends =>
          exact .inr ⟨now, event, _, rfl, herrand, hyields, hends.panel.1, hends.panel.2⟩
      | _ => exact .inl ⟨rfl, rfl⟩

/-- A pass that is told the last thing that it waits for shows what it has found. -/
theorem Meets.publishes (h : Meets s a heard r) {now : Time.Instant} {event : Event} {f : Findings}
    (hheard : heard = some (now, event)) (herrand : event.errand? ≠ none)
    (hyields : (a.told heard).Yields f) :
    r.1.shown = s.shown + 1 ∧ ∀ now o, heard ≠ some (now, .overview o) := by
  subst hheard
  refine ⟨?_, ?_⟩
  · cases h with
    | unprompted hevent => exact absurd hevent herrand
    | told _ _ _ hproceeds =>
        cases hproceeds with
        | asks hknows | waits hknows | stores _ _ hknows | reloads hknows =>
            exact absurd hyields (hknows.not_yields f)
        | gaveUp hfound =>
            obtain ⟨_, _, hwallet, -⟩ := hyields.found
            cases hfound.symm.trans hwallet
        | published _ hends => exact hends.panel.2
  · rintro now o ⟨⟩
    exact herrand rfl

/-- What is shown when a pass is over is what it has found. -/
theorem Meets.shows (h : Meets s a heard r) (hshown : r.1.shown = s.shown + 1)
    (hother : ∀ now o, heard ≠ some (now, .overview o)) :
    ∃ now event f, heard = some (now, event) ∧ event.errand? ≠ none ∧ (a.told heard).Yields f ∧
      r.1.panel = s.panel.showFindings f now := by
  rcases h.panel hother with ⟨-, hkept⟩ | ⟨now, event, f, hheard, herrand, hyields, hpanel, -⟩
  · omega
  · exact ⟨now, event, f, hheard, herrand, hyields, hpanel⟩

/-- Only a round shows anything but overviews. -/
theorem round_of_publishes {handle : Handle} {start : Situation} {incidents : List Incident}
    {i : Incident} (hstart : SingleFlight start)
    (hshows : (start.undergo handle incidents).Publishes handle i) :
    (start.undergo handle incidents).scheduler.stage ≠ none := by
  intro hnone
  have hmeets := (hstart.undergo incidents).meets handle (a := {})
    (fun stage hstage => by rw [hnone] at hstage; cases hstage) i
  obtain ⟨now, event, f, hhears, herrand, -⟩ := hmeets.shows hshows.1 hshows.2
  obtain ⟨stage, hstage, -⟩ := (hstart.undergo incidents).awaits hhears herrand
  cases hnone.symm.trans hstage

end Shown

/-! ## A wallet that is lost during a round -/

section Sample
open Store (sampleDisk sampleImage emptyDisk ten)

/-- What a ledger says that fails nobody. -/
def kindReplies : Replies := { sampleReplies with balance := .ok ten }

/-- A round fetches both halves, and the directory is emptied before it stores the balance. -/
def emptiedRound : List Incident :=
  [.usual (.signal .epoch .refreshTick), .usual (.done .readSnapshot sampleMoment kindReplies),
    .usual (.told .epoch 0), .usual (.done (.fetchBalance "a1") sampleMoment kindReplies),
    .usual (.told .epoch 0), .usual (.done (.fetchHistory "a1") sampleMoment kindReplies),
    .usual (.told .epoch 0), .meddled emptyDisk,
    .usual (.done (.writeBalance 1 ten) sampleMoment kindReplies), .usual (.told .epoch 0),
    .usual (.done .reload sampleMoment kindReplies)]

/-- A scheduler with both lamps lit on a disk with a wallet. -/
def litSituation : Situation :=
  .started (sampleDisk (sampleImage ten)) { nodeConnected := true, simulatorConnected := true }

/-- The disk after the balance of the round was refused. -/
def emptiedDisk : Disk := ((Store.sampleVisit (.setBalance (some 1) ten)).run emptyDisk).2

theorem stable_emptiedDisk : Store.Stable emptiedDisk ["data"] .empty :=
  Store.stable_sampleVisit _ (Store.stable_of_isEmptyPlace Store.isEmptyPlace_emptyDisk)
    Store.readsBack_ten

/-- Where there is no wallet, the version is another one. -/
theorem refused_emptiedDisk :
    sampleHandle.carryOut sampleMoment kindReplies emptyDisk (.writeBalance 1 ten) =
      (.written (.error (.conflict (.version 1 0))), emptiedDisk) := by
  obtain ⟨result, hcarry, hresult⟩ :=
    carryOut_writeBalance sampleHandle sampleMoment kindReplies emptyDisk 1 ten
  have hanswer := Store.outcome_sampleVisit (.setBalance (some 1) ten)
    (Store.stable_of_isEmptyPlace Store.isEmptyPlace_emptyDisk)
  have hrefused := hresult.symm.trans hanswer
  rw [hcarry]
  cases result with
  | ok version => cases hrefused
  | error fault =>
      cases hrefused
      rfl

/-- The scheduler of the round at one of its stages. -/
def sampleStage (stage : Stage) : Scheduler :=
  { panel := litSituation.scheduler.panel, flight := ⟨true, 1⟩, stage := some stage }

/-- The stored wallet was read for the round. -/
theorem undergo_read : litSituation.undergo sampleHandle (emptiedRound.take 2) =
    { disk := litSituation.disk, scheduler := sampleStage .reading
      back := [.snapshot (some (1, Store.sampleWallet ten))] } := by
  have hticked : litSituation.undergo sampleHandle (emptiedRound.take 1) =
      { disk := sampleSituation.disk, scheduler := sampleStage .reading,
        asked := [.readSnapshot] } := rfl
  have hsplit : emptiedRound.take 2 =
      emptiedRound.take 1 ++ [.usual (.done .readSnapshot sampleMoment kindReplies)] := rfl
  rw [hsplit, Situation.undergo_snoc, hticked, Situation.meet, Situation.step,
    if_pos (List.mem_singleton_self _), snapshot_sampleSituation]
  rfl

/-- Both halves have come, and the directory was emptied. -/
theorem undergo_emptied : litSituation.undergo sampleHandle (emptiedRound.take 8) =
    { disk := emptyDisk, scheduler := sampleStage (.writing "a1" ten (some []))
      asked := [.writeBalance 1 ten] } := by
  have hsplit : emptiedRound.take 8 = emptiedRound.take 2 ++ (emptiedRound.take 8).drop 2 := rfl
  rw [hsplit, Situation.undergo_append, undergo_read]
  rfl

/-- The store has refused the balance, and the round has the wallet read again. -/
theorem undergo_refused : litSituation.undergo sampleHandle (emptiedRound.take 10) =
    { disk := emptiedDisk, scheduler := sampleStage (.reloading "a1" (some []))
      asked := [.reload] } := by
  have hsplit : emptiedRound.take 10 = emptiedRound.take 8 ++
      [.usual (.done (.writeBalance 1 ten) sampleMoment kindReplies)] ++
      [.usual (.told .epoch 0)] := rfl
  rw [hsplit, Situation.undergo_snoc, Situation.undergo_snoc, undergo_emptied, Situation.meet,
    Situation.meet, Situation.step, if_pos (List.mem_singleton_self _), refused_emptiedDisk]
  rfl

/-- There is no wallet any more, which the round is not told yet. -/
theorem undergo_emptiedRound : litSituation.undergo sampleHandle emptiedRound =
    { disk := emptiedDisk, scheduler := sampleStage (.reloading "a1" (some []))
      back := [.reloaded none] } := by
  have hsplit : emptiedRound =
      emptiedRound.take 10 ++ [.usual (.done .reload sampleMoment kindReplies)] := rfl
  have hreload : sampleHandle.carryOut sampleMoment kindReplies emptiedDisk .reload =
      (.reloaded none, emptiedDisk) := by
    rw [carryOut_reload, place_sampleHandle, stable_emptiedDisk.stored]
    rfl
  rw [hsplit, Situation.undergo_snoc, undergo_refused, Situation.meet, Situation.step,
    if_pos (List.mem_singleton_self _), hreload]
  rfl

/-- It waits for the wallet to be read again. -/
theorem pass_emptiedRound : ∃ before since known, emptiedRound = before ++ since ∧
    Pass sampleHandle litSituation before since known ∧
    Knows (.reloading "a1" (some [])) known := by
  have hstart : SingleFlight litSituation := singleFlight_started _ _
  have hstage : (litSituation.undergo sampleHandle emptiedRound).scheduler.stage =
      some (.reloading "a1" (some [])) := by
    rw [undergo_emptiedRound]
    rfl
  have hround : (litSituation.undergo sampleHandle emptiedRound).scheduler.stage ≠ none := by
    rw [hstage]
    exact Option.some_ne_none _
  obtain ⟨before, since, a, hsplit, hpass⟩ := exists_pass hstart rfl hround
  exact ⟨before, since, a, hsplit, hpass, hpass.knows hstart (hsplit ▸ hstage)⟩

end Sample

end WalletEngine.Polling
