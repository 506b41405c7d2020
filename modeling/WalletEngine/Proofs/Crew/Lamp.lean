import Mathlib.Data.List.Induction
import WalletEngine.Proofs.Crew.Steps
import WalletEngine.Proofs.Store.Readability

/-! # The lamp of the node

A poller and a monitor run side by side: the timers of the poller ask for rounds of probes, the probes
take any time, and wallet rounds come and fail meanwhile. Only the answer to a round of probes lights
the lamp of the node. What the round has heard of the node was heard after the round was asked for, but
it may have been heard before a wallet round failed that the same answer overrides.
-/

namespace WalletEngine

open Liveness (Monitor Overview Report Round Service)

/-! ## What lights a lamp -/

namespace Polling.Scheduler
variable {s : Scheduler}

theorem panel_refresh (requested : Bool) : (s.refresh requested).1.panel = s.panel := by
  rw [refresh]
  split <;> rfl

theorem panel_endPass : s.endPass.1.panel = s.panel := by
  rw [endPass]
  split <;> rfl

/-- What a wallet round finds lights no lamp. -/
theorem lit_of_publish {f : Findings} {now : Time.Instant}
    (h : (s.publish f now).1.panel.nodeConnected = true) : s.panel.nodeConnected = true := by
  rw [publish, panel_endPass, Panel.showFindings] at h
  simp only [Bool.and_eq_true] at h
  exact h.1.1

theorem lit_of_fetched {now : Time.Instant} {version : UInt64} {address : String}
    {balance : Option (Except Ledger.Fault Binary64)}
    {history : Option (Except Ledger.Fault (List Transfer.HistoryEntry))}
    (h : (s.fetched now version address balance history).1.panel.nodeConnected = true) :
    s.panel.nodeConnected = true := by
  unfold fetched at h
  split at h
  next => exact h
  next => exact lit_of_publish h
  next => exact h

/-- The lamp of the node is lit by an overview only. -/
theorem lit_of_step {now : Time.Instant} {event : Event}
    (h : (s.step now event).1.panel.nodeConnected = true) :
    s.panel.nodeConnected = true ∨ ∃ o, event = .overview o ∧ o.node.connected = true := by
  cases event with
  | overview o => exact .inr ⟨o, rfl, h⟩
  | refreshTick =>
      rw [step] at h
      split at h
      next => exact .inl (by rwa [panel_refresh] at h)
      next => exact .inl h
  | healthTick =>
      rw [step] at h
      split at h <;> exact .inl h
  | request => exact .inl h
  | takeRequest =>
      rw [step] at h
      split at h
      next => exact .inl (by rwa [panel_refresh] at h)
      next => exact .inl h
  | stop => exact .inl h
  | snapshot found =>
      simp only [step] at h
      split at h
      next => exact .inl h
      next => exact .inl (by rwa [panel_endPass] at h)
      next => exact .inl h
  | balance outcome =>
      rw [step] at h
      split at h
      next => exact .inl (lit_of_fetched h)
      next => exact .inl h
  | history outcome =>
      rw [step] at h
      split at h
      next => exact .inl (lit_of_fetched h)
      next => exact .inl h
  | written outcome =>
      rw [step] at h
      split at h
      next =>
        split at h
        next => exact .inl h
        next => exact .inl (lit_of_publish h)
      next => exact .inl h
  | reloaded wallet =>
      rw [step] at h
      split at h
      next => exact .inl (lit_of_publish h)
      next => exact .inl h

end Polling.Scheduler

/-! ## A crew at work -/

/-- A crew with the events that it has asked for, which may happen at any later time. Each of them
stands with the number of happenings that there had been when it was asked for. -/
structure Shift where
  crew : Crew
  due : List (Nat × Crew.Event) := []
  passed : Nat := 0

namespace Shift
open Crew (Asker Event Effect Lookout Poller Counter)

/-- What happens to a crew, and when. -/
inductive Happening where
  /-- Something from outside, such as the outcome of a probe or of a step of a wallet round. -/
  | outside (now : Time.Instant) (event : Event)
  /-- Something that the crew has asked for. -/
  | due (now : Time.Instant) (index : Nat)

def Happening.now : Happening → Time.Instant
  | .outside now _ => now
  | .due now _ => now

/-- Whether an event may come from outside. Pollers ask for probes, and are answered, within the
crew. -/
def comesFromOutside : Event → Bool
  | .poller _ (.overview _) => false
  | .lookout _ (.ask (.poller _)) => false
  | _ => true

/-- The event that happens. -/
def event? (s : Shift) : Happening → Option Event
  | .outside _ event => if comesFromOutside event then some event else none
  | .due _ index => (s.due[index]?).map Prod.snd

/-- What is still due besides. -/
def left (s : Shift) : Happening → List (Nat × Event)
  | .outside _ _ => s.due
  | .due _ index => s.due.eraseIdx index

/-- The events that effects ask for. -/
def later (effects : List Effect) : List Event :=
  effects.filterMap fun effect => match effect with
    | .after _ event => some event
    | _ => none

def step (s : Shift) (h : Happening) : Shift :=
  match s.event? h with
  | none => { s with passed := s.passed + 1 }
  | some event =>
    let (crew, effects) := s.crew.step h.now event
    { crew, due := s.left h ++ (later effects).map (s.passed, ·), passed := s.passed + 1 }

def run (s : Shift) (happenings : List Happening) : Shift := happenings.foldl step s

/-- One poller with one monitor at the beginning, with any counters beside them. -/
def opened (cached : Option Overview) (now : Time.Instant) (cache : Option Store) (poller : Poller)
    (counters : List Counter) : Shift :=
  { crew := {
      lookouts := [{ monitor := .start cache.isSome cached now, cache }]
      pollers := [poller]
      counters } }

/-- The lamp of the node. -/
def lamp (s : Shift) : Bool := (s.crew.pollers[0]?).any (·.scheduler.panel.nodeConnected)

/-- The monitor. -/
def monitor? (s : Shift) : Option (Monitor Asker) := (s.crew.lookouts[0]?).map Lookout.monitor

/-- What the monitor is told. -/
def told? (s : Shift) (h : Happening) : Option (Monitor.Event Asker) :=
  (s.event? h).bind fun event => (s.crew.tells h.now event).bind fun told =>
    if told.1 = 0 then some told.2 else none

section Steps
variable (s : Shift) (h : Happening)

theorem run_append (first second : List Happening) :
    s.run (first ++ second) = (s.run first).run second :=
  List.foldl_append

theorem passed_step : (s.step h).passed = s.passed + 1 := by
  rw [step]
  split <;> rfl

theorem monitor?_step :
    (s.step h).monitor? = s.monitor?.map fun m => (s.told? h).elim m fun e => (m.step e).1 := by
  rw [step, told?]
  cases hevent : s.event? h with
  | none => exact (Option.map_id' ..).symm
  | some event =>
      simp only [Option.bind_some, monitor?, Crew.lookouts_step, Option.map_map]
      congr 1
      funext k
      cases htells : s.crew.tells h.now event with
      | none => simp
      | some told =>
          by_cases hplace : told.1 = 0
          · simp [Crew.changed, hplace, Lookout.told]
          · simp [Crew.changed, hplace]

theorem getElem?_lookouts_step {place : Nat} (hnone : s.crew.lookouts[place]? = none) :
    (s.step h).crew.lookouts[place]? = none := by
  rw [step]
  split
  next => exact hnone
  next event _ => exact (s.crew.lookouts_step h.now event place).trans (by rw [hnone]; rfl)

/-- What is due was due before, or is asked for now. -/
theorem mem_due_step {since : Nat} {event : Event} (hdue : (since, event) ∈ (s.step h).due) :
    (since, event) ∈ s.due ∨ since = s.passed ∧ ∃ cause delay, s.event? h = some cause ∧
      .after delay event ∈ (s.crew.step h.now cause).2 := by
  rw [step] at hdue
  split at hdue
  next => exact .inl hdue
  next cause hcause =>
    rcases List.mem_append.mp hdue with hleft | hnew
    · refine .inl ?_
      cases h with
      | outside now event => exact hleft
      | due now index => exact List.mem_of_mem_eraseIdx hleft
    · obtain ⟨asked, hasked, hsame⟩ := List.mem_map.mp hnew
      cases hsame
      obtain ⟨effect, heffect, hevent⟩ := List.mem_filterMap.mp hasked
      cases effect with
      | after delay event =>
          cases hevent
          exact .inr ⟨rfl, cause, delay, hcause, heffect⟩
      | _ => cases hevent

/-- The lamp is lit by an overview that is shown. -/
theorem lit_of_step (hlit : (s.step h).lamp = true) : s.lamp = true ∨ ∃ o,
    s.event? h = some (.poller 0 (.overview o)) ∧ o.node.connected = true := by
  rw [step] at hlit
  cases hevent : s.event? h with
  | none =>
      rw [hevent] at hlit
      exact .inl hlit
  | some event =>
      rw [hevent] at hlit
      obtain ⟨later, hlater, hshown⟩ := (Option.any_eq_true _ _).mp hlit
      rw [Crew.pollers_step] at hlater
      obtain ⟨p, hp, rfl⟩ := Option.map_eq_some_iff.mp hlater
      have hsame (hlit : p.scheduler.panel.nodeConnected = true) : s.lamp = true :=
        (Option.any_eq_true _ _).mpr ⟨p, hp, hlit⟩
      cases event with
      | poller index event =>
          simp only [Crew.changed] at hshown
          split at hshown
          next hindex =>
            subst hindex
            rcases Polling.Scheduler.lit_of_step hshown with hlit | ⟨o, rfl, ho⟩
            · exact .inl (hsame hlit)
            · exact .inr ⟨o, rfl, ho⟩
          next => exact .inl (hsame hshown)
      | _ => exact .inl (hsame hshown)

end Steps

/-! ## Where an answer comes from -/

/-- The monitor begins a round for a caller. -/
def Begins (s : Shift) (caller : Asker) (h : Happening) : Prop :=
  s.told? h = some (.ask caller) ∧ ∃ m, s.monitor? = some m ∧ m.flight.busy = false

/-- A caller asks while a round is on its way, and gets what is known. -/
def Repeats (s : Shift) (caller : Asker) (o : Overview) (h : Happening) : Prop :=
  s.told? h = some (.ask caller) ∧ ∃ m, s.monitor? = some m ∧ m.flight.busy = true ∧ m.latest = o

/-- A report on a service comes in for the round of a caller. -/
def Receives (s : Shift) (caller : Asker) (service : Service) (report : Report) (h : Happening) :
    Prop :=
  s.told? h = some (.reply service report) ∧
    ∃ m round, s.monitor? = some m ∧ m.round = some round ∧ round.caller = caller

/-- Of some happenings, one began a round for a caller, and no other round was begun since. -/
structure Latest (s : Shift) (caller : Asker) (before : List Happening) (ask : Happening)
    (since : List Happening) : Prop where
  begins : (s.run before).Begins caller ask
  only : ∀ between h rest, since = between ++ h :: rest →
    ∀ other, ¬ (s.run (before ++ ask :: between)).Begins other h

/-- The round that was begun by a happening has had a report on a service since then. -/
def Hears (s : Shift) (caller : Asker) (service : Service) (report : Report)
    (before : List Happening) (ask : Happening) (since : List Happening) : Prop :=
  ∃ between reply rest, since = between ++ reply :: rest ∧
    (s.run (before ++ ask :: between)).Receives caller service report reply

/-- All reports of a round have come since it was begun. -/
def Tracks (s : Shift) (round : Round Asker) (happenings : List Happening) : Prop :=
  ∃ before ask since, happenings = before ++ ask :: since ∧
    s.Latest round.caller before ask since ∧
    ∀ service report, round.report? service = some report →
      s.Hears round.caller service report before ask since

/-- The last of some happenings has a caller answered: at once, while a round is on its way, or after
a round of its own, in which the report on the node has come. -/
inductive Answers (s : Shift) (caller : Asker) (o : Overview) : List Happening → Prop
  | known {before : List Happening} {ask : Happening}
      (hrepeats : (s.run before).Repeats caller o ask) : Answers s caller o (before ++ [ask])
  | probed {before since : List Happening} {ask : Happening}
      (hlatest : s.Latest caller before ask since)
      (hhears : s.Hears caller .node o.node before ask since) :
      Answers s caller o (before ++ ask :: since)

section Histories
variable {s : Shift} {caller : Asker} {before since : List Happening} {ask : Happening}

theorem Latest.append (hlatest : s.Latest caller before ask since) {h : Happening}
    (hquiet : ∀ other, ¬ (s.run (before ++ ask :: since)).Begins other h) :
    s.Latest caller before ask (since ++ [h]) where
  begins := hlatest.begins
  only := by
    intro between other rest hsplit
    rcases List.eq_nil_or_concat rest with rfl | ⟨rest, last, rfl⟩
    · obtain ⟨rfl, hlast⟩ := List.append_inj' hsplit rfl
      cases hlast
      exact hquiet
    · have hsplit : since ++ [h] = (between ++ other :: rest) ++ [last] := by
        rw [hsplit, List.append_assoc, List.cons_append, List.concat_eq_append]
      exact hlatest.only between other rest (List.append_inj' hsplit rfl).1

theorem Hears.append {service : Service} {report : Report}
    (hhears : s.Hears caller service report before ask since) (h : Happening) :
    s.Hears caller service report before ask (since ++ [h]) := by
  obtain ⟨between, reply, rest, rfl, hreceives⟩ := hhears
  exact ⟨between, reply, rest ++ [h], by simp, hreceives⟩

variable {round : Round Asker} {happenings : List Happening} {h : Happening}

theorem Tracks.append (htracks : s.Tracks round happenings)
    (hquiet : ∀ other, ¬ (s.run happenings).Begins other h) :
    s.Tracks round (happenings ++ [h]) := by
  obtain ⟨before, ask, since, rfl, hlatest, hhears⟩ := htracks
  exact ⟨before, ask, since ++ [h], by simp, hlatest.append hquiet,
    fun service report hreport => (hhears service report hreport).append h⟩

theorem Tracks.add (htracks : s.Tracks round happenings) {service : Service} {report : Report}
    (hreceives : (s.run happenings).Receives round.caller service report h) :
    s.Tracks (round.add service report) (happenings ++ [h]) := by
  have hquiet : ∀ other, ¬ (s.run happenings).Begins other h := fun other hbegins => by
    cases hbegins.1.symm.trans hreceives.1
  obtain ⟨before, ask, since, rfl, hlatest, hhears⟩ := htracks
  refine ⟨before, ask, since ++ [h], by simp, ?_, fun other found hfound => ?_⟩
  · rw [Round.caller_add]
    exact hlatest.append hquiet
  · rw [Round.report?_add] at hfound
    rw [Round.caller_add]
    split at hfound
    next hservice =>
      cases hfound
      exact ⟨since, h, [], rfl, hservice ▸ hreceives⟩
    next => exact (hhears other found hfound).append h

theorem tracks_begun (hbegins : (s.run happenings).Begins caller h) :
    s.Tracks { caller } (happenings ++ [h]) := by
  refine ⟨happenings, h, [], rfl, ⟨hbegins, ?_⟩, ?_⟩
  · intro between other rest hsplit
    simp at hsplit
  · intro service report hreport
    cases service <;> cases hreport

end Histories

/-- What is known of a shift after some happenings: how the round on its way came about, and every
answer that is still to be shown. -/
structure Sound (s : Shift) (happenings : List Happening) : Prop where
  passed : (s.run happenings).passed = happenings.length
  single : ∀ place, place ≠ 0 → (s.run happenings).crew.lookouts[place]? = none
  honest : ∀ m, (s.run happenings).monitor? = some m → m.IsHonest
  tracks : ∀ m round, (s.run happenings).monitor? = some m → m.round = some round →
    s.Tracks round happenings
  due : ∀ since index o, (since, .poller index (.overview o)) ∈ (s.run happenings).due →
    ∃ asked rest, happenings = asked ++ rest ∧ asked.length = since + 1 ∧
      s.Answers (.poller index) o asked

section Sound
variable {s : Shift} {happenings : List Happening}

theorem sound_opened (cached : Option Overview) (now : Time.Instant) (cache : Option Store)
    (poller : Poller) (counters : List Counter) :
    Sound (opened cached now cache poller counters) [] where
  passed := rfl
  single place hplace := by
    cases place with
    | zero => exact absurd rfl hplace
    | succ place => rfl
  honest := by
    rintro m ⟨⟩
    exact nofun
  tracks := by
    rintro m round ⟨⟩ ⟨⟩
  due _ _ _ h := absurd h List.not_mem_nil

/-- No round is begun while one is on its way. -/
theorem Sound.quiet (hsound : Sound s happenings) {m : Monitor Asker} {round : Round Asker}
    (hm : (s.run happenings).monitor? = some m) (hround : m.round = some round) (h : Happening)
    (other : Asker) : ¬ (s.run happenings).Begins other h := by
  rintro ⟨-, m', hm', hfree⟩
  cases hm.symm.trans hm'
  have hbusy := hsound.honest m hm (by rw [hround]; rfl)
  rw [hfree] at hbusy
  cases hbusy

/-- The round that is on its way once the monitor was told something. -/
theorem Sound.tracks_told (hsound : Sound s happenings) {h : Happening} {m : Monitor Asker}
    {told : Monitor.Event Asker} {round : Round Asker}
    (hm : (s.run happenings).monitor? = some m) (htold : (s.run happenings).told? h = some told)
    (hruns : m.Runs round told) : s.Tracks round (happenings ++ [h]) := by
  cases hruns with
  | begun hfree hround =>
      rw [hround]
      exact tracks_begun ⟨htold, m, hm, hfree⟩
  | replied hold hround =>
      rw [hround]
      exact (hsound.tracks m _ hm hold).add ⟨htold, m, _, hm, hold, rfl⟩
  | kept hround => exact (hsound.tracks m round hm hround).append (hsound.quiet hm hround h)

theorem Tracks.answers {round : Round Asker} {o : Overview}
    (htracks : s.Tracks round happenings) (ho : round.overview? = some o) :
    s.Answers round.caller o happenings := by
  obtain ⟨before, ask, since, rfl, hlatest, hhears⟩ := htracks
  exact .probed hlatest (hhears .node o.node (Round.report?_of_overview? ho .node))

/-- An answer that the monitor gives now. -/
theorem Sound.answers_step (hsound : Sound s happenings) {h : Happening} {m : Monitor Asker}
    {told : Monitor.Event Asker} {caller : Asker} {o : Overview}
    (hm : (s.run happenings).monitor? = some m) (htold : (s.run happenings).told? h = some told)
    (hanswers : m.Answers caller told o) : s.Answers caller o (happenings ++ [h]) := by
  cases hanswers with
  | known hbusy => exact .known ⟨htold, m, hm, hbusy, rfl⟩
  | @replied round service report _ hround hcaller ho =>
      have htracks := hsound.tracks_told hm htold (.replied hround rfl)
      rw [← hcaller, ← Round.caller_add round service report]
      exact htracks.answers ho
  | stored hround hcaller ho =>
      rw [← hcaller]
      exact (hsound.tracks_told hm htold (.kept hround)).answers ho

/-- The monitor after a step, from the one before. -/
theorem monitor_of_step {h : Happening} {m : Monitor Asker}
    (hm : (s.step h).monitor? = some m) : ∃ old, s.monitor? = some old ∧
      m = (s.told? h).elim old fun told => (old.step told).1 := by
  rw [monitor?_step] at hm
  obtain ⟨old, hold, rfl⟩ := Option.map_eq_some_iff.mp hm
  exact ⟨old, hold, rfl⟩

theorem Sound.honest_step (hsound : Sound s happenings) {h : Happening} {m : Monitor Asker}
    (hm : ((s.run happenings).step h).monitor? = some m) : m.IsHonest := by
  obtain ⟨old, hold, rfl⟩ := monitor_of_step hm
  cases (s.run happenings).told? h with
  | none => exact hsound.honest old hold
  | some told => exact (hsound.honest old hold).step told

theorem Sound.tracks_of_step (hsound : Sound s happenings) {h : Happening} {m : Monitor Asker}
    {round : Round Asker} (hm : ((s.run happenings).step h).monitor? = some m)
    (hround : m.round = some round) : s.Tracks round (happenings ++ [h]) := by
  obtain ⟨old, hold, rfl⟩ := monitor_of_step hm
  cases htold : (s.run happenings).told? h with
  | none =>
      rw [htold] at hround
      exact (hsound.tracks old round hold hround).append (hsound.quiet hold hround h)
  | some told =>
      rw [htold] at hround
      exact hsound.tracks_told hold htold (Monitor.runs_of_step hround)

/-- An overview that is due was due before, or is answered now. -/
theorem Sound.due_step (hsound : Sound s happenings) {h : Happening} {since index : Nat}
    {o : Overview} (hdue : (since, .poller index (.overview o)) ∈ ((s.run happenings).step h).due) :
    ∃ asked rest, happenings ++ [h] = asked ++ rest ∧ asked.length = since + 1 ∧
      s.Answers (.poller index) o asked := by
  rcases mem_due_step _ h hdue with hwas | ⟨hsince, cause, delay, hcause, hafter⟩
  · obtain ⟨asked, rest, rfl, hlength, hanswers⟩ := hsound.due since index o hwas
    exact ⟨asked, rest ++ [h], List.append_assoc .., hlength, hanswers⟩
  · obtain ⟨place, told, k, htells, hk, hanswers⟩ := Crew.answers_of_mem_step hafter
    obtain rfl : place = 0 := Decidable.byContradiction fun hplace => by
      cases hk.symm.trans (hsound.single place hplace)
    have htold : (s.run happenings).told? h = some told := by simp [told?, hcause, htells]
    have hm : (s.run happenings).monitor? = some k.monitor := by simp [monitor?, hk]
    refine ⟨happenings ++ [h], [], (List.append_nil _).symm, ?_,
      hsound.answers_step hm htold hanswers⟩
    rw [List.length_append, List.length_singleton, hsince, hsound.passed]

theorem Sound.step (hsound : Sound s happenings) (h : Happening) :
    Sound s (happenings ++ [h]) := by
  have hrun : s.run (happenings ++ [h]) = (s.run happenings).step h := run_append ..
  refine ⟨?_, ?_, ?_, ?_, ?_⟩ <;> rw [hrun]
  · rw [passed_step, hsound.passed, List.length_append, List.length_singleton]
  · exact fun place hplace => getElem?_lookouts_step _ h (hsound.single place hplace)
  · exact fun m hm => hsound.honest_step hm
  · exact fun m round hm hround => hsound.tracks_of_step hm hround
  · exact fun since index o hdue => hsound.due_step hdue

theorem Sound.run (hsound : Sound s []) (happenings : List Happening) : Sound s happenings := by
  induction happenings using List.reverseRecOn with
  | nil => exact hsound
  | append_singleton happenings h ih => exact ih.step h

/-- Only what the crew itself has asked for shows an overview. -/
theorem due_of_overview {h : Happening} {index : Nat} {o : Overview}
    (hevent : s.event? h = some (.poller index (.overview o))) :
    ∃ now place since, h = .due now place ∧
      s.due[place]? = some (since, .poller index (.overview o)) := by
  cases h with
  | outside now event =>
      rw [event?] at hevent
      split at hevent
      next houtside =>
        cases hevent
        cases houtside
      next => cases hevent
  | due now place =>
      obtain ⟨⟨since, event⟩, hdue, rfl⟩ := Option.map_eq_some_iff.mp hevent
      exact ⟨now, place, since, rfl, hdue⟩

end Sound

/-- The lamp of the node is lit by the answer to a health refresh whose report on the node is good, and
by nothing else. The answer was given at the happening at which it became due. A refresh that did not
ask during another round began the latest round there was then, and the report on the node came in
during that round: it was received after the refresh had asked, and so after anything that had put
the lamp out before. -/
theorem lamp_lit_by_refresh (cached : Option Overview) (now : Time.Instant) (cache : Option Store)
    (poller : Poller) (counters : List Counter) (happenings : List Happening) (h : Happening)
    (hout : ((opened cached now cache poller counters).run happenings).lamp = false)
    (hlit : ((opened cached now cache poller counters).run (happenings ++ [h])).lamp = true) :
    ∃ shown place since o, h = .due shown place ∧
      ((opened cached now cache poller counters).run happenings).due[place]? =
        some (since, .poller 0 (.overview o)) ∧ o.node.connected = true ∧
      ∃ asked rest, happenings = asked ++ rest ∧ asked.length = since + 1 ∧
        (opened cached now cache poller counters).Answers (.poller 0) o asked := by
  have hsound := (sound_opened cached now cache poller counters).run happenings
  rw [run_append] at hlit
  rcases lit_of_step _ h hlit with hwas | ⟨o, hevent, ho⟩
  · cases hout.symm.trans hwas
  · obtain ⟨shown, place, since, rfl, hdue⟩ := due_of_overview hevent
    exact ⟨shown, place, since, o, rfl, hdue, ho,
      hsound.due since 0 o (List.mem_of_getElem? hdue)⟩

/-! ## A round that is overtaken -/

/-- A poller and its monitor at the beginning; nothing is known of the services. -/
def sample : Shift :=
  opened none .epoch none
    { scheduler := { panel := {} }, store := ⟨"data"⟩, lookout := 0, refreshEvery := 2000,
      healthEvery := 3100, listener := 0 } []

/-- A probe that finds a service well. -/
def wellProbed (service : Service) : Happening :=
  .outside .epoch (.probed 0 service (.ok ⟨200, true, none⟩))

/-- A health refresh asks for a round of probes, which finds both services well. -/
def sampleRound : List Happening :=
  [.outside .epoch (.poller 0 .healthTick), .due .epoch 0, wellProbed .node, wellProbed .simulator]

/-- The answer to the round lights the lamp, and it is good. -/
theorem lamp_lit_by_refresh_sample :
    ((sample.run sampleRound).lamp = false ∧
      (sample.run (sampleRound ++ [.due .epoch 1])).lamp = true) ∧
    ∃ shown place since o, Happening.due .epoch 1 = .due shown place ∧
      (sample.run sampleRound).due[place]? = some (since, .poller 0 (.overview o)) ∧
      o.node.connected = true ∧
      ∃ asked rest, sampleRound = asked ++ rest ∧ asked.length = since + 1 ∧
        sample.Answers (.poller 0) o asked :=
  ⟨⟨rfl, rfl⟩, lamp_lit_by_refresh none .epoch none _ [] sampleRound (.due .epoch 1) rfl rfl⟩

/-- Whenever the lamp was out and is lit, a report on the node has come in since it went out. -/
def LitByNews (s : Shift) : Prop :=
  ∀ before failure between lighting, (s.run before).lamp = true →
    (∀ early late, between = early ++ late →
      (s.run (before ++ failure :: early)).lamp = false) →
    (s.run (before ++ failure :: (between ++ [lighting]))).lamp = true →
    ∃ early reply late report, between ++ [lighting] = early ++ reply :: late ∧
      (s.run (before ++ failure :: early)).told? reply = some (.reply .node report)

/-- The lamp is lit. Then the node is found well in the next round, and the ledger fails a wallet round
before the simulator is heard of. -/
def overtakenRound : List Happening :=
  sampleRound ++
  [.due .epoch 1, .due .epoch 0, .due .epoch 0, wellProbed .node,
    .outside .epoch (.poller 0 .refreshTick),
    .outside .epoch (.poller 0 (.snapshot (some (1, Store.sampleWallet (.zero false))))),
    .outside .epoch (.poller 0 (.balance (.error (.transport "down"))))]

/-- The end of the wallet round puts the lamp out. The answer to the round of probes lights it again,
although nothing was heard of the node meanwhile: a round is shown as a whole, once the report on the
slower service has come. -/
theorem not_litByNews : ¬ sample.LitByNews := by
  intro hnews
  let failure : Happening := .outside .epoch (.poller 0 (.history (.ok [])))
  have hout : ∀ early late : List Happening, [wellProbed .simulator] = early ++ late →
      (sample.run (overtakenRound ++ failure :: early)).lamp = false := by
    rintro (_ | ⟨first, _ | ⟨second, rest⟩⟩) late hsplit
    · rfl
    · cases hsplit
      rfl
    · cases hsplit
  obtain ⟨early, reply, late, report, hsplit, hreply⟩ :=
    hnews overtakenRound failure [wellProbed .simulator] (.due .epoch 2) rfl hout rfl
  -- Since the failure there was a report on the simulator, and the answer was shown.
  rcases early with _ | ⟨first, _ | ⟨second, rest⟩⟩
  · cases hsplit
    cases hreply
  · cases hsplit
    cases hreply
  · exact absurd (List.cons.inj (List.cons.inj hsplit).2).2 (by simp)

end Shift
end WalletEngine
