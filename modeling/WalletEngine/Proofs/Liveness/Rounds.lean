import Mathlib.Data.List.Induction
import WalletEngine.Proofs.Liveness.Monitor

/-! # Full rounds and single probes

A full round answers with the reports that its own probes have brought, and has these stored. Single
probes come back meanwhile, and what they bring is known to the monitor but no part of the round. So
a round that waits for a slow service answers with, and stores, a report on the other service that
may be older than what the monitor knows by then.
-/

namespace WalletEngine.Liveness

open Monitor (Event Effect)

variable {κ : Type}

/-! ## What was heard -/

/-- The report of an event, if it is a single probe of a service. -/
def Monitor.Event.single? (service : Service) : Event κ → Option Report
  | .single other report => if other = service then some report else none
  | _ => none

/-- The last report that single probes of a service have brought. -/
def lastSingle? (service : Service) (events : List (Event κ)) : Option Report :=
  (events.filterMap (Event.single? service)).getLast?

theorem lastSingle?_append (service : Service) (events : List (Event κ)) (event : Event κ) :
    lastSingle? service (events ++ [event]) =
      (event.single? service).or (lastSingle? service events) := by
  rw [lastSingle?, List.filterMap_append]
  cases h : event.single? service with
  | none => simp [h, lastSingle?]
  | some report => simp [h]

/-- A report of a round has come, and what is known of its service is this report or the last one
that single probes have brought since. -/
def Heard (service : Service) (report known : Report) (since : List (Event κ)) : Prop :=
  ∃ early late, since = early ++ .reply service report :: late ∧
    (∀ other, .reply service other ∉ late) ∧ known = (lastSingle? service late).getD report

/-- What is known has been heard since. -/
def Hears (latest : Overview) (round : Round κ) (since : List (Event κ)) : Prop :=
  ∀ service report, round.report? service = some report →
    Heard service report (latest.get service) since

theorem Overview.get_set (o : Overview) (service other : Service) (report : Report) :
    (o.set service report).get other = if other = service then report else o.get other := by
  cases service <;> cases other <;> rfl

section Hearing
variable {latest : Overview} {round : Round κ} {since : List (Event κ)}

theorem Heard.append {service : Service} {report known : Report}
    (h : Heard service report known since) (event : Event κ)
    (hevent : ∀ other, event ≠ .reply service other) :
    Heard service report ((event.single? service).getD known) (since ++ [event]) := by
  obtain ⟨early, late, rfl, hlate, rfl⟩ := h
  refine ⟨early, late ++ [event], by simp, fun other hmem => ?_, ?_⟩
  · rcases List.mem_append.mp hmem with hmem | hmem
    · exact hlate other hmem
    · exact hevent other (List.mem_singleton.mp hmem).symm
  · rw [lastSingle?_append]
    cases event.single? service <;> rfl

/-- A single probe tells what is known of its service, and is no part of the round. -/
theorem Hears.single (h : Hears latest round since) (service : Service) (report : Report) :
    Hears (latest.set service report) round (since ++ [.single service report]) := by
  intro other found hfound
  have hheard := (h other found hfound).append (.single service report) (by simp)
  rw [Overview.get_set]
  by_cases hservice : other = service
  · simpa [Event.single?, hservice] using hheard
  · simpa [Event.single?, hservice, Ne.symm hservice] using hheard

/-- A reply tells what is known of its service, and is the report of the round on it. -/
theorem Hears.reply (h : Hears latest round since) (service : Service) (report : Report) :
    Hears (latest.set service report) (round.add service report)
      (since ++ [.reply service report]) := by
  intro other found hfound
  rw [Round.report?_add] at hfound
  rw [Overview.get_set]
  by_cases hservice : other = service
  · rw [if_pos hservice] at hfound ⊢
    cases hfound
    rw [hservice]
    exact ⟨since, [], rfl, fun _ => List.not_mem_nil, rfl⟩
  · rw [if_neg hservice] at hfound ⊢
    refine (h other found hfound).append (.reply service report) fun report' hsame => ?_
    cases hsame
    exact hservice rfl

/-- Other events bring no report. -/
theorem Hears.other (h : Hears latest round since) (event : Event κ)
    (hsingle : ∀ service report, event ≠ .single service report)
    (hreply : ∀ service report, event ≠ .reply service report) :
    Hears latest round (since ++ [event]) := by
  intro service report hreport
  have hheard := (h service report hreport).append event (hreply service)
  cases event with
  | single service report => exact absurd rfl (hsingle service report)
  | _ => exact hheard

end Hearing

/-! ## Runs of a monitor -/

namespace Monitor

/-- A monitor after events, with the effects that it has asked for. -/
def run (m : Monitor κ) (events : List (Event κ)) : Monitor κ × List (Effect κ) :=
  events.foldl (fun sofar event =>
    ((sofar.1.step event).1, sofar.2 ++ (sofar.1.step event).2)) (m, [])

theorem run_append (m : Monitor κ) (events : List (Event κ)) (event : Event κ) :
    m.run (events ++ [event]) = (((m.run events).1.step event).1,
      (m.run events).2 ++ ((m.run events).1.step event).2) :=
  List.foldl_append

/-- The overview that was handed to the store last. -/
def lastStored? (effects : List (Effect κ)) : Option Overview :=
  (effects.filterMap fun
    | .store overview => some overview
    | _ => none).getLast?

theorem lastStored?_append (done more : List (Effect κ)) :
    lastStored? (done ++ more) = (lastStored? more).or (lastStored? done) := by
  simp only [lastStored?, List.filterMap_append, List.getLast?_append]

variable {m : Monitor κ}

theorem caching_step (event : Event κ) : (m.step event).1.caching = m.caching := by
  cases event with
  | single service report => rfl
  | ask caller =>
      rw [step]
      split <;> rfl
  | reply service report =>
      rw [step]
      split
      next => rfl
      next =>
        dsimp only
        split
        next => rfl
        next => split <;> rfl
  | stored =>
      rw [step]
      split
      next => rfl
      next => split <;> rfl
  | abandon =>
      rw [step]
      split <;> rfl

theorem step_ask_of_busy (caller : κ) (h : m.flight.busy = true) :
    m.step (.ask caller) = (m, [.answer caller m.latest]) := by
  rw [step, Polling.Flight.begin?_eq_none.mpr h]

theorem step_ask_of_free (caller : κ) (h : m.flight.busy = false) :
    ∃ flight, flight.busy = true ∧ m.step (.ask caller) =
      ({ m with flight, round := some { caller } }, [.probe .node, .probe .simulator]) := by
  refine ⟨⟨true, m.flight.guards + 1⟩, rfl, ?_⟩
  simp [step, Polling.Flight.begin?, h]

theorem latest_step_reply {round : Round κ} (hround : m.round = some round) (service : Service)
    (report : Report) :
    (m.step (.reply service report)).1.latest = m.latest.set service report := by
  simp only [step, hround]
  split
  next => rfl
  next => split <;> rfl

theorem round_step_reply {round grown : Round κ} {service : Service} {report : Report}
    (hround : m.round = some round)
    (hgrown : (m.step (.reply service report)).1.round = some grown) :
    grown = round.add service report := by
  simp only [step, hround] at hgrown
  split at hgrown
  next => cases hgrown; rfl
  next =>
    split at hgrown
    next => cases hgrown; rfl
    next => cases hgrown

/-- A round that is on its way still was not stored. -/
theorem step_stored_of_round {round : Round κ} (h : (m.step .stored).1.round = some round) :
    m.step .stored = (m, []) := by
  cases hround : m.round with
  | none => simp only [step, hround]
  | some old =>
      cases hoverview : old.overview? with
      | none => simp only [step, hround, hoverview]
      | some overview =>
          simp only [step, hround, hoverview] at h
          cases h

end Monitor

/-- How the round on its way has come about: it was begun by its caller's question, has been on its
way since, and has brought the reports that it has. -/
structure Tracks (m : Monitor κ) (before since : List (Event κ)) (latest : Overview)
    (round : Round κ) : Prop where
  begins : (m.run before).1.flight.busy = false
  lasts : ∀ part rest, since = part ++ rest →
    (m.run (before ++ .ask round.caller :: part)).1.round.isSome = true
  hears : Hears latest round since

section Histories
variable {m : Monitor κ} {before since : List (Event κ)} {latest later : Overview}
  {round grown : Round κ} {event : Event κ}

theorem Tracks.grow (h : Tracks m before since latest round) (hcaller : grown.caller = round.caller)
    (hround : (m.run (before ++ .ask round.caller :: (since ++ [event]))).1.round.isSome = true)
    (hears : Hears later grown (since ++ [event])) :
    Tracks m before (since ++ [event]) later grown where
  begins := h.begins
  lasts part rest hsplit := by
    rw [hcaller]
    rcases List.eq_nil_or_concat rest with rfl | ⟨rest, last, rfl⟩
    · rw [List.append_nil] at hsplit
      rw [← hsplit]
      exact hround
    · rw [List.concat_eq_append, ← List.append_assoc] at hsplit
      exact h.lasts part rest (List.append_inj' hsplit rfl).1
  hears := hears

/-- What is known of a monitor after some events. -/
structure Sound (m : Monitor κ) (events : List (Event κ)) : Prop where
  caches : (m.run events).1.caching = m.caching
  tracks : ∀ round, (m.run events).1.round = some round → ∃ before since,
    events = before ++ .ask round.caller :: since ∧
      Tracks m before since (m.run events).1.latest round
  stored : m.caching = true → ∀ round o, (m.run events).1.round = some round →
    round.overview? = some o → Monitor.lastStored? (m.run events).2 = some o

variable {events : List (Event κ)}

theorem sound_idle (hidle : m.round = none) : Sound m [] where
  caches := rfl
  tracks round hround := by cases hidle.symm.trans hround
  stored _ round _ hround := by cases hidle.symm.trans hround

/-- A round that stays on its way keeps its history. -/
theorem Sound.extends (h : Sound m events) {old : Round κ}
    (hold : (m.run events).1.round = some old) (hcaller : grown.caller = old.caller)
    (hgrown : ((m.run events).1.step event).1.round = some grown)
    (hears : ∀ since, Hears (m.run events).1.latest old since →
      Hears ((m.run events).1.step event).1.latest grown (since ++ [event])) :
    ∃ before since, events ++ [event] = before ++ .ask grown.caller :: since ∧
      Tracks m before since ((m.run events).1.step event).1.latest grown := by
  obtain ⟨before, since, hsplit, htracks⟩ := h.tracks old hold
  have hnow : before ++ .ask old.caller :: (since ++ [event]) = events ++ [event] := by
    simp [hsplit]
  refine ⟨before, since ++ [event], ?_, htracks.grow hcaller ?_ (hears since htracks.hears)⟩
  · rw [hcaller, hnow]
  · rw [hnow, Monitor.run_append]
    simp [hgrown]

theorem Sound.tracks_step (h : Sound m events)
    (hgrown : ((m.run events).1.step event).1.round = some grown) :
    ∃ before since, events ++ [event] = before ++ .ask grown.caller :: since ∧
      Tracks m before since ((m.run events).1.step event).1.latest grown := by
  cases event with
  | single service report =>
      exact h.extends hgrown rfl hgrown fun since hears => hears.single service report
  | ask caller =>
      cases hbusy : (m.run events).1.flight.busy with
      | true =>
          have hsame : ((m.run events).1.step (.ask caller)).1 = (m.run events).1 := by
            rw [Monitor.step_ask_of_busy caller hbusy]
          rw [hsame] at hgrown
          refine h.extends hgrown rfl (by rw [hsame, hgrown]) fun since hears => ?_
          rw [hsame]
          exact hears.other _ (by simp) (by simp)
      | false =>
          obtain ⟨flight, -, hstep⟩ := Monitor.step_ask_of_free caller hbusy
          have hround : ((m.run events).1.step (.ask caller)).1.round = some { caller } := by
            rw [hstep]
          cases hround.symm.trans hgrown
          refine ⟨events, [], rfl, hbusy, fun part rest hsplit => ?_,
            fun service report hreport => by cases service <;> cases hreport⟩
          obtain ⟨rfl, -⟩ := List.append_eq_nil_iff.mp hsplit.symm
          rw [Monitor.run_append, hround]
          rfl
  | reply service report =>
      cases hold : (m.run events).1.round with
      | none =>
          rw [Monitor.step, hold] at hgrown
          cases hold.symm.trans hgrown
      | some old =>
          obtain rfl := Monitor.round_step_reply hold hgrown
          refine h.extends hold (Round.caller_add old service report) hgrown fun since hears => ?_
          rw [Monitor.latest_step_reply hold]
          exact hears.reply service report
  | stored =>
      have hsame := congrArg Prod.fst (Monitor.step_stored_of_round hgrown)
      rw [hsame] at hgrown
      refine h.extends hgrown rfl (by rw [hsame, hgrown]) fun since hears => ?_
      rw [hsame]
      exact hears.other _ (by simp) (by simp)
  | abandon =>
      rw [Monitor.step] at hgrown
      split at hgrown
      next => cases hgrown
      next hnone =>
        rw [hgrown] at hnone
        exact absurd rfl hnone

theorem Sound.stored_step (h : Sound m events) (hcaching : m.caching = true) {o : Overview}
    (hgrown : ((m.run events).1.step event).1.round = some grown) (ho : grown.overview? = some o) :
    Monitor.lastStored? ((m.run events).2 ++ ((m.run events).1.step event).2) = some o := by
  rw [Monitor.lastStored?_append]
  cases event with
  | single service report => exact h.stored hcaching grown o hgrown ho
  | ask caller =>
      cases hbusy : (m.run events).1.flight.busy with
      | true =>
          rw [Monitor.step_ask_of_busy caller hbusy] at hgrown ⊢
          exact h.stored hcaching grown o hgrown ho
      | false =>
          obtain ⟨flight, -, hstep⟩ := Monitor.step_ask_of_free caller hbusy
          rw [hstep] at hgrown
          cases hgrown
          cases ho
  | reply service report =>
      cases hold : (m.run events).1.round with
      | none =>
          rw [Monitor.step, hold] at hgrown
          cases hold.symm.trans hgrown
      | some old =>
          obtain rfl := Monitor.round_step_reply hold hgrown
          have hcaches : (m.run events).1.caching = true := h.caches.trans hcaching
          have heffects : ((m.run events).1.step (.reply service report)).2 = [.store o] := by
            simp only [Monitor.step, hold, ho, hcaches, if_true]
          rw [heffects]
          rfl
  | stored =>
      have hsame := Monitor.step_stored_of_round hgrown
      rw [hsame] at hgrown ⊢
      exact h.stored hcaching grown o hgrown ho
  | abandon =>
      rw [Monitor.step] at hgrown
      split at hgrown
      next => cases hgrown
      next hnone =>
        rw [hgrown] at hnone
        exact absurd rfl hnone

theorem Sound.step (h : Sound m events) (event : Event κ) : Sound m (events ++ [event]) := by
  refine ⟨?_, ?_, ?_⟩ <;> rw [Monitor.run_append]
  · exact (Monitor.caching_step event).trans h.caches
  · exact fun round hround => h.tracks_step hround
  · exact fun hcaching round o hround ho => h.stored_step hcaching hround ho

theorem Sound.run (h : Sound m []) (events : List (Event κ)) : Sound m events := by
  induction events using List.reverseRecOn with
  | nil => exact h
  | append_singleton events event ih => exact ih.step event

end Histories

/-! ## The answer to a round -/

/-- A report is no older than another. -/
def Report.IsNoOlder (r other : Report) : Prop := r.checkedAt.order other.checkedAt ≠ .lt

instance (r other : Report) : Decidable (r.IsNoOlder other) := inferInstanceAs (Decidable (_ ≠ _))

theorem Report.isNoOlder_self (r : Report) : r.IsNoOlder r := by
  simp [IsNoOlder, Time.Instant.order]

/-- The report that an event brings. -/
def Monitor.Event.report? : Event κ → Option Report
  | .single _ report | .reply _ report => some report
  | _ => none

/-- The clock never goes back from one report to the next. -/
def Clocked (events : List (Event κ)) : Prop :=
  (events.filterMap Event.report?).Pairwise fun earlier later => later.IsNoOlder earlier

theorem mem_of_lastSingle? {service : Service} {events : List (Event κ)} {report : Report}
    (h : lastSingle? service events = some report) : .single service report ∈ events := by
  obtain ⟨event, hevent, hreport⟩ := List.mem_filterMap.mp (List.mem_of_getLast? h)
  cases event with
  | single other found =>
      rw [Event.single?] at hreport
      split at hreport
      next hservice =>
        cases hreport
        exact hservice ▸ hevent
      next => cases hreport
  | _ => cases hreport

theorem isNoOlder_of_clocked {service : Service} {report : Report} {front late : List (Event κ)}
    (hclock : Clocked (front ++ .reply service report :: late)) :
    ((lastSingle? service late).getD report).IsNoOlder report := by
  cases hlast : lastSingle? service late with
  | none => exact report.isNoOlder_self
  | some last =>
      rw [Clocked, List.filterMap_append, List.filterMap_cons] at hclock
      have hafter := (List.pairwise_append.mp hclock).2.1
      refine (List.pairwise_cons.mp hafter).1 last ?_
      exact List.mem_filterMap.mpr ⟨_, mem_of_lastSingle? hlast, rfl⟩

/-- What a round answers on a service beside what is known of it then: `since` the round was asked
for, the answer was its own report, and what is known is this report or the last one that a single
probe has brought after it. So the answer is no older than what is known exactly if that single
probe, if there was one, brought nothing newer; what is known is never older than the answer. -/
structure Overtakes (service : Service) (answered known : Report)
    (before since : List (Event κ)) : Prop where
  heard : ∃ early late, since = early ++ .reply service answered :: late ∧
    (∀ other, .reply service other ∉ late) ∧
    known = (lastSingle? service late).getD answered ∧
    (answered.IsNoOlder known ↔ ∀ single ∈ lastSingle? service late, answered.IsNoOlder single)
  clocked : Clocked (before ++ since) → known.IsNoOlder answered

theorem Heard.overtakes {service : Service} {answered known : Report} {since : List (Event κ)}
    (h : Heard service answered known since) (before : List (Event κ)) :
    Overtakes service answered known before since := by
  obtain ⟨early, late, rfl, hlate, rfl⟩ := h
  refine ⟨⟨early, late, rfl, hlate, rfl, ?_⟩, fun hclock => ?_⟩
  · cases lastSingle? service late with
    | none => simp [answered.isNoOlder_self]
    | some last => simp
  · rw [← List.append_assoc] at hclock
    exact isNoOlder_of_clocked hclock

/-- The history of a round that the event completes. -/
theorem Sound.ends {m : Monitor κ} {events : List (Event κ)} (h : Sound m events)
    {old grown : Round κ} {event : Event κ} {later o : Overview}
    (hold : (m.run events).1.round = some old) (ho : grown.overview? = some o)
    (hears : ∀ since, Hears (m.run events).1.latest old since →
      Hears later grown (since ++ [event])) :
    ∃ before since, events ++ [event] = before ++ .ask old.caller :: since ∧
      (m.run before).1.flight.busy = false ∧
      (∀ part rest, since = part ++ rest → rest ≠ [] →
        (m.run (before ++ .ask old.caller :: part)).1.round.isSome = true) ∧
      ∀ service, Overtakes service (o.get service) (later.get service)
        (before ++ [.ask old.caller]) since := by
  obtain ⟨before, since, hsplit, htracks⟩ := h.tracks old hold
  refine ⟨before, since ++ [event], by simp [hsplit], htracks.begins, ?_, fun service => ?_⟩
  · intro part rest hparts hrest
    obtain ⟨rest, last, rfl⟩ := (List.eq_nil_or_concat rest).resolve_left hrest
    rw [List.concat_eq_append, ← List.append_assoc] at hparts
    exact htracks.lasts part rest (List.append_inj' hparts rfl).1
  · have hreport := Round.report?_of_overview? ho service
    exact (hears since htracks.hears service _ hreport).overtakes _

/-- When a full round ends, it answers the caller who began it, and both reports of the answer were
brought by probes of the round, after it was asked for and while it was on its way; a monitor that
caches has handed this answer to the store last. The answer on a service is no older than what is
known of the service then exactly if no single probe has brought anything newer after the report of
the round; what is known is never older than the answer. -/
theorem round_overtaken_iff (caching : Bool) (cached : Option Overview) (now : Time.Instant)
    (events : List (Event κ)) (event : Event κ) (caller : κ) (o : Overview)
    (hends : ∀ asker, event ≠ .ask asker)
    (hanswer : .answer caller o ∈
      (((Monitor.start caching cached now).run events).1.step event).2) :
    ∃ before since, events ++ [event] = before ++ .ask caller :: since ∧
      ((Monitor.start caching cached now).run before).1.flight.busy = false ∧
      (∀ part rest, since = part ++ rest → rest ≠ [] →
        ((Monitor.start caching cached now).run
          (before ++ .ask caller :: part)).1.round.isSome = true) ∧
      (caching = true →
        Monitor.lastStored? ((Monitor.start caching cached now).run events).2 = some o) ∧
      ∀ service, Overtakes service (o.get service)
        (((Monitor.start caching cached now).run (events ++ [event])).1.latest.get service)
        (before ++ [.ask caller]) since := by
  generalize hm : Monitor.start caching cached now = m at hanswer ⊢
  have hidle : m.round = none := by rw [← hm]; rfl
  have hcaching : m.caching = caching := by rw [← hm]; rfl
  have hsound := (sound_idle hidle).run events
  rw [Monitor.run_append]
  cases Monitor.answers_of_mem_step hanswer with
  | known => exact absurd rfl (hends caller)
  | @replied round service report _ hround hcaller ho =>
      obtain ⟨before, since, hsplit, hfree, hlasts, hovertakes⟩ := hsound.ends hround ho
        fun since hears => hears.reply service report
      rw [← Monitor.latest_step_reply hround] at hovertakes
      rw [hcaller] at hsplit hlasts hovertakes
      refine ⟨before, since, hsplit, hfree, hlasts, fun hcaches => ?_, hovertakes⟩
      -- A monitor that caches does not answer before the round was stored.
      have hnow : (m.run events).1.caching = true := by rw [hsound.caches, hcaching, hcaches]
      simp [Monitor.step, hround, ho, hnow] at hanswer
  | @stored round _ hround hcaller ho =>
      obtain ⟨before, since, hsplit, hfree, hlasts, hovertakes⟩ := hsound.ends hround ho
        fun since hears => hears.other .stored (by simp) (by simp)
      have hlatest : ((m.run events).1.step .stored).1.latest = (m.run events).1.latest := by
        simp [Monitor.step, hround, ho, Monitor.endRound]
      rw [← hlatest] at hovertakes
      rw [hcaller] at hsplit hlasts hovertakes
      refine ⟨before, since, hsplit, hfree, hlasts, fun hcaches => ?_, hovertakes⟩
      exact hsound.stored (hcaching.trans hcaches) round o hround ho

/-! ## A round that waits for a slow service -/

/-- The report on an answer that came in some second. -/
def sampleReport (ok : Bool) (second : Nat) : Report :=
  .ofProbe ⟨200, ok, none⟩ (.ofMinute Time.Instant.epoch.date 0 second 0)

/-- A round hears of the node at once and of the simulator later. Meanwhile a single probe finds the
node unwell. -/
def slowRound : List (Event Unit) :=
  [.ask (), .reply .node (sampleReport true 1), .single .node (sampleReport false 2),
    .reply .simulator (sampleReport true 3)]

/-- A monitor that caches, of which nothing was cached. -/
def sampleMonitor : Monitor Unit := .start true none .epoch

/-- The round ends once it is stored, with the reports of its own probes. -/
theorem round_overtaken_sample :
    ((∀ asker, (Event.stored : Event Unit) ≠ .ask asker) ∧
      .answer () ⟨sampleReport true 1, sampleReport true 3⟩ ∈
        ((sampleMonitor.run slowRound).1.step .stored).2) ∧
    ∃ before since, slowRound ++ [.stored] = before ++ .ask () :: since ∧
      Overtakes .node (sampleReport true 1)
        ((sampleMonitor.run (slowRound ++ [.stored])).1.latest.get .node)
        (before ++ [.ask ()]) since := by
  have hends : ∀ asker, (Event.stored : Event Unit) ≠ .ask asker := by simp
  have hanswer : .answer () ⟨sampleReport true 1, sampleReport true 3⟩ ∈
      ((sampleMonitor.run slowRound).1.step .stored).2 := by decide
  obtain ⟨before, since, hsplit, -, -, -, hovertakes⟩ :=
    round_overtaken_iff true none .epoch slowRound .stored () _ hends hanswer
  exact ⟨⟨hends, hanswer⟩, before, since, hsplit, hovertakes .node⟩

/-- What this round answers and has stored of the node is older than what is known of it by then. -/
theorem slow_round_is_stale :
    Clocked (slowRound ++ [.stored]) ∧
    .answer () ⟨sampleReport true 1, sampleReport true 3⟩ ∈
      ((sampleMonitor.run slowRound).1.step .stored).2 ∧
    Monitor.lastStored? (sampleMonitor.run slowRound).2 =
      some ⟨sampleReport true 1, sampleReport true 3⟩ ∧
    (sampleMonitor.run (slowRound ++ [.stored])).1.latest.get .node = sampleReport false 2 ∧
    ¬(sampleReport true 1).IsNoOlder (sampleReport false 2) := by
  refine ⟨?_, by decide, by decide, by decide, by decide⟩
  simp [Clocked, slowRound]
  decide

end WalletEngine.Liveness
