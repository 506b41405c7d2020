import Mathlib.Data.List.Basic
import Mathlib.Data.Prod.Basic
import WalletEngine.Proofs.Liveness.Rounds

/-! # One round at a time

Whoever begins a full round holds the guard of the monitor's flight until the round has its answer
or the caller goes away, and with the caller the round. A call that comes meanwhile asks nobody,
stores nothing and is answered at once.
-/

namespace WalletEngine.Polling

/-! ## Guards -/

/-- A mark with the guards that are alive. Attempts are numbered, and a guard has the number of the
attempt that obtained it. -/
structure Guards where
  flight : Flight := {}
  tried : Nat := 0
  alive : List Nat := []

/-- What is done with a mark, through any of its clones, and with its guards. -/
inductive Guards.Use where
  | tryBegin
  | drop (guard : Nat)

namespace Guards
variable {g : Guards}

/-- A guard is given back once; one that is gone cannot be. -/
def step (g : Guards) : Use → Guards
  | .tryBegin =>
    match g.flight.begin? with
    | none => { g with tried := g.tried + 1 }
    | some flight => { flight, tried := g.tried + 1, alive := g.alive ++ [g.tried] }
  | .drop guard =>
    if guard ∈ g.alive then { g with flight := g.flight.finish, alive := g.alive.erase guard }
    else g

def run (g : Guards) (uses : List Use) : Guards := uses.foldl step g

/-- Either the mark is clear and no guard is alive, or it is set and one is. -/
inductive Exact (g : Guards) : Prop
  | clear (hflight : g.flight = {}) (halive : g.alive = [])
  | taken (guard : Nat) (hflight : g.flight = ⟨true, 1⟩) (halive : g.alive = [guard])

theorem Exact.step (h : g.Exact) (use : Use) : (g.step use).Exact := by
  cases h with
  | clear hflight halive =>
      cases use with
      | tryBegin =>
          apply Exact.taken g.tried
          · simp [Guards.step, hflight, Flight.begin?]
          · simp [Guards.step, hflight, halive, Flight.begin?]
      | drop guard =>
          rw [Guards.step, halive, if_neg List.not_mem_nil]
          exact .clear hflight halive
  | taken held hflight halive =>
      cases use with
      | tryBegin =>
          apply Exact.taken held
          · simp [Guards.step, hflight, Flight.begin?]
          · simp [Guards.step, hflight, halive, Flight.begin?]
      | drop guard =>
          by_cases hguard : guard = held
          · apply Exact.clear
            · simp [Guards.step, hflight, halive, hguard, Flight.finish]
            · simp [Guards.step, halive, hguard]
          · rw [Guards.step, halive, if_neg (by simpa using hguard)]
            exact .taken held hflight halive

theorem Exact.run (h : g.Exact) (uses : List Use) : (g.run uses).Exact := by
  induction uses generalizing g with
  | nil => exact h
  | cons use rest ih => exact ih (h.step use)

theorem Exact.busy_iff (h : g.Exact) : g.flight.busy = true ↔ ∃ guard, g.alive = [guard] := by
  cases h with
  | clear hflight halive => simp [hflight, halive]
  | taken guard hflight halive => simp [hflight, halive]

theorem Exact.length_alive_le (h : g.Exact) : g.alive.length ≤ 1 := by
  cases h with
  | clear hflight halive => simp [halive]
  | taken guard hflight halive => simp [halive]

end Guards
end WalletEngine.Polling

namespace WalletEngine.Liveness

open Monitor (Event Effect)

/-! ## What a round lacks -/

section Missing
variable {κ : Type} {r : Round κ}

/-- The services whose reports have not come. -/
def Round.missing (r : Round κ) : List Service :=
  [.node, .simulator].filter fun service => (r.report? service).isNone

theorem Round.missing_add (r : Round κ) (service : Service) (report : Report) :
    (r.add service report).missing = r.missing.erase service := by
  obtain ⟨caller, node, simulator⟩ := r
  cases service <;> cases node <;> cases simulator <;> rfl

theorem Round.missing_ne_nil_iff : r.missing ≠ [] ↔ r.overview? = none := by
  obtain ⟨caller, node, simulator⟩ := r
  cases node <;> cases simulator <;> simp [missing, report?, overview?]

theorem Round.missing_of_overview? {o : Overview} (h : r.overview? = some o) :
    r.missing = [] := by
  by_contra hmissing
  rw [missing_ne_nil_iff.mp hmissing] at h
  cases h

end Missing

theorem Monitor.flight_endRound {κ : Type} {m : Monitor κ} (h : m.flight = ⟨true, 1⟩) :
    m.endRound.flight = {} := by
  rw [endRound, h]
  rfl

/-! ## A monitor and its callers -/

/-- A monitor among those who call it. Calls are numbered as they come. -/
structure Clientele where
  monitor : Monitor Nat
  /-- The requests of rounds that are on their way, each with the call that made it. -/
  requests : List (Nat × Service) := []
  /-- The calls that wait for the store. -/
  storing : List Nat := []
  /-- What was handed to the store. -/
  handed : List Overview := []
  /-- The calls that are over, with their answers; a call whose caller went away has none. -/
  closed : List (Nat × Option Overview) := []
  asked : Nat := 0

namespace Clientele

/-- What happens to a monitor and its callers. -/
inductive Happening where
  /-- Somebody calls for a full round. -/
  | ask
  | reply (call : Nat) (service : Service) (report : Report)
  /-- The store is done with what a call has handed to it. -/
  | stored (call : Nat)
  /-- The caller goes away. -/
  | leave (call : Nat)
  /-- A single probe, which anybody may make, comes back. -/
  | single (service : Service) (report : Report)

variable {w : Clientele}

/-- A call carries out an effect. -/
def heed (call : Nat) (w : Clientele) : Effect Nat → Clientele
  | .probe service => { w with requests := w.requests ++ [(call, service)] }
  | .store overview =>
    { w with storing := w.storing ++ [call], handed := w.handed ++ [overview] }
  | .answer caller overview => { w with closed := w.closed ++ [(caller, some overview)] }

/-- The monitor is told of an event within a call. -/
def tell (w : Clientele) (call : Nat) (event : Event Nat) : Clientele :=
  (w.monitor.step event).2.foldl (heed call) { w with monitor := (w.monitor.step event).1 }

/-- The calls that are waiting, each as often as it waits. -/
def waiting (w : Clientele) : List Nat := w.requests.map Prod.fst ++ w.storing

/-- The calls that are over. -/
def done (w : Clientele) : List Nat := w.closed.map Prod.fst

/-- Only what is outstanding comes back, and a call that is over cannot be left. -/
def step (w : Clientele) : Happening → Clientele
  | .ask => tell { w with asked := w.asked + 1 } w.asked (.ask w.asked)
  | .reply call service report =>
    if (call, service) ∈ w.requests then
      tell { w with requests := w.requests.erase (call, service) } call (.reply service report)
    else w
  | .stored call =>
    if call ∈ w.storing then tell { w with storing := w.storing.erase call } call .stored
    else w
  | .leave call =>
    if call ∈ w.waiting then
      tell { w with
        requests := w.requests.filter (·.1 ≠ call)
        storing := w.storing.filter (· ≠ call)
        closed := w.closed ++ [(call, none)] } call .abandon
    else w
  | .single service report => tell w w.asked (.single service report)

def run (w : Clientele) (happenings : List Happening) : Clientele := happenings.foldl step w

/-- A monitor that nobody has called yet. -/
def opened (caching : Bool) (cached : Option Overview) (now : Time.Instant) : Clientele :=
  { monitor := .start caching cached now }

theorem step_ask_of_busy (h : w.monitor.flight.busy = true) :
    w.step .ask =
      { w with asked := w.asked + 1, closed := w.closed ++ [(w.asked, some w.monitor.latest)] } := by
  rw [step, tell, Monitor.step_ask_of_busy _ h]
  rfl

theorem step_ask_of_free (h : w.monitor.flight = {}) :
    w.step .ask =
      { w with
        monitor := { w.monitor with flight := ⟨true, 1⟩, round := some { caller := w.asked } }
        requests := w.requests ++ [(w.asked, .node), (w.asked, .simulator)]
        asked := w.asked + 1 } := by
  simp [step, tell, Monitor.step, Polling.Flight.begin?, h, heed]

/-! ## How a round goes -/

/-- Either no round is on its way and no call waits, or the caller of the round waits for the
reports that it lacks, or for the store if it lacks none. The calls that came are over but for this
one. -/
inductive Phase (w : Clientele) : Option Nat → Prop
  | idle (hround : w.monitor.round = none) (hflight : w.monitor.flight = {})
      (hrequests : w.requests = []) (hstoring : w.storing = [])
      (hdone : w.done.Perm (List.range w.asked)) : Phase w none
  | running (caller : Nat) (round : Round Nat) (hround : w.monitor.round = some round)
      (hcaller : round.caller = caller) (hflight : w.monitor.flight = ⟨true, 1⟩)
      (hrequests : w.requests = round.missing.map (Prod.mk caller))
      (hstoring : w.storing = if round.missing = [] then [caller] else [])
      (hdone : (w.done ++ [caller]).Perm (List.range w.asked)) : Phase w (some caller)

/-- A round goes on or has ended. -/
def Lasts (w : Clientele) (caller : Option Nat) : Prop := w.Phase caller ∨ w.Phase none

theorem Phase.begins (h : w.Phase none) : (w.step .ask).Phase (some w.asked) := by
  cases h with
  | idle hround hflight hrequests hstoring hdone =>
      rw [step_ask_of_free hflight]
      refine .running w.asked { caller := w.asked } rfl rfl rfl ?_ hstoring ?_
      · rw [hrequests]
        rfl
      · simp only [done, List.range_succ]
        exact hdone.append_right [w.asked]

theorem Phase.turns {caller : Nat} (h : w.Phase (some caller)) :
    (w.step .ask).Phase (some caller) := by
  cases h with
  | running caller round hround hcaller hflight hrequests hstoring hdone =>
      rw [step_ask_of_busy (by rw [hflight])]
      refine .running caller round hround hcaller hflight hrequests hstoring ?_
      simp only [done, List.map_append, List.range_succ, List.append_assoc] at hdone ⊢
      refine List.Perm.trans ?_ (hdone.append_right [w.asked])
      rw [List.append_assoc]
      exact List.Perm.append_left _ (.swap _ _ _)

/-- Only the caller of the round has requests on their way, for what the round lacks. -/
theorem mem_missing_of_mem {round : Round Nat} {caller call : Nat} {service : Service}
    (hrequests : w.requests = round.missing.map (Prod.mk caller))
    (h : (call, service) ∈ w.requests) : call = caller ∧ service ∈ round.missing := by
  rw [hrequests] at h
  obtain ⟨other, hother, hsame⟩ := List.mem_map.mp h
  cases hsame
  exact ⟨rfl, hother⟩

theorem Phase.reply {caller : Option Nat} (h : w.Phase caller) (call : Nat) (service : Service)
    (report : Report) : (w.step (.reply call service report)).Lasts caller := by
  rw [step]
  split
  next hmem =>
    cases h with
    | idle hround hflight hrequests hstoring hdone =>
        rw [hrequests] at hmem
        cases hmem
    | running caller round hround hcaller hflight hrequests hstoring hdone =>
        obtain ⟨rfl, hservice⟩ := mem_missing_of_mem hrequests hmem
        have hgrown := (Round.caller_add round service report).trans hcaller
        have hleft : w.requests.erase (call, service) =
            (round.add service report).missing.map (Prod.mk call) := by
          rw [hrequests, Round.missing_add, List.map_erase (Prod.mk_right_injective call)]
        rw [if_neg (List.ne_nil_of_mem hservice)] at hstoring
        cases hallview : (round.add service report).overview? with
        | none =>
            simp only [tell, Monitor.step, hround, hallview, List.foldl_nil]
            left
            refine .running call _ rfl hgrown hflight hleft ?_ hdone
            rw [if_neg (Round.missing_ne_nil_iff.mpr hallview)]
            exact hstoring
        | some overview =>
            have hnone := Round.missing_of_overview? hallview
            cases hcaching : w.monitor.caching with
            | true =>
                simp only [tell, Monitor.step, hround, hallview, hcaching, if_true,
                  List.foldl_cons, List.foldl_nil, heed]
                left
                refine .running call _ rfl hgrown hflight hleft ?_ hdone
                rw [if_pos hnone, hstoring]
                rfl
            | false =>
                simp only [tell, Monitor.step, hround, hallview, hcaching, Bool.false_eq_true,
                  if_false, List.foldl_cons, List.foldl_nil, heed, hgrown]
                rw [hnone] at hleft
                right
                refine .idle rfl (Monitor.flight_endRound hflight) hleft hstoring ?_
                simp only [done, List.map_append]
                exact hdone
  next => exact .inl h

theorem Phase.stored {caller : Option Nat} (h : w.Phase caller) (call : Nat) :
    (w.step (.stored call)).Lasts caller := by
  rw [step]
  split
  next hmem =>
    cases h with
    | idle hround hflight hrequests hstoring hdone =>
        rw [hstoring] at hmem
        cases hmem
    | running caller round hround hcaller hflight hrequests hstoring hdone =>
        by_cases hmissing : round.missing = []
        · rw [if_pos hmissing] at hstoring
          rw [hmissing] at hrequests
          rw [hstoring] at hmem
          obtain rfl := List.mem_singleton.mp hmem
          cases hallview : round.overview? with
          | none => exact absurd hmissing (Round.missing_ne_nil_iff.mpr hallview)
          | some overview =>
              simp only [tell, Monitor.step, hround, hallview, List.foldl_cons, List.foldl_nil,
                heed, hstoring, hcaller]
              right
              refine .idle rfl (Monitor.flight_endRound hflight) hrequests (by simp) ?_
              simp only [done, List.map_append]
              exact hdone
        · rw [if_neg hmissing] at hstoring
          rw [hstoring] at hmem
          cases hmem
  next => exact .inl h

/-- Whoever waits is the caller of the round. -/
theorem eq_caller_of_mem_waiting {round : Round Nat} {caller call : Nat}
    (hrequests : w.requests = round.missing.map (Prod.mk caller))
    (hstoring : w.storing = if round.missing = [] then [caller] else [])
    (h : call ∈ w.waiting) : call = caller := by
  rcases List.mem_append.mp h with h | h
  · obtain ⟨⟨other, service⟩, hother, rfl⟩ := List.mem_map.mp h
    exact (mem_missing_of_mem hrequests hother).1
  · rw [hstoring] at h
    split at h
    next => exact List.mem_singleton.mp h
    next => cases h

theorem Phase.leave {caller : Option Nat} (h : w.Phase caller) (call : Nat) :
    (w.step (.leave call)).Lasts caller := by
  rw [step]
  split
  next hmem =>
    cases h with
    | idle hround hflight hrequests hstoring hdone =>
        rw [waiting, hrequests, hstoring] at hmem
        cases hmem
    | running caller round hround hcaller hflight hrequests hstoring hdone =>
        obtain rfl := eq_caller_of_mem_waiting hrequests hstoring hmem
        simp only [tell, Monitor.step, hround, Option.isSome_some, if_true, List.foldl_nil]
        right
        refine .idle rfl (Monitor.flight_endRound hflight) ?_ ?_ ?_
        · simp [hrequests]
        · simp only [hstoring]
          split <;> simp
        · simp only [done, List.map_append]
          exact hdone
  next => exact .inl h

theorem Phase.single {caller : Option Nat} (h : w.Phase caller) (service : Service)
    (report : Report) : (w.step (.single service report)).Phase caller := by
  cases h with
  | idle hround hflight hrequests hstoring hdone =>
      exact .idle hround hflight hrequests hstoring hdone
  | running caller round hround hcaller hflight hrequests hstoring hdone =>
      exact .running caller round hround hcaller hflight hrequests hstoring hdone

/-- While a round is on its way, no other begins. -/
theorem Phase.lasts {caller : Nat} (h : w.Phase (some caller)) (happening : Happening) :
    (w.step happening).Lasts (some caller) := by
  cases happening with
  | ask => exact .inl h.turns
  | reply call service report => exact h.reply call service report
  | stored call => exact h.stored call
  | leave call => exact h.leave call
  | single service report => exact .inl (h.single service report)

theorem Phase.step {caller : Option Nat} (h : w.Phase caller) (happening : Happening) :
    ∃ next, (w.step happening).Phase next := by
  cases caller with
  | some caller => exact (h.lasts happening).elim (⟨_, ·⟩) (⟨_, ·⟩)
  | none =>
      cases happening with
      | ask => exact ⟨_, h.begins⟩
      | reply call service report => exact ⟨none, (h.reply call service report).elim id id⟩
      | stored call => exact ⟨none, (h.stored call).elim id id⟩
      | leave call => exact ⟨none, (h.leave call).elim id id⟩
      | single service report => exact ⟨none, h.single service report⟩

theorem Phase.run {caller : Option Nat} (h : w.Phase caller) (happenings : List Happening) :
    ∃ next, (w.run happenings).Phase next := by
  induction happenings generalizing w caller with
  | nil => exact ⟨caller, h⟩
  | cons happening rest ih =>
      obtain ⟨next, hnext⟩ := h.step happening
      exact ih hnext

theorem phase_opened (caching : Bool) (cached : Option Overview) (now : Time.Instant) :
    (opened caching cached now).Phase none :=
  .idle rfl rfl rfl rfl (.refl _)

/-! ## Exclusion -/

/-- The next call asks both services. -/
def Begins (w : Clientele) : Prop :=
  ∃ monitor, w.step .ask =
    { w with
      monitor
      requests := [(w.asked, .node), (w.asked, .simulator)]
      asked := w.asked + 1 }

/-- The next call is answered at once with what is known, and that is all it does. -/
def Turns (w : Clientele) : Prop :=
  w.step .ask =
    { w with asked := w.asked + 1, closed := w.closed ++ [(w.asked, some w.monitor.latest)] }

/-- Of the calls that came all but one are over, and a round begins exactly when all are. -/
structure Exclusive (w : Clientele) : Prop where
  one : ∀ a ∈ w.waiting, ∀ b ∈ w.waiting, a = b
  came : ∀ call, call < w.asked ↔ call ∈ w.waiting ∨ call ∈ w.done
  lives : ∀ call ∈ w.waiting, call ∉ w.done
  once : w.done.Nodup
  meanwhile : w.waiting ≠ [] → w.Turns
  afterwards : (∀ call < w.asked, call ∈ w.done) → w.Begins
  freed : ∀ call ∈ w.waiting, ∀ happening, call ∈ (w.step happening).done →
    (w.step happening).Begins
  left : ∀ call ∈ w.waiting, (call, none) ∈ (w.step (.leave call)).closed

theorem Phase.begins_of_idle (h : w.Phase none) : w.Begins := by
  cases h with
  | idle hround hflight hrequests hstoring hdone =>
      refine ⟨(w.step .ask).monitor, ?_⟩
      rw [step_ask_of_free hflight, hrequests]
      rfl

/-- The caller of a round waits. -/
theorem Phase.mem_waiting_iff {caller : Option Nat} (h : w.Phase caller) (call : Nat) :
    call ∈ w.waiting ↔ some call = caller := by
  cases h with
  | idle hround hflight hrequests hstoring hdone => simp [waiting, hrequests, hstoring]
  | running caller round hround hcaller hflight hrequests hstoring hdone =>
      rw [Option.some.injEq]
      refine ⟨eq_caller_of_mem_waiting hrequests hstoring, ?_⟩
      rintro rfl
      rw [waiting, hrequests, hstoring, List.mem_append, List.map_map]
      cases hmissing : round.missing with
      | nil => exact .inr (List.mem_singleton_self _)
      | cons service rest => exact .inl (List.mem_cons_self ..)

theorem Phase.perm {caller : Option Nat} (h : w.Phase caller) :
    (w.done ++ caller.toList).Perm (List.range w.asked) := by
  cases h with
  | idle hround hflight hrequests hstoring hdone => simpa using hdone
  | running caller round hround hcaller hflight hrequests hstoring hdone => exact hdone

theorem Phase.not_mem_done {caller : Nat} (h : w.Phase (some caller)) : caller ∉ w.done := by
  have hnodup : (w.done ++ [caller]).Nodup := h.perm.nodup_iff.mpr List.nodup_range
  intro hdone
  exact (List.nodup_append.mp hnodup).2.2 caller hdone caller (List.mem_singleton_self _) rfl

theorem mem_closed_leave {call : Nat} (h : call ∈ w.waiting) :
    (call, none) ∈ (w.step (.leave call)).closed := by
  rw [step, if_pos h, tell, Monitor.step]
  split <;> simp

theorem Phase.exclusive {caller : Option Nat} (h : w.Phase caller) : w.Exclusive where
  one a ha b hb := by
    rw [h.mem_waiting_iff] at ha hb
    exact Option.some.inj (ha.trans hb.symm)
  came call := by
    rw [← List.mem_range, ← h.perm.mem_iff, List.mem_append, Option.mem_toList,
      h.mem_waiting_iff, or_comm, eq_comm]
  lives call hcall := by
    obtain rfl := (h.mem_waiting_iff call).mp hcall
    exact h.not_mem_done
  once := (List.nodup_append.mp (h.perm.nodup_iff.mpr List.nodup_range)).1
  meanwhile hwaiting := by
    cases h with
    | idle hround hflight hrequests hstoring hdone =>
        rw [waiting, hrequests, hstoring] at hwaiting
        exact absurd rfl hwaiting
    | running caller round hround hcaller hflight hrequests hstoring hdone =>
        exact step_ask_of_busy (by rw [hflight])
  afterwards hall := by
    cases caller with
    | none => exact h.begins_of_idle
    | some caller =>
        refine absurd (hall caller ?_) h.not_mem_done
        rw [← List.mem_range, ← h.perm.mem_iff]
        simp
  freed call hcall happening hdone := by
    obtain rfl := (h.mem_waiting_iff call).mp hcall
    rcases h.lasts happening with hlasts | hidle
    · exact absurd hdone hlasts.not_mem_done
    · exact hidle.begins_of_idle
  left call hcall := mem_closed_leave hcall

end Clientele

/-- Rounds exclude one another: while a call waits for the services or for the store no other does,
whoever calls meanwhile is turned away with what is known, and as soon as the call is over, be it
answered or left by its caller, the next one begins a round. The mark that they share is set exactly
while one guard is alive. -/
theorem rounds_exclude_one_another (caching : Bool) (cached : Option Overview) (now : Time.Instant)
    (happenings : List Clientele.Happening) (uses : List Polling.Guards.Use) :
    ((Clientele.opened caching cached now).run happenings).Exclusive ∧
      (((Polling.Guards.run {} uses).flight.busy = true ↔
        ∃ guard, (Polling.Guards.run {} uses).alive = [guard]) ∧
        (Polling.Guards.run {} uses).alive.length ≤ 1) := by
  obtain ⟨caller, hphase⟩ := (Clientele.phase_opened caching cached now).run happenings
  have hexact := (Polling.Guards.Exact.clear rfl rfl : ({} : Polling.Guards).Exact).run uses
  exact ⟨hphase.exclusive, hexact.busy_iff, hexact.length_alive_le⟩

-- While the first call waits for the simulator the second is answered. Then the first caller goes
-- away, and the third call begins a round.
example (node : Report) (now : Time.Instant) :
    let w := (Clientele.opened true none now).run
      [.ask, .reply 0 .node node, .ask, .leave 0, .ask]
    w.closed = [(1, some ⟨node, (Overview.unknown now).simulator⟩), (0, none)] ∧
      w.requests = [(2, .node), (2, .simulator)] ∧ w.handed = [] :=
  ⟨rfl, rfl, rfl⟩

end WalletEngine.Liveness
