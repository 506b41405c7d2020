import WalletEngine.Crew.Basic
import WalletEngine.Proofs.Relay.Signatures

/-! # What becomes of a call

Calls come to the desk of a coordinator from anywhere, wait, are taken and are handled side by side,
while the desk may close at any time. Every call has one place at the desk. So a call that is answered
is answered with the reply to its own request, and a call that ends without a reply was never taken:
the owner was not asked about it, and nothing was signed for it.
-/

namespace WalletEngine.Relay

/-! ## Places at a desk -/

namespace Desk

/-- The numbers of the calls at a desk, each as often as it has a place. -/
def numbers (d : Desk) : List Nat :=
  d.blocked.map Call.id ++ d.queue.map Call.id ++ d.handling.map Call.id ++ d.outcomes.map Prod.fst

/-- The calls that have not ended. -/
def pending (d : Desk) : List Call := d.blocked ++ d.queue ++ d.handling

/-- How a call has ended is not forgotten. -/
theorem mem_outcomes_step {d : Desk} {o : Nat × Option Reply} (h : o ∈ d.outcomes)
    (event : Event) : o ∈ (d.step event).outcomes := by
  cases event with
  | call c =>
      rw [step]
      split
      next => exact h
      next => exact List.mem_cons_of_mem _ h
  | enter =>
      rw [step]
      split
      next => split <;> exact h
      next => exact h
  | take =>
      rw [step]
      split
      next => split <;> exact h
      next => exact h
  | reply id reply =>
      rw [step]
      split
      next => exact List.mem_cons_of_mem _ h
      next => exact h
  | close =>
      rw [step]
      split
      next => exact List.mem_append_right _ h
      next => exact h

/-- A change in which some calls come, some are taken, and none is answered. -/
structure Moves (d : Desk) (come taken : List Call) (e : Desk) : Prop where
  numbers : e.numbers.Perm (come.map Call.id ++ d.numbers)
  pending : ∀ c ∈ e.pending, c ∈ come ∨ c ∈ d.pending
  handling : e.handling = taken ++ d.handling
  unanswered : ∀ id reply, (id, some reply) ∈ e.outcomes → (id, some reply) ∈ d.outcomes

theorem Moves.refl (d : Desk) : d.Moves [] [] d :=
  ⟨.refl _, fun _ h => .inr h, rfl, fun _ _ h => h⟩

theorem moves_call (d : Desk) (c : Call) : d.Moves [c] [] (d.step (.call c)) := by
  rw [step]
  split
  next =>
    refine ⟨?_, ?_, rfl, fun _ _ h => h⟩
    · rw [List.perm_iff_count]
      intro id
      simp only [numbers, List.map_append, List.map_cons, List.map_nil, List.count_append,
        List.count_cons, List.count_nil]
      omega
    · intro p hp
      simp only [pending, List.mem_append, List.mem_cons, List.not_mem_nil] at hp ⊢
      tauto
  next =>
    refine ⟨?_, fun _ h => .inr h, rfl, ?_⟩
    · rw [List.perm_iff_count]
      intro id
      simp only [numbers, List.map_cons, List.map_nil, List.count_append, List.count_cons,
        List.count_nil]
      omega
    · intro id reply h
      rcases List.mem_cons.mp h with hnow | hended
      · cases hnow
      · exact hended

theorem moves_enter (d : Desk) : d.Moves [] [] (d.step .enter) := by
  rw [step]
  split
  next c rest hblocked =>
    split
    next =>
      refine ⟨?_, ?_, rfl, fun _ _ h => h⟩
      · rw [List.perm_iff_count]
        intro id
        simp only [numbers, hblocked, List.map_append, List.map_cons, List.map_nil,
          List.count_append, List.count_cons, List.count_nil]
        omega
      · intro p hp
        simp only [pending, hblocked, List.mem_append, List.mem_cons, List.not_mem_nil] at hp ⊢
        tauto
    next => exact .refl d
  next => exact .refl d

theorem moves_take (d : Desk) : ∃ taken, d.Moves [] taken (d.step .take) := by
  rw [step]
  split
  next c rest hqueue =>
    split
    next =>
      refine ⟨[c], ?_, ?_, rfl, fun _ _ h => h⟩
      · rw [List.perm_iff_count]
        intro id
        simp only [numbers, hqueue, List.map_cons, List.map_nil, List.count_append,
          List.count_cons, List.count_nil]
        omega
      · intro p hp
        simp only [pending, hqueue, List.mem_append, List.mem_cons] at hp ⊢
        tauto
    next => exact ⟨[], .refl d⟩
  next => exact ⟨[], .refl d⟩

theorem moves_close (d : Desk) : d.Moves [] [] (d.step .close) := by
  rw [step]
  split
  next =>
    refine ⟨?_, fun _ h => .inr (List.mem_append_right _ h), rfl, ?_⟩
    · have hclosed (cs : List Call) :
          (cs.map fun c => (c.id, (none : Option Reply))).map Prod.fst = cs.map Call.id :=
        List.map_map
      rw [List.perm_iff_count]
      intro id
      simp only [numbers, List.map_append, hclosed, List.map_nil, List.count_append,
        List.count_nil]
      omega
    · intro id reply h
      rcases List.mem_append.mp h with hclosed | hended
      · obtain ⟨c, -, hc⟩ := List.mem_map.mp hclosed
        cases hc
      · exact hended
  next => exact .refl d

/-- A desk whose calls all have their own number. -/
theorem eq_of_id {d : Desk} (hnodup : d.numbers.Nodup) {c p : Call} (hc : c ∈ d.handling)
    (hp : p ∈ d.handling) (hid : c.id = p.id) : c = p :=
  List.inj_on_of_nodup_map (List.nodup_append.mp (List.nodup_append.mp hnodup).1).2.1 hc hp hid

/-- The handling of a call is over, and no other call has its number. -/
theorem reply_spec {d : Desk} {c : Call} (hc : c ∈ d.handling) (hnodup : d.numbers.Nodup)
    (reply : Reply) :
    d.handling.Perm (c :: (d.step (.reply c.id reply)).handling) ∧
    (d.step (.reply c.id reply)).numbers.Perm d.numbers ∧
    (∀ p ∈ (d.step (.reply c.id reply)).pending, p ∈ d.pending) ∧
    (d.step (.reply c.id reply)).outcomes = (c.id, some reply) :: d.outcomes := by
  have hany : d.handling.any (·.id = c.id) = true :=
    List.any_eq_true.mpr ⟨c, hc, decide_eq_true rfl⟩
  have hhandling : d.handling.Nodup :=
    (List.nodup_append.mp (List.nodup_append.mp hnodup).1).2.1.of_map
  have hleft : d.handling.filter (·.id ≠ c.id) = d.handling.erase c := by
    rw [hhandling.erase_eq_filter]
    refine List.filter_congr fun p hp => ?_
    rw [Bool.eq_iff_iff, decide_eq_true_eq, bne_iff_ne]
    exact not_congr ⟨fun hid => eq_of_id hnodup hp hc hid, fun h => h ▸ rfl⟩
  have hperm := List.perm_cons_erase hc
  rw [← hleft] at hperm
  rw [step, if_pos hany]
  refine ⟨hperm, ?_, ?_, rfl⟩
  · have hids := hperm.map Call.id
    rw [List.perm_iff_count] at hids ⊢
    intro id
    have hcount := hids id
    simp only [numbers, List.map_cons, List.count_append, List.count_cons] at hcount ⊢
    omega
  · intro p hp
    simp only [pending, List.mem_append, List.mem_filter] at hp ⊢
    tauto

/-- The calls that were taken are those that are handled now and were not before. -/
theorem Moves.taken {d e : Desk} {come taken : List Call} (h : d.Moves come taken e)
    (hnodup : e.numbers.Nodup) : Crew.taken d e = taken := by
  have hhandling : e.handling.Nodup :=
    (List.nodup_append.mp (List.nodup_append.mp hnodup).1).2.1.of_map
  rw [h.handling] at hhandling
  have hdisjoint := (List.nodup_append.mp hhandling).2.2
  rw [Crew.taken, h.handling, List.filter_append]
  have htaken : taken.filter (fun c => !d.handling.contains c) = taken :=
    List.filter_eq_self.mpr fun c hc => by
      simpa using fun hold => hdisjoint c hc c hold rfl
  have hold : d.handling.filter (fun c => !d.handling.contains c) = [] :=
    List.filter_eq_nil_iff.mpr fun c hc => by simpa using hc
  rw [htaken, hold, List.append_nil]

end Desk

/-! ## Calls that are handled -/

/-- A call whose request the coordinator has begun with, when, with what will of the owner, and on
what disk. -/
structure Task where
  call : Call
  moment : Moment
  approver : Approver
  disk : Disk

/-- A desk with the tasks behind it, and a disk that others use as well. -/
structure Office where
  disk : Disk
  desk : Desk := {}
  /-- The requests of all calls so far; a call is numbered by its place here. -/
  made : List Request := []
  /-- The calls that were taken and not begun with; the owner may have been asked about them. -/
  taken : List Call := []
  /-- The tasks that wait for the probe of a service. -/
  waiting : List (Task × Liveness.Service) := []
  /-- All tasks so far. -/
  tasks : List Task := []

namespace Office

/-- What happens at an office. -/
inductive Happening where
  /-- Somebody calls, through any handle. -/
  | call (request : Request)
  | enter
  | take
  /-- The coordinator begins with the request of a call that was taken, once the owner's will is
  known. -/
  | begin (index : Nat) (moment : Moment) (approver : Approver)
  /-- The probe that a task has waited for is over, with what it has found of any service. -/
  | probed (index : Nat) (reports : Liveness.Service → Liveness.Report)
  /-- The process is shut down, or the last handle is dropped. -/
  | close
  /-- Others leave this disk behind, among them the rounds of probes on a timer. -/
  | others (disk : Disk)

end Office

section Handling
variable (start : String) (store : Store)

/-- How far a task comes at once, and the disk that it leaves. -/
def Task.progress (t : Task) : Progress × Disk :=
  ((coordinatorOn t.moment start store t.approver).begin t.call.request).run t.disk

/-- The reply is the one to the request of a task, with some outcome of the probe if it needs one. -/
def Task.Yields (t : Task) (reply : Reply) : Prop :=
  ∃ reports : Liveness.Service → Liveness.Report,
    reply = replyTo t.moment start store t.approver t.disk (fun service => pure (reports service))
      t.call.request

theorem Task.yields_of_answered {t : Task} {reply : Reply} {later : Disk}
    (h : t.progress start store = (.answered reply, later)) :
    t.Yields start store reply := by
  refine ⟨fun _ => .unknown .epoch, ?_⟩
  rw [replyTo, handle_of_answered t.moment start store t.approver t.disk _ h]

theorem Task.yields_of_probing {t : Task} {service : Liveness.Service}
    (h : (t.progress start store).1 = .probing service)
    (reports : Liveness.Service → Liveness.Report) :
    t.Yields start store (.ofReport (reports service)) := by
  refine ⟨reports, ?_⟩
  have hprogress : t.progress start store = (.probing service, (t.progress start store).2) :=
    Prod.ext h rfl
  rw [replyTo, handle_of_probing t.moment start store t.approver t.disk _ hprogress]
  rfl

namespace Office

/-- The coordinator begins with a task, and is done with it unless a probe is needed. -/
def beginWith (s : Office) (t : Task) : Office :=
  match t.progress start store with
  | (.answered reply, disk) =>
    { s with disk, tasks := t :: s.tasks, desk := s.desk.step (.reply t.call.id reply) }
  | (.probing service, disk) =>
    { s with disk, tasks := t :: s.tasks, waiting := (t, service) :: s.waiting }

def step (s : Office) : Happening → Office
  | .call request =>
    { s with
      desk := s.desk.step (.call ⟨s.made.length, request⟩)
      made := s.made ++ [request] }
  | .enter => { s with desk := s.desk.step .enter }
  | .take =>
    { s with
      desk := s.desk.step .take
      taken := Crew.taken s.desk (s.desk.step .take) ++ s.taken }
  | .begin index moment approver =>
    match s.taken[index]? with
    | some call =>
      { s with taken := s.taken.eraseIdx index }.beginWith start store
        ⟨call, moment, approver, s.disk⟩
    | none => s
  | .probed index reports =>
    match s.waiting[index]? with
    | some (t, service) =>
      { s with
        waiting := s.waiting.eraseIdx index
        desk := s.desk.step (.reply t.call.id (.ofReport (reports service))) }
    | none => s
  | .close => { s with desk := s.desk.step .close }
  | .others disk => { s with disk }

def run (s : Office) (happenings : List Happening) : Office :=
  happenings.foldl (step start store) s

/-- Every call has one place, and all that is known of a call is about its own request. -/
structure Accounted (s : Office) : Prop where
  numbers : s.desk.numbers.Perm (List.range s.made.length)
  pending : ∀ c ∈ s.desk.pending, s.made[c.id]? = some c.request
  handling : s.desk.handling.Perm (s.taken ++ s.waiting.map (·.1.call))
  waiting : ∀ p ∈ s.waiting, p.1 ∈ s.tasks
  /-- No request is begun with twice. -/
  once : (s.tasks.map (·.call.id)).Nodup
  own : ∀ t ∈ s.tasks, s.made[t.call.id]? = some t.call.request
  /-- What was begun with was not closed. -/
  begun : ∀ t ∈ s.tasks, (∃ service, (t, service) ∈ s.waiting) ∨
    ∃ reply, (t.call.id, some reply) ∈ s.desk.outcomes
  answered : ∀ id reply, (id, some reply) ∈ s.desk.outcomes →
    ∃ t ∈ s.tasks, t.call.id = id ∧ t.Yields start store reply

section Steps
variable {start store} {s : Office}

theorem Accounted.nodup (h : Accounted start store s) : s.desk.numbers.Nodup :=
  h.numbers.nodup_iff.mpr List.nodup_range

/-- A call that is being handled has not ended. -/
theorem Accounted.not_ended (h : Accounted start store s) {c : Call} (hc : c ∈ s.desk.handling)
    (outcome : Option Reply) : (c.id, outcome) ∉ s.desk.outcomes := by
  intro hended
  have hdisjoint := (List.nodup_append.mp h.nodup).2.2
  exact hdisjoint c.id (List.mem_append_right _ (List.mem_map_of_mem hc)) c.id
    (List.mem_map_of_mem hended) rfl

/-- A call that was taken, and not begun with, is nobody's task. -/
theorem Accounted.not_task (h : Accounted start store s) {c : Call} {taken : List Call}
    (htaken : s.taken.Perm (c :: taken)) {t : Task} (ht : t ∈ s.tasks) : t.call.id ≠ c.id := by
  intro hid
  have hhandling := h.handling.trans (htaken.append_right _)
  have hc : c ∈ s.desk.handling := hhandling.symm.subset List.mem_cons_self
  rcases h.begun t ht with ⟨service, hwaits⟩ | ⟨reply, hreply⟩
  · have hnumbers := (hhandling.map Call.id).nodup_iff.mp
      (List.nodup_append.mp (List.nodup_append.mp h.nodup).1).2.1
    refine (List.nodup_cons.mp hnumbers).1 (List.mem_map.mpr ⟨t.call, ?_, hid⟩)
    exact List.mem_append_right _ (List.mem_map.mpr ⟨_, hwaits, rfl⟩)
  · exact h.not_ended hc (some reply) (hid ▸ hreply)

theorem accounted_opened (disk : Disk) : Accounted start store { disk } where
  numbers := .refl _
  pending _ hc := absurd hc List.not_mem_nil
  handling := .refl _
  waiting _ ht := absurd ht List.not_mem_nil
  once := List.nodup_nil
  own _ ht := absurd ht List.not_mem_nil
  begun _ ht := absurd ht List.not_mem_nil
  answered _ _ hreply := absurd hreply List.not_mem_nil

/-- A move of the desk, after which the calls that were taken are known. -/
theorem Accounted.moves (h : Accounted start store s) {event : Desk.Event} {taken : List Call}
    (hmoves : s.desk.Moves [] taken (s.desk.step event)) :
    Accounted start store
      { s with desk := s.desk.step event, taken := taken ++ s.taken } where
  numbers := hmoves.numbers.trans h.numbers
  pending c hc := by
    rcases hmoves.pending c hc with hcome | hold
    · cases hcome
    · exact h.pending c hold
  handling := by
    rw [hmoves.handling, List.append_assoc]
    exact h.handling.append_left taken
  waiting := h.waiting
  once := h.once
  own := h.own
  begun t ht := by
    rcases h.begun t ht with hwaits | ⟨reply, hreply⟩
    · exact .inl hwaits
    · exact .inr ⟨reply, Desk.mem_outcomes_step hreply event⟩
  answered id reply hreply := h.answered id reply (hmoves.unanswered id reply hreply)

theorem Accounted.call (h : Accounted start store s) (request : Request) :
    Accounted start store (s.step start store (.call request)) := by
  have hmoves := s.desk.moves_call ⟨s.made.length, request⟩
  have hmade {id : Nat} {wanted : Request} (hid : s.made[id]? = some wanted) :
      (s.made ++ [request])[id]? = some wanted := by
    rw [List.getElem?_append_left (List.getElem?_eq_some_iff.mp hid).1, hid]
  refine ⟨?_, ?_, ?_, h.waiting, h.once, fun t ht => hmade (h.own t ht), ?_, ?_⟩
  · refine hmoves.numbers.trans ?_
    change List.Perm _ (List.range (s.made ++ [request]).length)
    rw [List.length_append, List.length_singleton, List.range_succ]
    exact (h.numbers.cons _).trans (List.perm_append_singleton _ _).symm
  · intro c hc
    rcases hmoves.pending c hc with hcome | hold
    · cases List.mem_singleton.mp hcome
      exact List.getElem?_concat_length
    · exact hmade (h.pending c hold)
  · change (s.desk.step _).handling.Perm _
    rw [hmoves.handling]
    exact h.handling
  · intro t ht
    rcases h.begun t ht with hwaits | ⟨reply, hreply⟩
    · exact .inl hwaits
    · exact .inr ⟨reply, Desk.mem_outcomes_step hreply _⟩
  · exact fun id reply hreply => h.answered id reply (hmoves.unanswered id reply hreply)

theorem Accounted.take (h : Accounted start store s) :
    Accounted start store (s.step start store .take) := by
  obtain ⟨taken, hmoves⟩ := s.desk.moves_take
  have hnext := h.moves hmoves
  rw [Office.step, hmoves.taken hnext.nodup]
  exact hnext

/-- A task is begun with for a call that was taken. -/
theorem Accounted.begins (h : Accounted start store s) {t : Task} {taken : List Call}
    (htaken : s.taken.Perm (t.call :: taken)) (service : Liveness.Service) (disk : Disk) :
    Accounted start store
      { s with disk, taken, tasks := t :: s.tasks, waiting := (t, service) :: s.waiting } where
  numbers := h.numbers
  pending := h.pending
  handling := h.handling.trans ((htaken.append_right _).trans List.perm_middle.symm)
  waiting u hu := by
    rcases List.mem_cons.mp hu with rfl | hold
    · exact List.mem_cons_self
    · exact List.mem_cons_of_mem _ (h.waiting u hold)
  once := by
    refine List.nodup_cons.mpr ⟨fun hmem => ?_, h.once⟩
    obtain ⟨u, hu, hid⟩ := List.mem_map.mp hmem
    exact h.not_task htaken hu hid
  own u hu := by
    rcases List.mem_cons.mp hu with rfl | hold
    · refine h.pending _ (List.mem_append_right _ (h.handling.symm.subset ?_))
      exact List.mem_append_left _ (htaken.symm.subset List.mem_cons_self)
    · exact h.own u hold
  begun u hu := by
    rcases List.mem_cons.mp hu with rfl | hold
    · exact .inl ⟨service, List.mem_cons_self⟩
    · exact (h.begun u hold).imp_left fun ⟨s, hs⟩ => ⟨s, List.mem_cons_of_mem _ hs⟩
  answered id reply hreply := by
    obtain ⟨u, hu, hid, hyields⟩ := h.answered id reply hreply
    exact ⟨u, List.mem_cons_of_mem _ hu, hid, hyields⟩

/-- A task is done, with a reply to its request. -/
theorem Accounted.ends (h : Accounted start store s) {t : Task}
    {service : Liveness.Service} {waiting : List (Task × Liveness.Service)}
    (hwaiting : s.waiting.Perm ((t, service) :: waiting)) {reply : Reply}
    (hyields : t.Yields start store reply) :
    Accounted start store
      { s with waiting, desk := s.desk.step (.reply t.call.id reply) } := by
  have ht : (t, service) ∈ s.waiting := hwaiting.symm.subset List.mem_cons_self
  have hleft : s.desk.handling.Perm (t.call :: (s.taken ++ waiting.map (·.1.call))) :=
    h.handling.trans (((hwaiting.map (·.1.call)).append_left _).trans List.perm_middle)
  obtain ⟨hhandling, hnumbers, hpending, houtcomes⟩ :=
    Desk.reply_spec (hleft.symm.subset List.mem_cons_self) h.nodup reply
  refine ⟨hnumbers.trans h.numbers, fun p hp => h.pending p (hpending p hp),
    (hhandling.symm.trans hleft).cons_inv, fun u hu => h.waiting u ?_, h.once, h.own, ?_, ?_⟩
  · exact hwaiting.symm.subset (List.mem_cons_of_mem _ hu)
  · intro u hu
    rw [houtcomes]
    rcases h.begun u hu with ⟨asked, hwaits⟩ | ⟨r, hr⟩
    · rcases List.mem_cons.mp (hwaiting.subset hwaits) with hnow | hrest
      · cases hnow
        exact .inr ⟨reply, List.mem_cons_self⟩
      · exact .inl ⟨asked, hrest⟩
    · exact .inr ⟨r, List.mem_cons_of_mem _ hr⟩
  · intro id r hr
    rw [houtcomes] at hr
    rcases List.mem_cons.mp hr with hnow | hold
    · cases hnow
      exact ⟨t, h.waiting _ ht, rfl, hyields⟩
    · exact h.answered id r hold

/-- An office whose calls are accounted for, and whose tasks wait for what they have asked for. -/
structure Sound (start : String) (store : Store) (s : Office) : Prop where
  accounted : Accounted start store s
  probing : ∀ p ∈ s.waiting, (p.1.progress start store).1 = .probing p.2

theorem Sound.beginWith (h : Sound start store s) {t : Task} {taken : List Call}
    (htaken : s.taken.Perm (t.call :: taken)) :
    Sound start store ({ s with taken }.beginWith start store t) := by
  rw [Office.beginWith]
  split
  next reply later hprogress =>
    have hyields := Task.yields_of_answered start store hprogress
    exact ⟨(h.accounted.begins htaken .node later).ends (.refl _) hyields, h.probing⟩
  next service later hprogress =>
    refine ⟨h.accounted.begins htaken service later, fun u hu => ?_⟩
    rcases List.mem_cons.mp hu with rfl | hold
    · exact congrArg Prod.fst hprogress
    · exact h.probing u hold

theorem perm_cons_eraseIdx {α : Type} {l : List α} {index : Nat} {a : α}
    (h : l[index]? = some a) : l.Perm (a :: l.eraseIdx index) := by
  obtain ⟨hindex, rfl⟩ := List.getElem?_eq_some_iff.mp h
  exact (List.getElem_cons_eraseIdx_perm hindex).symm

theorem Sound.step (h : Sound start store s) (happening : Happening) :
    Sound start store (s.step start store happening) := by
  have haccounted := h.accounted
  cases happening with
  | call request => exact ⟨haccounted.call request, h.probing⟩
  | enter => exact ⟨haccounted.moves s.desk.moves_enter, h.probing⟩
  | take => exact ⟨haccounted.take, h.probing⟩
  | close => exact ⟨haccounted.moves s.desk.moves_close, h.probing⟩
  | others disk =>
      exact ⟨⟨haccounted.numbers, haccounted.pending, haccounted.handling, haccounted.waiting,
        haccounted.once, haccounted.own, haccounted.begun, haccounted.answered⟩, h.probing⟩
  | begin index moment approver =>
      rw [Office.step]
      split
      next call hcall => exact h.beginWith (perm_cons_eraseIdx hcall)
      next => exact h
  | probed index reports =>
      rw [Office.step]
      split
      next t service hwaits =>
        have hyields := Task.yields_of_probing start store
          (h.probing _ (List.mem_of_getElem? hwaits)) reports
        exact ⟨haccounted.ends (perm_cons_eraseIdx hwaits) hyields,
          fun u hu => h.probing u (List.mem_of_mem_eraseIdx hu)⟩
      next => exact h

theorem Sound.run (h : Sound start store s) (happenings : List Happening) :
    Sound start store (s.run start store happenings) := by
  induction happenings generalizing s with
  | nil => exact h
  | cons happening rest ih => exact ih (h.step happening)

end Steps

theorem mem_outcomes_step {s : Office} {o : Nat × Option Reply} (h : o ∈ s.desk.outcomes)
    (happening : Happening) : o ∈ (s.step start store happening).desk.outcomes := by
  cases happening with
  | call request => exact Desk.mem_outcomes_step h _
  | enter => exact Desk.mem_outcomes_step h _
  | take => exact Desk.mem_outcomes_step h _
  | close => exact Desk.mem_outcomes_step h _
  | others disk => exact h
  | begin index moment approver =>
      rw [Office.step]
      split
      next =>
        rw [Office.beginWith]
        split
        next => exact Desk.mem_outcomes_step h _
        next => exact h
      next => exact h
  | probed index reports =>
      rw [Office.step]
      split
      next => exact Desk.mem_outcomes_step h _
      next => exact h

theorem mem_outcomes_run {s : Office} {o : Nat × Option Reply} (h : o ∈ s.desk.outcomes)
    (happenings : List Happening) :
    o ∈ (s.run start store happenings).desk.outcomes := by
  induction happenings generalizing s with
  | nil => exact h
  | cons happening rest ih => exact ih (mem_outcomes_step start store h happening)

variable {start store} in
/-- A call that was closed was not taken, and so it was not begun with. -/
theorem Accounted.not_handled {s : Office} (h : Accounted start store s) {id : Nat}
    (hclosed : (id, none) ∈ s.desk.outcomes) :
    (∀ c ∈ s.taken, c.id ≠ id) ∧ ∀ t ∈ s.tasks, t.call.id ≠ id := by
  constructor
  · rintro c hc rfl
    have hhandling : c ∈ s.desk.handling := h.handling.symm.subset (List.mem_append_left _ hc)
    exact h.not_ended hhandling none hclosed
  · rintro t ht rfl
    rcases h.begun t ht with ⟨service, hwaits⟩ | ⟨reply, hreply⟩
    · have hhandling : t.call ∈ s.desk.handling := h.handling.symm.subset
        (List.mem_append_right _ (List.mem_map.mpr ⟨_, hwaits, rfl⟩))
      exact h.not_ended hhandling none hclosed
    · have hends := (List.nodup_append.mp h.nodup).2.1
      cases List.inj_on_of_nodup_map hends hclosed hreply rfl

/-- Calls from anywhere, in any order with what the desk and the coordinator do. Each call has one
place at the desk, or has ended in one way. No request is begun with twice. A call that is answered
gets the reply to its own request, with what was stored when the coordinator began with it. A call
that ends without a reply was not taken, and never is: the owner is not asked about it, and nothing is
signed for it. -/
theorem calls_are_matched (disk : Disk) (happenings : List Happening) :
    let s := Office.run start store { disk } happenings
    (s.desk.numbers.Perm (List.range s.made.length) ∧ (s.desk.outcomes.map Prod.fst).Nodup) ∧
    ((s.tasks.map (·.call.id)).Nodup ∧ ∀ t ∈ s.tasks, s.made[t.call.id]? = some t.call.request) ∧
    (∀ id reply, (id, some reply) ∈ s.desk.outcomes → ∃ t ∈ s.tasks, t.call.id = id ∧
      s.made[id]? = some t.call.request ∧ t.Yields start store reply) ∧
    ∀ id, (id, none) ∈ s.desk.outcomes → ∀ more,
      (∀ c ∈ (s.run start store more).taken, c.id ≠ id) ∧
        ∀ t ∈ (s.run start store more).tasks, t.call.id ≠ id := by
  intro s
  have hopened : Sound start store { disk } :=
    ⟨accounted_opened disk, fun _ ht => absurd ht List.not_mem_nil⟩
  have hsound : Sound start store s := hopened.run happenings
  have haccounted := hsound.accounted
  refine ⟨⟨haccounted.numbers, (List.nodup_append.mp haccounted.nodup).2.1⟩,
    ⟨haccounted.once, haccounted.own⟩, ?_, ?_⟩
  · intro id reply hreply
    obtain ⟨t, ht, rfl, hyields⟩ := haccounted.answered id reply hreply
    exact ⟨t, ht, rfl, haccounted.own t ht, hyields⟩
  · intro id hclosed more
    exact (hsound.run more).accounted.not_handled
      (mem_outcomes_run start store hclosed more)

/-- A report that all is well. -/
def fineReport : Liveness.Report := .ofProbe ⟨200, true, none⟩ .epoch

/-- A probe is asked for and begun with. A signature is asked for, and the desk closes before its call
is taken. Then the probe is over. -/
def sampleCalls : List Happening :=
  [.call .nodeHealth, .enter, .take, .begin 0 (Store.sampleVisit .snapshot).moment fun _ => true,
    .call (.sign sampleTransfer), .enter, .close, .probed 0 fun _ => fineReport]

/-- A desk that closes still answers what was begun with, and nothing is ever signed for the rest. -/
theorem calls_are_matched_sample :
    let s := Office.run "/" ⟨"data"⟩ { disk := walletDisk } sampleCalls
    s.desk.outcomes = [(0, some (.ofReport fineReport)), (1, none)] ∧
    (∃ t ∈ s.tasks, t.call.id = 0 ∧ s.made[0]? = some t.call.request ∧
      t.Yields "/" ⟨"data"⟩ (.ofReport fineReport)) ∧
    ∀ more, (∀ c ∈ (s.run "/" ⟨"data"⟩ more).taken, c.id ≠ 1) ∧
      ∀ t ∈ (s.run "/" ⟨"data"⟩ more).tasks, t.call.id ≠ 1 := by
  obtain ⟨-, -, hanswered, hclosed⟩ :=
    calls_are_matched "/" ⟨"data"⟩ walletDisk sampleCalls
  exact ⟨rfl, hanswered 0 _ (.head _), hclosed 1 (.tail _ (.head _))⟩

end Office
end Handling
end WalletEngine.Relay
