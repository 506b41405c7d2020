import WalletEngine.Proofs.Relay.Calls

/-! # The service of a coordinator

While its desk is open, a coordinator serves every call: nothing ends without a reply, and whatever has
happened, the owner, the services and the desk can go on such that a call is answered. What comes back
through a handle is then the reply to the request that went in.
-/

namespace WalletEngine.Relay

open Steps

namespace Desk

theorem mem_of_outcome? {d : Desk} {id : Nat} {outcome : Option Reply}
    (h : d.outcome? id = some outcome) : (id, outcome) ∈ d.outcomes := by
  obtain ⟨before, behind, hsplit, -⟩ := List.lookup_eq_some_iff.mp h
  rw [hsplit]
  exact List.mem_append_right _ List.mem_cons_self

theorem isSome_outcome? {d : Desk} {id : Nat} {outcome : Option Reply}
    (h : (id, outcome) ∈ d.outcomes) : (d.outcome? id).isSome = true :=
  List.lookup_isSome_iff.mpr ⟨_, h, beq_self_eq_true id⟩

/-- Nobody but who closes it closes a desk. -/
theorem isOpen_step {d : Desk} {event : Event} (h : event ≠ .close) :
    (d.step event).isOpen = d.isOpen := by
  cases event with
  | close => exact absurd rfl h
  | call c =>
      rw [step]
      split <;> rfl
  | reply id reply =>
      rw [step]
      split <;> rfl
  | enter =>
      rw [step]
      split
      next => split <;> rfl
      next => rfl
  | take =>
      rw [step]
      split
      next => split <;> rfl
      next => rfl

/-- At an open desk no call ends without a reply. -/
theorem mem_unanswered_step {d : Desk} {event : Event} (h : event ≠ .close)
    (hopen : d.isOpen = true) {id : Nat} (hended : (id, none) ∈ (d.step event).outcomes) :
    (id, none) ∈ d.outcomes := by
  cases event with
  | close => exact absurd rfl h
  | call c => rwa [step, if_pos hopen] at hended
  | reply replied reply =>
      rw [step] at hended
      split at hended
      next =>
        rcases List.mem_cons.mp hended with hnow | hold
        · cases hnow
        · exact hold
      next => exact hended
  | enter =>
      rw [step] at hended
      split at hended
      next => split at hended <;> exact hended
      next => exact hended
  | take =>
      rw [step] at hended
      split at hended
      next => split at hended <;> exact hended
      next => exact hended

/-- How far the calls that wait are from being taken. -/
def distance (d : Desk) : Nat :=
  2 * d.blocked.length + d.queue.length

end Desk

theorem Line.outcome_ask {σ : Type} {line : Line (StateM σ)} {request : Request} {reply : Reply}
    {s later : σ} (h : (line.request request).run s = (some reply, later)) :
    outcome (line.ask request) s = (.ok reply, later) := by
  have hlift : outcome (ε := Fault) (liftM (line.request request)) s = (.ok (some reply), later) := by
    rw [outcome_lift]
    exact congrArg (fun p => (Except.ok p.1, p.2)) h
  exact outcome_bind_of_ok hlift

namespace Office
variable (start : String) (store : Store)

/-- The office after a call, and after what happens then. -/
def after (s : Office) (request : Request) (schedule : List Happening) : Office :=
  (s.step start store (.call request)).run start store schedule

/-- A handle on an office. It makes a call, and waits for its end while the schedule happens. -/
def line (schedule : List Happening) : Line (StateM Office) where
  request r := fun s =>
    let later := s.after start store r schedule
    ((later.desk.outcome? s.made.length).join, later)

/-- What happens after a call such that the desk stays open and the call ends. -/
structure Serves (s : Office) (request : Request) (schedule : List Happening) : Prop where
  stays : .close ∉ schedule
  ends : ((s.after start store request schedule).desk.outcome? s.made.length).isSome = true

variable {start store} {s : Office}

theorem run_append (happenings more : List Happening) :
    s.run start store (happenings ++ more) =
      (s.run start store happenings).run start store more :=
  List.foldl_append

/-! ## What stays -/

/-- The desk of an office, after what happens there. -/
theorem desk_step (happening : Happening) : (s.step start store happening).desk = s.desk ∨
    ∃ event, (event = .close → happening = .close) ∧
      (s.step start store happening).desk = s.desk.step event := by
  cases happening with
  | call request => exact .inr ⟨.call _, fun h => Desk.Event.noConfusion h, rfl⟩
  | enter => exact .inr ⟨.enter, fun h => Desk.Event.noConfusion h, rfl⟩
  | take => exact .inr ⟨.take, fun h => Desk.Event.noConfusion h, rfl⟩
  | close => exact .inr ⟨.close, fun _ => rfl, rfl⟩
  | others disk => exact .inl rfl
  | begin index moment approver =>
      rw [step]
      split
      next =>
        rw [beginWith]
        split
        next => exact .inr ⟨.reply _ _, fun h => Desk.Event.noConfusion h, rfl⟩
        next => exact .inl rfl
      next => exact .inl rfl
  | probed index reports =>
      rw [step]
      split
      next => exact .inr ⟨.reply _ _, fun h => Desk.Event.noConfusion h, rfl⟩
      next => exact .inl rfl

theorem isOpen_step {happening : Happening} (h : happening ≠ .close) :
    (s.step start store happening).desk.isOpen = s.desk.isOpen := by
  rcases desk_step happening with hsame | ⟨event, hevent, hdesk⟩
  · rw [hsame]
  · rw [hdesk, Desk.isOpen_step (mt hevent h)]

theorem isOpen_run {happenings : List Happening} (h : .close ∉ happenings) :
    (s.run start store happenings).desk.isOpen = s.desk.isOpen := by
  induction happenings generalizing s with
  | nil => rfl
  | cons happening rest ih =>
      rw [List.mem_cons, not_or] at h
      exact (ih h.2).trans (isOpen_step (Ne.symm h.1))

theorem mem_unanswered_run {happenings : List Happening} (h : .close ∉ happenings)
    (hopen : s.desk.isOpen = true) {id : Nat}
    (hended : (id, none) ∈ (s.run start store happenings).desk.outcomes) :
    (id, none) ∈ s.desk.outcomes := by
  induction happenings generalizing s with
  | nil => exact hended
  | cons happening rest ih =>
      rw [List.mem_cons, not_or] at h
      have hfirst := ih h.2 ((isOpen_step (Ne.symm h.1)).trans hopen) hended
      rcases desk_step happening with hsame | ⟨event, hevent, hdesk⟩
      · rwa [hsame] at hfirst
      · rw [hdesk] at hfirst
        exact Desk.mem_unanswered_step (mt hevent (Ne.symm h.1)) hopen hfirst

/-- Calls that were made stay made. -/
theorem made_step (happening : Happening) : s.made <+: (s.step start store happening).made := by
  cases happening with
  | call request => exact List.prefix_append _ _
  | enter | take | close | others disk => exact List.prefix_rfl
  | begin index moment approver =>
      rw [step]
      split
      next =>
        rw [beginWith]
        split <;> exact List.prefix_rfl
      next => exact List.prefix_rfl
  | probed index reports =>
      rw [step]
      split <;> exact List.prefix_rfl

theorem made_run (happenings : List Happening) : s.made <+: (s.run start store happenings).made := by
  induction happenings generalizing s with
  | nil => exact List.prefix_rfl
  | cons happening rest ih => exact (made_step happening).trans ih

/-! ## A call is answered -/

variable (start store s) in
theorem made_after (request : Request) (schedule : List Happening) :
    (s.after start store request schedule).made[s.made.length]? = some request := by
  have hmade : (s.step start store (.call request)).made = s.made ++ [request] := rfl
  obtain ⟨more, hmore⟩ : (s.step start store (.call request)).made <+:
      (s.after start store request schedule).made := made_run schedule
  rw [← hmore, hmade, List.append_assoc, List.getElem?_append_right (Nat.le_refl _), Nat.sub_self]
  rfl

theorem Sound.after (h : Sound start store s) (request : Request) (schedule : List Happening) :
    Sound start store (s.after start store request schedule) :=
  (h.step _).run schedule

theorem isOpen_after {request : Request} {schedule : List Happening} (h : .close ∉ schedule) :
    (s.after start store request schedule).desk.isOpen = s.desk.isOpen :=
  (isOpen_run h).trans (isOpen_step nofun)

/-- A call that has ended at an open desk was answered, with the reply to its own request. -/
theorem answered_of_serves (h : Sound start store s) (hopen : s.desk.isOpen = true)
    {request : Request} {schedule : List Happening} (hserves : s.Serves start store request schedule) :
    ∃ t reply, t ∈ (s.after start store request schedule).tasks ∧
      t.call = ⟨s.made.length, request⟩ ∧ t.Yields start store reply ∧
      ((line start store schedule).request request).run s =
        (some reply, s.after start store request schedule) := by
  obtain ⟨hstays, hends⟩ := hserves
  obtain ⟨outcome, houtcome⟩ := Option.isSome_iff_exists.mp hends
  have haccounted := (h.after request schedule).accounted
  have hmem := Desk.mem_of_outcome? houtcome
  cases outcome with
  | none =>
      -- The call is new, so it has not ended before, and it cannot have been closed since.
      have hopened : (s.step start store (.call request)).desk.isOpen = true :=
        (isOpen_step (nofun : Happening.call request ≠ .close)).trans hopen
      have hcalled := mem_unanswered_run hstays hopened hmem
      have hbefore : (s.made.length, none) ∈ s.desk.outcomes :=
        Desk.mem_unanswered_step (nofun : Desk.Event.call _ ≠ .close) hopen hcalled
      have hnumber : s.made.length ∈ s.desk.numbers :=
        List.mem_append_right _ (List.mem_map_of_mem hbefore)
      exact absurd (List.mem_range.mp (h.accounted.numbers.subset hnumber)) (Nat.lt_irrefl _)
  | some reply =>
      obtain ⟨t, ht, hid, hyields⟩ := haccounted.answered _ _ hmem
      have hown := haccounted.own t ht
      rw [hid, made_after start store s] at hown
      have hcall : t.call = ⟨s.made.length, request⟩ := by
        rw [← hid, Option.some.inj hown]
      refine ⟨t, reply, ht, hcall, hyields, ?_⟩
      change ((_ : Option (Option Reply)).join, _) = _
      rw [houtcome]
      rfl

/-! ## A call can be answered -/

/-- What happens without anybody else: calls move on and are taken, the coordinator begins with them,
with an owner who wants what `approver` says, and services are probed. -/
inductive Proceeds (approver : Approver) : Happening → Prop
  | enter : Proceeds approver .enter
  | take : Proceeds approver .take
  | begin (index : Nat) (moment : Moment) : Proceeds approver (.begin index moment approver)
  | probed (index : Nat) (reports : Liveness.Service → Liveness.Report) :
      Proceeds approver (.probed index reports)

theorem notMem_close {approver : Approver} {more : List Happening}
    (h : ∀ happening ∈ more, Proceeds approver happening) : .close ∉ more :=
  fun hclose => nomatch h _ hclose

/-- While calls wait at an open desk, one of them can move on. -/
theorem exists_pass (hopen : s.desk.isOpen = true) (hwaits : s.desk.distance ≠ 0) :
    ∃ pass, (pass = .enter ∨ pass = .take) ∧
      (s.step start store pass).desk.distance < s.desk.distance := by
  cases hqueue : s.desk.queue with
  | cons c rest =>
      have hstep : s.desk.step .take =
          { s.desk with queue := rest, handling := c :: s.desk.handling } := by
        rw [Desk.step, hqueue]
        exact if_pos hopen
      refine ⟨.take, .inr rfl, ?_⟩
      change (s.desk.step .take).distance < _
      rw [hstep, Desk.distance, Desk.distance, hqueue, List.length_cons]
      exact Nat.lt_succ_self _
  | nil =>
      cases hblocked : s.desk.blocked with
      | nil =>
          rw [Desk.distance, hqueue, hblocked] at hwaits
          exact absurd rfl hwaits
      | cons c rest =>
          have hstep : s.desk.step .enter = { s.desk with blocked := rest, queue := [c] } := by
            rw [Desk.step, hblocked, hqueue]
            rfl
          refine ⟨.enter, .inl rfl, ?_⟩
          change (s.desk.step .enter).distance < _
          rw [hstep, Desk.distance, Desk.distance, hqueue, hblocked]
          simp only [List.length_cons, List.length_nil]
          omega

/-- All calls at an open desk can be taken. -/
theorem exists_passes (start : String) (store : Store) (approver : Approver)
    (hopen : s.desk.isOpen = true) :
    ∃ passes, (∀ pass ∈ passes, Proceeds approver pass) ∧
      (s.run start store passes).desk.distance = 0 := by
  induction hn : s.desk.distance using Nat.strong_induction_on generalizing s with
  | _ n ih =>
      subst hn
      by_cases hzero : s.desk.distance = 0
      · exact ⟨[], fun _ hpass => absurd hpass List.not_mem_nil, hzero⟩
      · obtain ⟨pass, hpass, hless⟩ := exists_pass hopen hzero
        have hproceeds : Proceeds approver pass := by
          rcases hpass with rfl | rfl
          · exact .enter
          · exact .take
        have hstays : pass ≠ .close := by
          rintro rfl
          cases hproceeds
        obtain ⟨passes, hpasses, hnone⟩ := ih _ hless ((isOpen_step hstays).trans hopen) rfl
        exact ⟨pass :: passes, List.forall_mem_cons.mpr ⟨hproceeds, hpasses⟩, hnone⟩

theorem exists_probed (h : Sound start store s) {t : Task} {service : Liveness.Service}
    (hwaits : (t, service) ∈ s.waiting) (reports : Liveness.Service → Liveness.Report) :
    ∃ index reply, (t.call.id, some reply) ∈
      (s.step start store (.probed index reports)).desk.outcomes := by
  obtain ⟨index, hindex⟩ := List.mem_iff_getElem?.mp hwaits
  have hhandling : t.call ∈ s.desk.handling := h.accounted.handling.symm.subset
    (List.mem_append_right _ (List.mem_map.mpr ⟨_, hwaits, rfl⟩))
  obtain ⟨-, -, -, houtcomes⟩ :=
    Desk.reply_spec hhandling h.accounted.nodup (.ofReport (reports service))
  refine ⟨index, .ofReport (reports service), ?_⟩
  rw [step, hindex]
  change _ ∈ (s.desk.step _).outcomes
  rw [houtcomes]
  exact List.mem_cons_self

theorem tasks_beginWith (t : Task) : (s.beginWith start store t).tasks = t :: s.tasks := by
  rw [beginWith]
  split <;> rfl

/-- A call that was taken can be answered, whatever the owner wants. -/
theorem exists_replied (h : Sound start store s) {c : Call} (hc : c ∈ s.desk.handling)
    (moment : Moment) (approver : Approver) (reports : Liveness.Service → Liveness.Report) :
    ∃ more reply, (∀ happening ∈ more, Proceeds approver happening) ∧
      (c.id, some reply) ∈ (s.run start store more).desk.outcomes := by
  rcases List.mem_append.mp (h.accounted.handling.subset hc) with htaken | hwaits
  · obtain ⟨index, hindex⟩ := List.mem_iff_getElem?.mp htaken
    have hnext := h.step (.begin index moment approver)
    have htask : ⟨c, moment, approver, s.disk⟩ ∈
        (s.step start store (.begin index moment approver)).tasks := by
      rw [step, hindex]
      dsimp only
      rw [tasks_beginWith]
      exact List.mem_cons_self
    have hbegin : Proceeds approver (.begin index moment approver) := .begin index moment
    -- The task is done at once, or waits for a probe that can be over next.
    rcases hnext.accounted.begun _ htask with ⟨service, hmem⟩ | ⟨reply, hreply⟩
    · obtain ⟨place, reply, hreply⟩ := exists_probed hnext hmem reports
      exact ⟨[.begin index moment approver, .probed place reports], reply,
        by simp [hbegin, Proceeds.probed place reports], hreply⟩
    · exact ⟨[.begin index moment approver], reply, by simp [hbegin], hreply⟩
  · obtain ⟨⟨t, service⟩, hmem, rfl⟩ := List.mem_map.mp hwaits
    obtain ⟨place, reply, hreply⟩ := exists_probed h hmem reports
    exact ⟨[.probed place reports], reply, by simp [Proceeds.probed place reports], hreply⟩

/-- At an open desk every call can come to its end, whatever the owner wants. -/
theorem exists_ended (h : Sound start store s) (hopen : s.desk.isOpen = true) {id : Nat}
    (hid : id < s.made.length) (moment : Moment) (approver : Approver)
    (reports : Liveness.Service → Liveness.Report) :
    ∃ more, (∀ happening ∈ more, Proceeds approver happening) ∧
      ((s.run start store more).desk.outcome? id).isSome = true := by
  obtain ⟨passes, hpasses, hnone⟩ := exists_passes start store approver hopen
  have hsound := h.run passes
  have hnumber : id ∈ (s.run start store passes).desk.numbers :=
    hsound.accounted.numbers.symm.subset
      (List.mem_range.mpr (hid.trans_le (made_run passes).length_le))
  obtain ⟨hblocked, hqueue⟩ : (s.run start store passes).desk.blocked = [] ∧
      (s.run start store passes).desk.queue = [] := by
    rw [Desk.distance, Nat.add_eq_zero_iff, Nat.mul_eq_zero] at hnone
    exact ⟨List.length_eq_zero_iff.mp (hnone.1.resolve_left (by decide)),
      List.length_eq_zero_iff.mp hnone.2⟩
  -- With nothing left to be taken, the call is being handled or has ended.
  rw [Desk.numbers, hblocked, hqueue, List.map_nil, List.nil_append, List.nil_append,
    List.mem_append] at hnumber
  rcases hnumber with hhandling | hended
  · obtain ⟨c, hc, rfl⟩ := List.mem_map.mp hhandling
    obtain ⟨more, reply, hmore, hreply⟩ := exists_replied hsound hc moment approver reports
    refine ⟨passes ++ more, List.forall_mem_append.mpr ⟨hpasses, hmore⟩, ?_⟩
    rw [run_append]
    exact Desk.isSome_outcome? hreply
  · obtain ⟨⟨ended, outcome⟩, hmem, rfl⟩ := List.mem_map.mp hended
    exact ⟨passes, hpasses, Desk.isSome_outcome? hmem⟩

/-- Whatever has happened at an open desk after a call, and whatever the owner wants, it can go on such
that the call is served. -/
theorem exists_serves (h : Sound start store s) (hopen : s.desk.isOpen = true) (request : Request)
    {schedule : List Happening} (hstays : .close ∉ schedule) (approver : Approver) :
    ∃ more, (∀ happening ∈ more, Proceeds approver happening) ∧
      s.Serves start store request (schedule ++ more) := by
  have hmade := (List.getElem?_eq_some_iff.mp (made_after start store s request schedule)).1
  obtain ⟨more, hmore, hends⟩ := exists_ended (h.after request schedule)
    ((isOpen_after hstays).trans hopen) hmade (Store.sampleVisit .load).moment approver
    fun _ => fineReport
  refine ⟨more, hmore, ⟨?_, ?_⟩⟩
  · rw [List.mem_append, not_or]
    exact ⟨hstays, notMem_close hmore⟩
  · rwa [after, run_append]

/-! ## The first call -/

/-- A call is taken and begun with. -/
def prompt (moment : Moment) (approver : Approver) : List Happening :=
  [.enter, .take, .begin 0 moment approver]

theorem proceeds_prompt (moment : Moment) (approver : Approver) :
    ∀ happening ∈ prompt moment approver, Proceeds approver happening := by
  simp only [prompt, List.forall_mem_cons]
  exact ⟨.enter, .take, .begin 0 moment, fun _ h => absurd h List.not_mem_nil⟩

theorem sound_opened (disk : Disk) : Sound start store { disk } :=
  ⟨accounted_opened disk, fun _ ht => absurd ht List.not_mem_nil⟩

/-- The first call at an office, if it is answered at once. -/
theorem after_prompt {disk later : Disk} {moment : Moment} {approver : Approver} {request : Request}
    {reply : Reply}
    (h : ((coordinatorOn moment start store approver).begin request).run disk =
      (.answered reply, later)) :
    ({ disk } : Office).after start store request (prompt moment approver) =
      { disk := later
        desk := { outcomes := [(0, some reply)] }
        made := [request]
        tasks := [⟨⟨0, request⟩, moment, approver, disk⟩] } := by
  have hprogress : Task.progress start store ⟨⟨0, request⟩, moment, approver, disk⟩ =
      (.answered reply, later) := h
  change Office.beginWith start store
    { disk, desk := { handling := [⟨0, request⟩] }, made := [request] }
    ⟨⟨0, request⟩, moment, approver, disk⟩ = _
  rw [beginWith, hprogress]
  rfl

theorem serves_prompt {disk later : Disk} {moment : Moment} {approver : Approver} {request : Request}
    {reply : Reply}
    (h : ((coordinatorOn moment start store approver).begin request).run disk =
      (.answered reply, later)) :
    ({ disk } : Office).Serves start store request (prompt moment approver) := by
  refine ⟨by simp [prompt], ?_⟩
  rw [after_prompt h]
  rfl

theorem request_prompt {disk later : Disk} {moment : Moment} {approver : Approver}
    {request : Request} {reply : Reply}
    (h : ((coordinatorOn moment start store approver).begin request).run disk =
      (.answered reply, later)) :
    ((line start store (prompt moment approver)).request request).run { disk } =
      (some reply, ({ disk } : Office).after start store request (prompt moment approver)) := by
  change (Option.join _, _) = _
  rw [after_prompt h]
  rfl

end Office
end WalletEngine.Relay
