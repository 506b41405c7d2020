import WalletEngine.Proofs.Polling.Passes

/-! # The halves of a wallet round

A pass of a wallet round fetches a balance and a history, and neither half stands in the way of the
other. What the ledger does not tell stays as it was, and what it tells is stored and shown
whatever became of the other half. The store may refuse the balance because somebody else has
changed the wallet meanwhile; then the round leaves the file to them and shows what they have left.
-/

namespace WalletEngine.Polling

open Scheduler Steps
open Store (imageAt stored)

/-! ## What a round does to the file -/

/-- An incident that is no doing of others. -/
def Incident.isOwn : Incident → Bool
  | .usual (.visit _) | .meddled _ => false
  | .usual _ => true

/-- Whatever others do, the scheduler leaves the file of the wallet alone in some incidents. -/
def LeavesFile (handle : Handle) (start : Situation) (before incidents : List Incident) : Prop :=
  ∀ part j, part ++ [j] <+: incidents → j.isOwn = true →
    ((start.undergo handle (before ++ part)).meet handle j).disk.find (imageAt handle.place) =
      (start.undergo handle (before ++ part)).disk.find (imageAt handle.place)

/-- In one of some incidents the balance is handed to the store, which finds the disk `disk`,
answers `result` and leaves the disk `after`. -/
def HandsOver (handle : Handle) (start : Situation) (before incidents : List Incident)
    (version : UInt64) (balance : Binary64) (disk : Disk) (result : Except Store.Fault UInt64)
    (after : Disk) : Prop :=
  ∃ part moment replies,
    part ++ [.usual (.done (.writeBalance version balance) moment replies)] <+: incidents ∧
    .writeBalance version balance ∈ (start.undergo handle (before ++ part)).asked ∧
    (start.undergo handle (before ++ part)).disk = disk ∧
    handle.carryOut moment replies disk (.writeBalance version balance) = (.written result, after)

/-- The wallet that was stored under a version has a balance now: it had an equal one before, or the
file was replaced by one that has it. -/
def Persists (place : Disk.Path) (version : UInt64) (balance : Binary64) (disk after : Disk) :
    Prop :=
  ∃ i w, stored disk place = some i ∧ i.wallet = some w ∧ i.version = version ∧
    (w.balance.equals balance = true ∧
        after.find (imageAt place) = disk.find (imageAt place) ∨
      after.find (imageAt place) =
        .ok (.file (Bytes.ofText (i.withWallet { w with balance }).text)))

section CarryOut
variable {handle : Handle} {moment : Moment} {replies : Replies} {disk after : Disk}
  {version : UInt64} {balance : Binary64} {result : Except Store.Fault UInt64}

/-- What becomes of the file is known from what the store answers. -/
theorem file_of_written
    (h : handle.carryOut moment replies disk (.writeBalance version balance) =
      (.written result, after)) :
    (∀ fault, result = .error fault →
      after.find (imageAt handle.place) = disk.find (imageAt handle.place)) ∧
    ∀ current, result = .ok current → Persists handle.place version balance disk after := by
  obtain ⟨answer, hcarry, hanswer⟩ :=
    carryOut_writeBalance handle moment replies disk version balance
  obtain ⟨rfl, rfl⟩ : answer = result ∧ _ = after := by
    simpa only [Prod.mk.injEq, Event.written.injEq] using hcarry.symm.trans h
  generalize hv : (Store.Visit.mk handle.start handle.store moment
    (.setBalance (some version) balance)) = v at hanswer ⊢
  have hplace : handle.place = v.place := by rw [← hv]; rfl
  have hcall : v.call = .setBalance (some version) balance := by rw [← hv]
  have hhappens := Store.run_happens v disk
  generalize v.run disk = out at hhappens hanswer ⊢
  rw [hplace]
  cases hhappens with
  | hindered hfault _ hsame =>
      cases answer with
      | ok current => cases hanswer
      | error fault => exact ⟨fun _ _ => hsame, by rintro current ⟨⟩⟩
  | refused hstored _ hsame =>
      cases answer with
      | ok current => cases hanswer
      | error fault => exact ⟨fun _ _ => hsame, by rintro current ⟨⟩⟩
  | @answered i a _ hstored hreading hsame =>
      refine ⟨fun _ _ => hsame, fun current hcurrent => ?_⟩
      rw [hcall] at hreading
      cases hreading with
      | equal hwallet hexpected hequal =>
          exact ⟨i, _, hstored, hwallet, (hexpected _ rfl).symm, .inl ⟨hequal, hsame⟩⟩
  | @changed i next a _ hstored hchange hnext =>
      cases answer with
      | error fault => cases hanswer
      | ok current =>
          refine ⟨by rintro fault ⟨⟩, fun _ _ => ?_⟩
          rw [hcall] at hchange
          cases hchange with
          | updated hwallet hexpected hequal =>
              exact ⟨i, _, hstored, hwallet, (hexpected _ rfl).symm, .inr hnext⟩

/-- Only what comes of storing a balance may be different from the disk before. -/
theorem disk_carryOut {effect : Effect}
    (h : ∀ version balance, effect ≠ .writeBalance version balance) :
    (handle.carryOut moment replies disk effect).2 = disk := by
  cases effect with
  | readSnapshot => rw [carryOut_readSnapshot]
  | reload => rw [carryOut_reload]
  | writeBalance version balance => exact absurd rfl (h version balance)
  | _ => rfl

end CarryOut

/-! ## The balance on its way -/

section Calls
variable {handle : Handle} {s : Situation} {i : Incident} {event : Event}

/-- What the scheduler is told of a call was on its way back. -/
theorem mem_back_of_hears {now : Time.Instant} (h : s.hears? i = some (now, event))
    (herrand : event.errand? ≠ none) : event ∈ s.back := by
  cases i with
  | meddled disk => cases h
  | usual happening =>
      cases happening with
      | visit v => cases h
      | done effect moment replies => cases h
      | signal now signal =>
          cases h
          cases signal <;> exact absurd rfl herrand
      | told now index =>
          obtain ⟨event, hback, heq⟩ := Option.map_eq_some_iff.mp h
          cases heq
          exact List.mem_of_getElem? hback

/-- What is on its way back comes of something that was done, then or now. -/
theorem mem_back_meet (h : event ∈ (s.meet handle i).back) :
    event ∈ s.back ∨ ∃ effect moment replies, i = .usual (.done effect moment replies) ∧
      effect ∈ s.asked ∧ (handle.carryOut moment replies s.disk effect).1 = event := by
  cases i with
  | meddled disk => exact .inl h
  | usual happening =>
      cases happening with
      | visit v => exact .inl h
      | signal now signal => exact .inl h
      | told now index =>
          left
          simp only [Situation.meet, Situation.step] at h
          split at h
          next => exact List.mem_of_mem_eraseIdx h
          next => exact h
      | done effect moment replies =>
          simp only [Situation.meet, Situation.step] at h
          split at h
          next hmem =>
            rcases List.mem_append.mp h with hback | hnow
            · exact .inl hback
            · exact .inr ⟨effect, moment, replies, rfl, hmem, (List.mem_singleton.mp hnow).symm⟩
          next => exact .inl h

/-- What is on its way back stays so until the scheduler is told. -/
theorem back_kept (handle : Handle) (i : Incident) (h : event ∈ s.back) :
    event ∈ (s.meet handle i).back ∨ ∃ now, s.hears? i = some (now, event) := by
  cases i with
  | meddled disk => exact .inl h
  | usual happening =>
      cases happening with
      | visit v => exact .inl h
      | signal now signal => exact .inl h
      | done effect moment replies =>
          left
          simp only [Situation.meet, Situation.step]
          split
          next => exact List.mem_append_left _ h
          next => exact h
      | told now index =>
          simp only [Situation.meet, Situation.step, Situation.hears?]
          cases hback : s.back[index]? with
          | none => exact .inl h
          | some other =>
              obtain ⟨before, behind, hsplit, herase⟩ := exists_split hback
              rw [hsplit] at h
              rcases List.mem_append.mp h with hbefore | hbehind
              · left
                simp only [Situation.tell, herase]
                exact List.mem_append_left _ hbefore
              · rcases List.mem_cons.mp hbehind with rfl | hbehind
                · exact .inr ⟨now, rfl⟩
                · left
                  simp only [Situation.tell, herase]
                  exact List.mem_append_right _ hbehind

/-- While the balance is handed to the store, the round waits for that. -/
theorem SingleFlight.writing (h : SingleFlight s) (hmem : Errand.write ∈ s.underWay) :
    ∃ address balance history, s.scheduler.stage = some (.writing address balance history) := by
  have hawaited := h.underWay.subset hmem
  rw [awaited] at hawaited
  cases hstage : s.scheduler.stage with
  | none =>
      rw [hstage] at hawaited
      cases hawaited
  | some stage =>
      rw [hstage] at hawaited
      have hawaits : Awaits stage (.written (.ok 0)) := awaits_of_mem rfl hawaited
      cases hawaits with
      | written => exact ⟨_, _, _, rfl⟩

theorem write_mem_of_asked {version : UInt64} {balance : Binary64}
    (h : .writeBalance version balance ∈ s.asked) : Errand.write ∈ s.underWay :=
  List.mem_append_left _ (List.mem_filterMap.mpr ⟨_, h, rfl⟩)

theorem write_mem_of_back {result : Except Store.Fault UInt64} (h : .written result ∈ s.back) :
    Errand.write ∈ s.underWay :=
  List.mem_append_right _ (List.mem_filterMap.mpr ⟨_, h, rfl⟩)

end Calls

theorem Account.Extends.trans {a b c : Account} (h : a.Extends b) (h' : b.Extends c) :
    a.Extends c where
  found := fun x hx => h.found x (h'.found x hx)
  balance := fun x hx => h.balance x (h'.balance x hx)
  history := fun x hx => h.history x (h'.history x hx)
  written := fun x hx => h.written x (h'.written x hx)
  reloaded := fun x hx => h.reloaded x (h'.reloaded x hx)

theorem Account.written_of_told (a : Account) {heard : Option (Time.Instant × Event)}
    {result : Except Store.Fault UInt64} (h : (a.told heard).written = some result) :
    a.written = some result ∨ ∃ now, heard = some (now, .written result) := by
  cases heard with
  | none => exact .inl h
  | some heard =>
      obtain ⟨now, event⟩ := heard
      cases event with
      | written outcome =>
          cases h
          exact .inr ⟨now, rfl⟩
      | _ => exact .inl h

theorem Knows.conflicts {address : String} {history : Option (List Transfer.HistoryEntry)}
    {a : Account} (h : Knows (.reloading address history) a) : a.Conflicts := by
  cases h
  exact ⟨_, _, rfl⟩

section Orders
variable {s : Scheduler} {a : Account} {heard : Option (Time.Instant × Event)}
  {r : Scheduler × List Effect}

theorem Meets.extends (h : Meets s a heard r) : (a.told heard).Extends a := by
  cases h with
  | silent => exact .refl a
  | unprompted hevent =>
      rw [Account.told, a.hear_of_none hevent]
      exact .refl a
  | told _ hawaits hknows => exact hknows.extends hawaits

/-- The ledger is asked only about a wallet that was found. -/
theorem Meets.found_of_fetch (h : Meets s a heard r) {address : String}
    (hmem : .fetchBalance address ∈ r.2 ∨ .fetchHistory address ∈ r.2) :
    ∃ p, (a.told heard).found = some (some p) := by
  cases h with
  | silent => simp at hmem
  | unprompted _ hstep => cases hstep <;> simp at hmem
  | told _ _ _ hproceeds =>
      cases hproceeds with
      | asks hknows =>
          generalize hstage : Stage.fetching _ _ _ _ = stage at hknows
          rw [Account.told]
          generalize a.hear _ = b at hknows ⊢
          cases hknows with
          | fetching => exact ⟨_, rfl⟩
          | _ => cases hstage
      | gaveUp _ hends | published _ hends => cases hends <;> simp at hmem
      | _ => simp at hmem

/-- The ledger tells a balance only of a wallet that was found. -/
theorem Meets.found_of_balance (h : Meets s a heard r)
    (hbefore : a.balance ≠ none → ∃ p, a.found = some (some p)) :
    (a.told heard).balance ≠ none → ∃ p, (a.told heard).found = some (some p) := by
  cases h with
  | silent => exact hbefore
  | unprompted hevent =>
      rw [Account.told, a.hear_of_none hevent]
      exact hbefore
  | told _ hawaits hknows =>
      cases hawaits with
      | snapshot =>
          cases hknows
          exact fun hbalance => absurd rfl hbalance
      | _ =>
          cases hknows
          exact fun _ => ⟨_, rfl⟩

/-- The balance that is handed to the store is the one that the ledger has told, on the version that
was found. -/
theorem Meets.told_of_write (h : Meets s a heard r) {version : UInt64} {balance : Binary64}
    (hmem : .writeBalance version balance ∈ r.2) :
    (∃ wallet, (a.told heard).found = some (some (version, wallet))) ∧
      (a.told heard).balance = some (.ok balance) := by
  cases h with
  | silent => simp at hmem
  | unprompted _ hstep => cases hstep <;> simp at hmem
  | told _ _ _ hproceeds =>
      cases hproceeds with
      | stores hfound hbalance =>
          cases List.mem_singleton.mp hmem
          exact ⟨⟨_, hfound⟩, hbalance⟩
      | gaveUp _ hends | published _ hends => cases hends <;> simp at hmem
      | _ => simp at hmem

end Orders

section Passes
variable {handle : Handle} {start : Situation} {before since part : List Incident} {a : Account}
  {i j : Incident}

/-- What a pass was told at one of its incidents it still knows later. -/
theorem Pass.at_incident (hstart : SingleFlight start) (h : Pass handle start before since a)
    (i : Incident) (hfront : part ++ [j] <+: since ++ [i]) :
    ∃ b, Pass handle start before part b ∧
      (a.told ((start.undergo handle (before ++ since)).hears? i)).Extends
        (b.told ((start.undergo handle (before ++ part)).hears? j)) := by
  induction h generalizing i with
  | @begins earlier first hbefore hbegins =>
      rcases front_cases hfront with ⟨rfl, rfl⟩ | hfront
      · exact ⟨_, .begins hbefore hbegins, .refl _⟩
      · simp at hfront
  | @goesOn since a last hpass hnot ih =>
      have hlater := hpass.goesOn hnot
      rcases front_cases hfront with ⟨rfl, rfl⟩ | hfront
      · exact ⟨_, hlater, .refl _⟩
      · obtain ⟨b, hb, hextends⟩ := ih last hfront
        exact ⟨b, hb, (hlater.meets hstart i).extends.trans hextends⟩

theorem Pass.found_of_balance (hstart : SingleFlight start)
    (h : Pass handle start before since a) : a.balance ≠ none → ∃ p, a.found = some (some p) := by
  induction h with
  | begins => exact fun hbalance => absurd rfl hbalance
  | @goesOn since a i hpass _ ih => exact (hpass.meets hstart i).found_of_balance ih

/-- What is known of the balance of a pass on its way to the store and back, when the situation is
`s`. -/
structure Delivers (handle : Handle) (start : Situation) (before incidents : List Incident)
    (s : Situation) (a : Account) : Prop where
  asked : ∀ version balance, .writeBalance version balance ∈ s.asked →
    (∃ wallet, a.found = some (some (version, wallet))) ∧ a.balance = some (.ok balance)
  /-- What comes back comes of handing the balance over. -/
  back : ∀ result, .written result ∈ s.back ∨ a.written = some result →
    ∃ version wallet balance disk after, a.found = some (some (version, wallet)) ∧
      a.balance = some (.ok balance) ∧
      HandsOver handle start before incidents version balance disk result after
  /-- Once the balance was handed over, what comes of it does come back. -/
  handed : ∀ version balance disk result after,
    HandsOver handle start before incidents version balance disk result after →
      .written result ∈ s.back ∨ a.written = some result

theorem HandsOver.mono {incidents more : List Incident} {version : UInt64} {balance : Binary64}
    {disk after : Disk} {result : Except Store.Fault UInt64}
    (h : HandsOver handle start before incidents version balance disk result after)
    (hfront : incidents <+: more) :
    HandsOver handle start before more version balance disk result after := by
  obtain ⟨part, moment, replies, hpart, hrest⟩ := h
  exact ⟨part, moment, replies, hpart.trans hfront, hrest⟩

theorem Delivers.meet (hstart : SingleFlight start) (hpass : Pass handle start before since a)
    (h : Delivers handle start before since (start.undergo handle (before ++ since)) a)
    (i : Incident) :
    Delivers handle start before (since ++ [i])
      ((start.undergo handle (before ++ since)).meet handle i)
      (a.told ((start.undergo handle (before ++ since)).hears? i)) := by
  have hmeets := hpass.meets hstart i
  have hextends := hmeets.extends
  generalize hs : start.undergo handle (before ++ since) = s at h hmeets hextends ⊢
  constructor
  · intro version balance hmem
    rcases Situation.mem_asked_meet handle s hmem with hasked | hnow
    · obtain ⟨⟨wallet, hfound⟩, hbalance⟩ := h.asked version balance hasked
      exact ⟨⟨wallet, hextends.found _ hfound⟩, hextends.balance _ hbalance⟩
    · exact hmeets.told_of_write hnow
  · -- What is back or told was back or told before, unless the balance is handed over now.
    have hkept (result : Except Store.Fault UInt64)
        (hresult : .written result ∈ s.back ∨ a.written = some result) :
        ∃ version wallet balance disk after,
          (a.told (s.hears? i)).found = some (some (version, wallet)) ∧
          (a.told (s.hears? i)).balance = some (.ok balance) ∧
          HandsOver handle start before (since ++ [i]) version balance disk result after := by
      obtain ⟨version, wallet, balance, disk, after, hfound, hbalance, hhands⟩ :=
        h.back result hresult
      exact ⟨version, wallet, balance, disk, after, hextends.found _ hfound,
        hextends.balance _ hbalance, hhands.mono (List.prefix_append ..)⟩
    rintro result (hback | hwritten)
    · rcases mem_back_meet hback with hold | ⟨effect, moment, replies, rfl, hmem, hevent⟩
      · exact hkept result (.inl hold)
      · cases effect with
        | writeBalance version balance =>
            obtain ⟨⟨wallet, hfound⟩, hbalance⟩ := h.asked version balance hmem
            exact ⟨version, wallet, balance, s.disk, _, hfound, hbalance, since, moment, replies,
              List.prefix_rfl, hs ▸ hmem, by rw [hs], Prod.ext hevent rfl⟩
        | _ => cases hevent
    · rcases a.written_of_told hwritten with hold | ⟨now, hhears⟩
      · exact hkept result (.inr hold)
      · exact hkept result (.inl (mem_back_of_hears hhears nofun))
  · rintro version balance disk result after ⟨part, moment, replies, hfront, hmem, hdisk, hcarry⟩
    rcases front_cases hfront with ⟨rfl, rfl⟩ | hfront
    · left
      rw [hs] at hmem hdisk
      rw [Situation.meet, Situation.step, if_pos hmem, hdisk, hcarry]
      exact List.mem_append_right _ (List.mem_singleton_self _)
    · rcases h.handed version balance disk result after
        ⟨part, moment, replies, hfront, hmem, hdisk, hcarry⟩ with hback | hwritten
      · rcases back_kept handle i hback with hstill | ⟨now, hhears⟩
        · exact .inl hstill
        · right
          rw [hhears]
          rfl
      · exact .inr (hextends.written _ hwritten)

/-- At the beginning of a pass no balance is on its way. -/
theorem Pass.delivers (hstart : SingleFlight start) (h : Pass handle start before since a) :
    Delivers handle start before since (start.undergo handle (before ++ since)) a := by
  induction h with
  | @begins earlier first hbefore hbegins =>
      have hflight : SingleFlight (start.undergo handle before) := hstart.undergo before
      have hnone : Errand.write ∉ (start.undergo handle (before ++ [])).underWay := by
        intro hmem
        rw [List.append_nil] at hmem
        obtain ⟨address, balance, history, hstage⟩ := hflight.writing hmem
        rw [hbefore, Situation.undergo_snoc, stage_of_begins hbegins] at hstage
        cases hstage
      refine ⟨?_, ?_, ?_⟩
      · intro version balance hmem
        exact absurd (write_mem_of_asked hmem) hnone
      · rintro result (hback | ⟨⟨⟩⟩)
        exact absurd (write_mem_of_back hback) hnone
      · rintro version balance disk result after ⟨part, moment, replies, hfront, -⟩
        simp at hfront
  | @goesOn since a i hpass hnot ih =>
      rw [← List.append_assoc, Situation.undergo_snoc]
      exact ih.meet hstart hpass i

/-- While what comes of handing the balance over is on its way back, the pass was not told of it. -/
theorem Pass.unwritten (hstart : SingleFlight start) (h : Pass handle start before since a)
    (i : Incident) (result : Except Store.Fault UInt64)
    (hback : .written result ∈ ((start.undergo handle (before ++ since)).meet handle i).back) :
    (a.told ((start.undergo handle (before ++ since)).hears? i)).written = none := by
  have hflight : SingleFlight ((start.undergo handle (before ++ since)).meet handle i) :=
    (hstart.undergo (before ++ since)).meet i
  obtain ⟨address, balance, history, hstage⟩ := hflight.writing (write_mem_of_back hback)
  by_cases hbegins : (start.undergo handle (before ++ since)).Begins i
  · rw [stage_of_begins hbegins] at hstage
    cases hstage
  · have hlater := h.goesOn hbegins
    rw [← Situation.undergo_snoc, List.append_assoc] at hstage
    have hknows := hlater.knows hstart hstage
    generalize a.told _ = b at hknows ⊢
    cases hknows
    rfl

end Passes

/-! ## What becomes of both halves -/

/-- What a pass does that was told `a`, the last of it at the incident `i`, where the panel `shown`
became the panel `later`. -/
structure HalvesApart (handle : Handle) (start : Situation) (before since : List Incident)
    (i : Incident) (a : Account) (shown later : Panel) : Prop where
  /-- Without a wallet the ledger is not asked and nothing is shown. -/
  nothing : a.found = some none → ∀ part j, part ++ [j] <+: since ++ [i] →
    ¬(start.undergo handle (before ++ part)).Publishes handle j ∧
    ∀ address, .fetchBalance address ∉ (start.undergo handle (before ++ part)).orders j ∧
      .fetchHistory address ∉ (start.undergo handle (before ++ part)).orders j
  /-- Something is shown as soon as there is nothing left to wait for. -/
  shows : (start.undergo handle (before ++ since)).Publishes handle i ↔
    (∃ now event, (start.undergo handle (before ++ since)).hears? i = some (now, event) ∧
      event.errand? ≠ none) ∧ ∃ f, a.Yields f
  /-- Without a balance the file and the balance that is shown stay as they are, and a history is
  shown as soon as both calls have come back. -/
  balanceWithheld : ∀ fault, a.balance = some (.error fault) →
    LeavesFile handle start before (since ++ [i]) ∧
    (∀ entries now event, a.history = some entries →
      (start.undergo handle (before ++ since)).hears? i = some (now, event) →
      event.errand? ≠ none → (start.undergo handle (before ++ since)).Publishes handle i) ∧
    ((start.undergo handle (before ++ since)).Publishes handle i →
      later.balance = shown.balance ∧
      ∀ entries, a.history = some (.ok entries) → later.history = entries)
  /-- Without a history the one that is shown stays as it is. -/
  historyWithheld : ∀ fault, a.history = some (.error fault) →
    (start.undergo handle (before ++ since)).Publishes handle i → later.history = shown.history
  /-- A balance is handed to the store, whatever the history, and shown unless somebody else has
  changed the wallet. -/
  balanceTold : ∀ remote, a.balance = some (.ok remote) →
    (start.undergo handle (before ++ since)).Publishes handle i →
    (∃ version wallet result disk after, a.found = some (some (version, wallet)) ∧
      a.written = some result ∧
      HandsOver handle start before (since ++ [i]) version remote disk result after ∧
      ∀ current, result = .ok current → Persists handle.place version remote disk after) ∧
    (¬a.Conflicts → later.balance = some remote)
  /-- A balance that the store refuses leaves the file as it is. -/
  refused : ∀ fault, a.written = some (.error fault) →
    LeavesFile handle start before (since ++ [i])
  /-- If somebody else has changed the wallet, the balance that they have left is shown. -/
  reread : a.Conflicts → ∀ wallet, a.reloaded = some (some wallet) →
    (start.undergo handle (before ++ since)).Publishes handle i →
    later.balance = some wallet.balance
  /-- What is shown of the services is left to overviews. -/
  services : (∀ now o,
      (start.undergo handle (before ++ since)).hears? i ≠ some (now, .overview o)) →
    later.simulatorConnected = shown.simulatorConnected ∧
      later.lastHealthCheck = shown.lastHealthCheck

section Findings
variable {a : Account} {f : Findings}

theorem Account.Yields.balance_of_withheld (h : a.Yields f) {fault : Ledger.Fault}
    (hbalance : a.balance = some (.error fault)) : f.balance = none := by
  cases h with
  | withheld => rfl
  | fetched _ hother | overtaken _ hother => cases hbalance.symm.trans hother

theorem Account.Yields.balance_of_told (h : a.Yields f) {remote : Binary64}
    (hbalance : a.balance = some (.ok remote)) :
    (∃ result, a.written = some result) ∧ (¬a.Conflicts → f.balance = some remote) := by
  cases h with
  | withheld _ hother => cases hbalance.symm.trans hother
  | fetched _ hother _ hwritten =>
      cases hbalance.symm.trans hother
      exact ⟨⟨_, hwritten⟩, fun _ => rfl⟩
  | overtaken _ _ _ hconflict =>
      obtain ⟨expected, actual, hwritten⟩ := id hconflict
      exact ⟨⟨_, hwritten⟩, fun hnot => absurd hconflict hnot⟩

theorem Account.Yields.history_of_told (h : a.Yields f)
    {entries : Except Ledger.Fault (List Transfer.HistoryEntry)}
    (hhistory : a.history = some entries) : f.history = entries.toOption := by
  obtain ⟨others, hothers, hf⟩ := h.history
  cases hhistory.symm.trans hothers
  exact hf

theorem Account.Yields.balance_of_reread (h : a.Yields f) {remote : Binary64}
    (hbalance : a.balance = some (.ok remote)) (hconflict : a.Conflicts)
    {wallet : Option Wallet} (hreloaded : a.reloaded = some wallet) :
    f.balance = wallet.map (·.balance) := by
  cases h with
  | withheld _ hother => cases hbalance.symm.trans hother
  | fetched _ _ _ _ hnot => exact absurd hconflict hnot
  | overtaken _ _ _ _ hother =>
      cases hreloaded.symm.trans hother
      rfl

end Findings

section Passes
variable {handle : Handle} {start : Situation} {before since : List Incident} {a : Account}

/-- Only handing the balance over may change the file. -/
theorem file_of_own {s : Situation} {j : Incident} (hown : j.isOwn = true)
    (hnot : ∀ version balance moment replies,
      j = .usual (.done (.writeBalance version balance) moment replies) →
        .writeBalance version balance ∉ s.asked) :
    (s.meet handle j).disk = s.disk := by
  cases j with
  | meddled disk => cases hown
  | usual happening =>
      cases happening with
      | visit v => cases hown
      | signal now signal => rfl
      | told now index =>
          rw [Situation.meet, Situation.step]
          split <;> rfl
      | done effect moment replies =>
          rw [Situation.meet, Situation.step]
          split
          next hmem =>
            refine disk_carryOut fun version balance heffect => ?_
            subst heffect
            exact hnot version balance moment replies rfl hmem
          next => rfl

/-- A pass that has no balance, or whose balance the store has refused, leaves the file alone. -/
theorem Pass.leavesFile (hstart : SingleFlight start) (h : Pass handle start before since a)
    (i : Incident)
    (hno : (∃ fault, (a.told ((start.undergo handle (before ++ since)).hears? i)).balance =
        some (.error fault)) ∨
      ∃ fault, (a.told ((start.undergo handle (before ++ since)).hears? i)).written =
        some (.error fault)) : LeavesFile handle start before (since ++ [i]) := by
  intro part j hfront hown
  have hdelivers := (h.delivers hstart).meet hstart h i
  have hunwritten (result : Except Store.Fault UInt64) := h.unwritten hstart i result
  generalize a.told ((start.undergo handle (before ++ since)).hears? i) = told
    at hno hdelivers hunwritten
  by_cases hwrites : ∃ version balance moment replies,
      j = .usual (.done (.writeBalance version balance) moment replies) ∧
        .writeBalance version balance ∈ (start.undergo handle (before ++ part)).asked
  · obtain ⟨version, balance, moment, replies, rfl, hmem⟩ := hwrites
    obtain ⟨result, hanswer, -⟩ := carryOut_writeBalance handle moment replies
      (start.undergo handle (before ++ part)).disk version balance
    obtain ⟨after, hcarry⟩ : ∃ after, handle.carryOut moment replies
        (start.undergo handle (before ++ part)).disk (.writeBalance version balance) =
      (.written result, after) := ⟨_, hanswer⟩
    have hhanded := hdelivers.handed version balance _ result after
      ⟨part, moment, replies, hfront, hmem, rfl, hcarry⟩
    rcases hno with ⟨fault, hbalance⟩ | ⟨fault, hwritten⟩
    · obtain ⟨-, -, remote, -, -, -, hremote, -⟩ := hdelivers.back result hhanded
      cases hbalance.symm.trans hremote
    · rcases hhanded with hback | hother
      · cases hwritten.symm.trans (hunwritten result hback)
      · have hresult : result = .error fault := Option.some.inj (hother.symm.trans hwritten)
        rw [Situation.meet, Situation.step, if_pos hmem, hcarry]
        exact (file_of_written hcarry).1 fault hresult
  · rw [file_of_own hown fun version balance moment replies hj hmem =>
      hwrites ⟨version, balance, moment, replies, hj, hmem⟩]

/-- A pass that finds no wallet asks the ledger for nothing and shows nothing. -/
theorem Pass.nothing (hstart : SingleFlight start) (h : Pass handle start before since a)
    (i : Incident)
    (hnone : (a.told ((start.undergo handle (before ++ since)).hears? i)).found = some none)
    {part : List Incident} {j : Incident} (hfront : part ++ [j] <+: since ++ [i]) :
    ¬(start.undergo handle (before ++ part)).Publishes handle j ∧
    ∀ address, .fetchBalance address ∉ (start.undergo handle (before ++ part)).orders j ∧
      .fetchHistory address ∉ (start.undergo handle (before ++ part)).orders j := by
  obtain ⟨b, hb, hextends⟩ := h.at_incident hstart i hfront
  have hmeets := hb.meets hstart j
  have hnot (p : UInt64 × Wallet)
      (hp : (b.told ((start.undergo handle (before ++ part)).hears? j)).found = some (some p)) :
      False := by
    cases hnone.symm.trans (hextends.found _ hp)
  refine ⟨fun hshows => ?_, fun address => ⟨fun hmem => ?_, fun hmem => ?_⟩⟩
  · obtain ⟨-, -, f, -, -, hyields, -⟩ := hmeets.shows hshows.1 hshows.2
    obtain ⟨version, wallet, hfound, -⟩ := hyields.found
    exact hnot _ hfound
  · obtain ⟨p, hp⟩ := hmeets.found_of_fetch (.inl hmem)
    exact hnot p hp
  · obtain ⟨p, hp⟩ := hmeets.found_of_fetch (.inr hmem)
    exact hnot p hp

end Passes

/-- In every pass of a wallet round, whatever the ledger says and when, and whatever others do to
the disk meanwhile, neither half stands in the way of the other. -/
theorem halves_apart (handle : Handle) (disk : Disk) (panel : Panel)
    (before since : List Incident) (known : Account) (i : Incident)
    (h : Pass handle (.started disk panel) before since known) :
    let start := Situation.started disk panel
    let s := start.undergo handle (before ++ since)
    HalvesApart handle start before since i (known.told (s.hears? i)) s.scheduler.panel
      (s.meet handle i).scheduler.panel := by
  intro start s
  have hstart : SingleFlight start := singleFlight_started disk panel
  have hmeets := h.meets hstart i
  have hdelivers := (h.delivers hstart).meet hstart h i
  have hshows (hpublishes : s.Publishes handle i) : ∃ now f,
      (known.told (s.hears? i)).Yields f ∧
        (s.meet handle i).scheduler.panel = s.scheduler.panel.showFindings f now := by
    obtain ⟨now, -, f, -, -, hyields, hpanel⟩ := hmeets.shows hpublishes.1 hpublishes.2
    exact ⟨now, f, hyields, hpanel⟩
  constructor
  case nothing => exact fun hnone part j hfront => h.nothing hstart i hnone hfront
  case shows =>
    constructor
    · intro hpublishes
      obtain ⟨now, event, f, hhears, herrand, hyields, -⟩ := hmeets.shows hpublishes.1 hpublishes.2
      exact ⟨⟨now, event, hhears, herrand⟩, f, hyields⟩
    · rintro ⟨⟨now, event, hhears, herrand⟩, f, hyields⟩
      exact hmeets.publishes hhears herrand hyields
  case balanceWithheld =>
    intro fault hbalance
    refine ⟨h.leavesFile hstart i (.inl ⟨fault, hbalance⟩), ?_, fun hpublishes => ?_⟩
    · intro entries now event hhistory hhears herrand
      have hsome : (known.told (s.hears? i)).balance ≠ none := by
        rw [hbalance]
        exact Option.some_ne_none _
      obtain ⟨⟨version, wallet⟩, hfound⟩ :=
        hmeets.found_of_balance (h.found_of_balance hstart) hsome
      exact hmeets.publishes hhears herrand (.withheld hfound hbalance hhistory)
    · obtain ⟨now, f, hyields, hpanel⟩ := hshows hpublishes
      rw [hpanel, Panel.showFindings, hyields.balance_of_withheld hbalance]
      refine ⟨rfl, fun entries hhistory => ?_⟩
      rw [hyields.history_of_told hhistory]
      rfl
  case historyWithheld =>
    intro fault hhistory hpublishes
    obtain ⟨now, f, hyields, hpanel⟩ := hshows hpublishes
    rw [hpanel, Panel.showFindings, hyields.history_of_told hhistory]
    rfl
  case balanceTold =>
    intro remote hbalance hpublishes
    obtain ⟨now, f, hyields, hpanel⟩ := hshows hpublishes
    obtain ⟨⟨result, hwritten⟩, hkept⟩ := hyields.balance_of_told hbalance
    refine ⟨?_, fun hnot => ?_⟩
    · obtain ⟨version, wallet, balance, disk, after, hfound, hother, hhands⟩ :=
        hdelivers.back result (.inr hwritten)
      cases hbalance.symm.trans hother
      have hhanded := hhands
      obtain ⟨part, moment, replies, -, -, -, hcarry⟩ := hhanded
      exact ⟨version, wallet, result, disk, after, hfound, hwritten, hhands,
        (file_of_written hcarry).2⟩
    · rw [hpanel, Panel.showFindings, hkept hnot]
      rfl
  case refused => exact fun fault hwritten => h.leavesFile hstart i (.inr ⟨fault, hwritten⟩)
  case reread =>
    intro hconflict wallet hreloaded hpublishes
    obtain ⟨now, f, hyields, hpanel⟩ := hshows hpublishes
    obtain ⟨expected, actual, hwritten⟩ := id hconflict
    obtain ⟨-, -, remote, -, -, -, hbalance, -⟩ := hdelivers.back _ (.inr hwritten)
    rw [hpanel, Panel.showFindings, hyields.balance_of_reread hbalance hconflict hreloaded]
    rfl
  case services =>
    intro hother
    rcases hmeets.panel hother with ⟨hkept, -⟩ | ⟨now, -, f, -, -, -, hpanel, -⟩
    · have hpanel : (s.meet handle i).scheduler.panel = s.scheduler.panel := hkept
      rw [hpanel]
      exact ⟨rfl, rfl⟩
    · have hlater : (s.meet handle i).scheduler.panel = _ := hpanel
      rw [hlater]
      exact ⟨rfl, rfl⟩

/-- A round whose wallet was lost leaves the file to those who have removed it. -/
theorem halves_apart_sample : ∃ before since known, emptiedRound = before ++ since ∧
    Pass sampleHandle litSituation before since known ∧
    LeavesFile sampleHandle litSituation before (since ++ [.usual (.told .epoch 0)]) := by
  obtain ⟨before, since, known, hsplit, hpass, hknows⟩ := pass_emptiedRound
  refine ⟨before, since, known, hsplit, hpass, ?_⟩
  have hapart := halves_apart sampleHandle _ _ before since known (.usual (.told .epoch 0)) hpass
  obtain ⟨expected, actual, hwritten⟩ := hknows.conflicts
  have hextends := (hpass.meets (singleFlight_started _ _) (.usual (.told .epoch 0))).extends
  exact hapart.refused (.conflict (.version expected actual)) (hextends.written _ hwritten)

end WalletEngine.Polling
