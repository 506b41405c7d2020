import WalletEngine.Proofs.Relay.Service

/-! # An owner who approves of everything

While the owner approves of everything, and others who use the disk leave the wallet there, a transfer
of the wallet with an allowed amount that is served gets the signature of the wallet.
-/

namespace WalletEngine.Relay

open Steps

/-- The disk has a wallet with the keys of this one. -/
def HasKeys (start : String) (store : Store) (w : Wallet) (disk : Disk) : Prop :=
  ∃ stored, Store.storedWallet disk (Store.placeFrom start store) = some stored ∧
    stored.address = w.address ∧ stored.secret = w.secret

section Coordinator
variable {start : String} {store : Store} {approver : Approver} {disk : Disk}

/-- The coordinator reads the disk and writes nothing. -/
theorem disk_of_begin (moment : Moment) (start : String) (store : Store) (approver : Approver)
    (disk : Disk) (request : Request) :
    (((coordinatorOn moment start store approver).begin request).run disk).2 = disk := by
  cases request with
  | nodeHealth | simulatorHealth => rfl
  | sign t =>
      obtain ⟨result, hbegin, -⟩ := begin_sign moment start store approver disk t
      rw [hbegin]
  | walletStatus =>
      have hdisk : ((store.load (moment.host start)).run.run disk).2 = disk := by
        have hload := Store.disk_of_reading moment start store disk Store.Image.wallet
        rwa [← bind_pure_comp] at hload
      change (((store.load (moment.host start)).run >>= _).run disk).2 = disk
      rw [StateT.run_bind]
      generalize (store.load (moment.host start)).run.run disk = loaded at hdisk
      obtain ⟨_ | _, later⟩ := loaded <;> exact hdisk

/-- A transfer that is approved of is signed by the wallet that is stored. -/
theorem begin_sign_of_hasKeys (moment : Moment) {w : Wallet}
    (hkeys : HasKeys start store w disk) {t : Transfer} (happroved : approver t = true)
    (hsender : t.sender = w.address)
    (hfinite : t.amount.isFinite = true) (hpositive : t.amount.isPositive = true) :
    ((coordinatorOn moment start store approver).begin (.sign t)).run disk =
      (.answered (.signature (.signed (Keyring.signature w.secret t.toJson))), disk) := by
  obtain ⟨stored, hstored, haddress, hsecret⟩ := hkeys
  obtain ⟨result, hbegin, hconsistent, hresult⟩ := begin_sign moment start store approver disk t
  have hauthorised : IsAuthorised approver disk (Store.placeFrom start store) t
      (Keyring.signature w.secret t.toJson) :=
    ⟨happroved, hfinite, hpositive, stored, hstored, haddress.trans hsender.symm, by rw [hsecret]⟩
  rw [hbegin, hconsistent.eq_signed ((hresult _).mpr hauthorised)]

end Coordinator

namespace Office
variable {start : String} {store : Store} {s : Office} {w : Wallet}

/-! ## What the coordinator begins with -/

/-- The disk is changed by others only, and a new task has the disk that was there when it was begun
with. -/
theorem step_cases (s : Office) (happening : Happening) :
    ((s.step start store happening).disk = s.disk ∨
      happening = .others (s.step start store happening).disk) ∧
    ∀ t ∈ (s.step start store happening).tasks, t ∈ s.tasks ∨
      ∃ index, happening = .begin index t.moment t.approver ∧ t.disk = s.disk := by
  cases happening with
  | call _ | enter | take | close => exact ⟨.inl rfl, fun t ht => .inl ht⟩
  | others disk => exact ⟨.inr rfl, fun t ht => .inl ht⟩
  | probed index reports =>
      rw [step]
      split <;> exact ⟨.inl rfl, fun t ht => .inl ht⟩
  | begin index moment approver =>
      rw [step]
      split
      next call hcall =>
        have hdisk := disk_of_begin moment start store approver s.disk call.request
        refine ⟨.inl ?_, fun t ht => ?_⟩
        · rw [beginWith]
          split
          next reply later hprogress => exact (congrArg Prod.snd hprogress).symm.trans hdisk
          next service later hprogress => exact (congrArg Prod.snd hprogress).symm.trans hdisk
        · rw [tasks_beginWith] at ht
          rcases List.mem_cons.mp ht with rfl | hold
          · exact .inr ⟨index, rfl, rfl⟩
          · exact .inl hold
      next => exact ⟨.inl rfl, fun t ht => .inl ht⟩

/-- While the coordinator is left to itself, all that it begins with is for an owner who wants what
`approver` says, and on the disk as it is. -/
theorem asked_run {approver : Approver} {happenings : List Happening}
    (h : ∀ happening ∈ happenings, Proceeds approver happening) :
    ∀ t ∈ (s.run start store happenings).tasks,
      t ∈ s.tasks ∨ t.approver = approver ∧ t.disk = s.disk := by
  induction happenings generalizing s with
  | nil => exact fun t ht => .inl ht
  | cons happening rest ih =>
      obtain ⟨hfirst, hrest⟩ := List.forall_mem_cons.mp h
      obtain ⟨hdisk, htasks⟩ := step_cases s happening
      have hkept : (s.step start store happening).disk = s.disk :=
        hdisk.resolve_right fun hothers => nomatch hothers ▸ hfirst
      intro t ht
      rcases ih hrest t ht with hmem | ⟨happrover, hsame⟩
      · rcases htasks t hmem with hold | ⟨index, rfl, hsame⟩
        · exact .inl hold
        · cases hfirst
          exact .inr ⟨rfl, hsame⟩
      · exact .inr ⟨happrover, hsame.trans hkept⟩

/-- The tasks before a call have smaller numbers. -/
theorem Sound.notMem_tasks (h : Sound start store s) {t : Task} {request : Request}
    (hcall : t.call = ⟨s.made.length, request⟩) : t ∉ s.tasks := by
  intro hmem
  have hid := (List.getElem?_eq_some_iff.mp (h.accounted.own t hmem)).1
  rw [hcall] at hid
  exact Nat.lt_irrefl _ hid

/-! ## An owner who approves -/

/-- What happens while the owner approves of everything and others leave the wallet there. -/
def Obliges (start : String) (store : Store) (w : Wallet) : Happening → Prop
  | .begin _ _ approver => ∀ t, approver t = true
  | .others disk => HasKeys start store w disk
  | .call _ | .enter | .take | .probed _ _ | .close => True

/-- A task of which the owner approves, on a disk with the wallet. -/
structure Grants (start : String) (store : Store) (w : Wallet) (t : Task) : Prop where
  approved : ∀ transfer, t.approver transfer = true
  keys : HasKeys start store w t.disk

/-- The wallet stays on the disk, and whatever is begun with is granted. -/
theorem grants_step (hkeys : HasKeys start store w s.disk) {happening : Happening}
    (h : Obliges start store w happening) :
    HasKeys start store w (s.step start store happening).disk ∧
      ∀ t ∈ (s.step start store happening).tasks, t ∈ s.tasks ∨ Grants start store w t := by
  obtain ⟨hdisk, htasks⟩ := step_cases s happening
  refine ⟨?_, fun t ht => ?_⟩
  · rcases hdisk with hsame | hothers
    · rwa [hsame]
    · rw [hothers] at h
      exact h
  · rcases htasks t ht with hold | ⟨index, rfl, hsame⟩
    · exact .inl hold
    · exact .inr ⟨h, hsame ▸ hkeys⟩

theorem grants_run (hkeys : HasKeys start store w s.disk) {happenings : List Happening}
    (h : ∀ happening ∈ happenings, Obliges start store w happening) :
    ∀ t ∈ (s.run start store happenings).tasks, t ∈ s.tasks ∨ Grants start store w t := by
  induction happenings generalizing s with
  | nil => exact fun t ht => .inl ht
  | cons happening rest ih =>
      obtain ⟨hfirst, hrest⟩ := List.forall_mem_cons.mp h
      obtain ⟨hkept, htasks⟩ := grants_step hkeys hfirst
      intro t ht
      rcases ih hkept hrest t ht with hmem | hgrants
      · exact htasks t hmem
      · exact .inr hgrants

/-- A transfer of the wallet with an allowed amount gets the signature of the wallet. -/
theorem signed_of_serves (h : Sound start store s) (hopen : s.desk.isOpen = true)
    (hkeys : HasKeys start store w s.disk) {schedule : List Happening}
    (hobliges : ∀ happening ∈ schedule, Obliges start store w happening) {t : Transfer}
    (hsender : t.sender = w.address) (hfinite : t.amount.isFinite = true)
    (hpositive : t.amount.isPositive = true)
    (hserves : s.Serves start store (.sign t) schedule) :
    ((line start store schedule).request (.sign t)).run s =
      (some (.signature (.signed (Keyring.signature w.secret t.toJson))),
        s.after start store (.sign t) schedule) := by
  obtain ⟨task, reply, htask, hcall, hyields, hline⟩ := answered_of_serves h hopen hserves
  have hgrants : Grants start store w task := by
    rcases grants_run (s := s.step start store (.call (.sign t))) hkeys hobliges task htask with hold | hgrants
    · exact absurd hold (h.notMem_tasks hcall)
    · exact hgrants
  obtain ⟨reports, hreply⟩ := hyields
  have hbegin := begin_sign_of_hasKeys task.moment hgrants.keys (hgrants.approved t) hsender hfinite
    hpositive
  rw [hline, hreply, hcall, replyTo,
    handle_of_answered task.moment start store task.approver task.disk _ hbegin]

/-- What the coordinator does by itself is obliging if the owner approves of everything. -/
theorem obliges_of_proceeds {happening : Happening}
    (h : Proceeds (fun _ => true) happening) : Obliges start store w happening := by
  cases h with
  | enter | take | probed => trivial
  | begin index moment => exact fun _ => rfl

theorem obliges_prompt (moment : Moment) {approver : Approver} (h : ∀ t, approver t = true) :
    ∀ happening ∈ prompt moment approver, Obliges start store w happening := by
  intro happening hmem
  simp only [prompt, List.mem_cons, List.not_mem_nil, or_false] at hmem
  rcases hmem with rfl | rfl | rfl
  · trivial
  · trivial
  · exact h

end Office
end WalletEngine.Relay
