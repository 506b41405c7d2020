import WalletEngine.Proofs.Verification
import WalletEngine.Surface.SendDesk

/-! # What becomes of a form

The owner fills in a form and sends it. The desk looks at what is typed, reads the stored wallet twice,
signs, and hands the record in. The form is emptied, and a refresh asked for, exactly if the ledger has
taken the record; after any failure the form stays as it was typed, and a failure before the ledger is
called leaves nothing behind.
-/

namespace WalletEngine

open Steps

/-- What is read as an amount is one. -/
theorem Transfer.isAmount_of_readAmount {typed : String} {amount : Binary64}
    (h : readAmount typed = .ok amount) : amount.isFinite = true ∧ amount.isPositive = true := by
  rw [readAmount] at h
  split at h
  next => cases h
  next =>
    split at h
    next => cases h
    next x hparse =>
      obtain ⟨rfl, hamount⟩ := checkAmount_eq_ok_iff.mp h
      exact hamount

/-- To load a wallet fails because of the store, or because there is none. -/
theorem Signing.fault_of_loadWallet {σ : Type} {host : Host (StateM σ)} {store : Store} {st : σ}
    {fault : Fault} (h : (outcome (loadWallet host store) st).1 = .error fault) :
    (∃ cause, fault = .store cause) ∨ fault = .noWallet := by
  rw [loadWallet, outcome_bind, Action.ofStore, outcome_adapt] at h
  generalize outcome (store.load host) st = loaded at h
  rcases loaded with ⟨cause | _ | w, later⟩
  · cases h
    exact .inl ⟨cause, rfl⟩
  · cases h
    exact .inr rfl
  · cases h

namespace Surface

/-! ## The world of a sender -/

/-- The world of somebody who sends, with the records that were handed in, and how often a refresh was
asked for. -/
structure Till (σ : Type) where
  world : σ
  submitted : List SignedTransfer := []
  refreshes : Nat := 0

namespace Till
variable {σ ε α β : Type}

/-- An action of the world. -/
def inside (x : StateM σ α) : StateM (Till σ) α := fun till =>
  let (a, world) := x.run till.world
  (a, { till with world })

theorem run_inside {x : StateM σ α} {till : Till σ} {a : α} {world : σ}
    (h : x.run till.world = (a, world)) : (inside x).run till = (a, { till with world }) := by
  change (let (a, world) := x.run till.world; (a, { till with world })) = _
  rw [h]

/-- A ledger that answers a record as `answer` says. All records that are handed in are noted. -/
def ledger (answer : SignedTransfer → Except Ledger.Fault Ledger.Receipt)
    (others : Ledger (StateM (Till σ))) : Ledger (StateM (Till σ)) :=
  { others with
    submit := fun record till =>
      (answer record, { till with submitted := till.submitted ++ [record] }) }

theorem outcome_submit (answer : SignedTransfer → Except Ledger.Fault Ledger.Receipt)
    (others : Ledger (StateM (Till σ))) (record : SignedTransfer) (till : Till σ) :
    outcome (liftM ((ledger answer others).submit record) : Action (StateM (Till σ)) _) till =
      (.ok (answer record), { till with submitted := till.submitted ++ [record] }) := rfl

/-- An action does in the world what the other does, and nothing beside it. -/
def Mirrors (x : ExceptT ε (StateM (Till σ)) α) (y : ExceptT ε (StateM σ) α) : Prop :=
  ∀ till, outcome x till =
    ((outcome y till.world).1, { till with world := (outcome y till.world).2 })

theorem mirrors_lift (x : StateM σ α) :
    Mirrors (liftM (inside x) : ExceptT ε (StateM (Till σ)) α) (liftM x) := fun _ => rfl

theorem mirrors_known (known : Except ε α) :
    Mirrors (liftM known : ExceptT ε (StateM (Till σ)) α) (liftM known) := by
  intro till
  rw [outcome_lift_except, outcome_lift_except]

theorem mirrors_pure (a : α) : Mirrors (pure a : ExceptT ε (StateM (Till σ)) α) (pure a) :=
  fun _ => rfl

theorem Mirrors.bind {x : ExceptT ε (StateM (Till σ)) α} {y : ExceptT ε (StateM σ) α}
    {f : α → ExceptT ε (StateM (Till σ)) β} {g : α → ExceptT ε (StateM σ) β}
    (hx : Mirrors x y) (hf : ∀ a, Mirrors (f a) (g a)) : Mirrors (x >>= f) (y >>= g) := by
  intro till
  rw [outcome_bind, outcome_bind, hx till]
  rcases outcome y till.world with ⟨fault | a, world⟩
  · rfl
  · exact hf a _

theorem Mirrors.adapt {ε' : Type} {x : ExceptT ε (StateM (Till σ)) α}
    {y : ExceptT ε (StateM σ) α} (h : Mirrors x y) (f : ε → ε') :
    Mirrors (x.adapt f) (y.adapt f) := by
  intro till
  rw [outcome_adapt, outcome_adapt, h till]

/-- The machine of a process, as a part of the world of a sender. -/
def host (moment : Moment) (start : String) : Host (StateM (Till Disk)) where
  toFiles := Disk.files start fun f => inside (modifyGet f)
  now := pure moment.now
  millis := pure moment.millis
  freshSecret := pure moment.secret
  freshNonce := pure moment.nonce

section Machine
variable (moment : Moment) (start : String) (store : Store)

theorem isPresent_host (path : String) : (host moment start).isPresent path =
    inside ((moment.host start).isPresent path) := by
  simp only [host, Moment.host, Disk.files]

theorem readText_host (path : String) : (host moment start).readText path =
    inside ((moment.host start).readText path) := by
  simp only [host, Moment.host, Disk.files]

theorem mirrors_read :
    Mirrors (store.read (host moment start)) (store.read (moment.host start)) := by
  simp only [Store.read, isPresent_host, readText_host]
  refine (mirrors_lift _).bind fun present => ?_
  cases present with
  | false => exact mirrors_pure _
  | true =>
      refine (mirrors_lift _).bind fun text => ?_
      exact (mirrors_known _).bind fun text => mirrors_known _

theorem mirrors_loadWallet : Mirrors (Signing.loadWallet (host moment start) store)
    (Signing.loadWallet (moment.host start) store) := by
  have hload : Mirrors (store.load (host moment start)) (store.load (moment.host start)) :=
    (mirrors_read moment start store).bind fun image => mirrors_pure image.wallet
  refine (hload.adapt Fault.store).bind fun wallet => ?_
  cases wallet with
  | none => exact mirrors_known (.error Fault.noWallet)
  | some w => exact mirrors_pure w

theorem mirrors_sign (t : Transfer) : Mirrors (Signing.sign (host moment start) store t)
    (Signing.sign (moment.host start) store t) := by
  have hcheck : Mirrors (σ := Disk) (discard (Signing.checkAmount t.amount))
      (discard (Signing.checkAmount t.amount)) :=
    (mirrors_known _).bind fun _ => mirrors_pure ()
  refine hcheck.bind fun _ => (mirrors_loadWallet moment start store).bind fun w => ?_
  exact mirrors_known (Signing.signWith w t)

theorem mirrors_signTransfer (t : Transfer) :
    Mirrors (Signing.signTransfer (host moment start) store t)
      (Signing.signTransfer (moment.host start) store t) :=
  (mirrors_sign moment start store t).bind fun s => mirrors_pure (t.signed s)

end Machine

end Till

/-! ## A form that is in order -/

/-- The transfer that is made at a moment. -/
def transferAt (moment : Moment) (sender recipient : String) (amount : Binary64) : Transfer :=
  { sender, recipient, amount, timestamp := moment.millis, nonce := moment.nonce }

/-- The transfer from a wallet that is made and signed at a moment. -/
def recordAt (moment : Moment) (w : Wallet) (recipient : String) (amount : Binary64) :
    SignedTransfer :=
  (transferAt moment w.address recipient amount).signed
    (Keyring.signature w.secret (transferAt moment w.address recipient amount).toJson)

/-- A form that names a recipient and an amount. -/
structure SendForm.Names (form : SendForm) (recipient : String) (amount : Binary64) : Prop where
  trimmed : Text.trim form.recipient = recipient
  named : recipient ≠ ""
  read : Transfer.readAmount form.amount = .ok amount

theorem SendForm.check_eq (form : SendForm) : form.check =
    if (Text.trim form.recipient).isEmpty then .error .missingRecipient
    else ((Transfer.readAmount form.amount).mapError Fault.invalidAmount).map
      (Text.trim form.recipient, ·) := by
  rw [check]
  split
  next => rfl
  next => cases Transfer.readAmount form.amount <;> rfl

theorem SendForm.check_eq_ok_iff {form : SendForm} {recipient : String} {amount : Binary64} :
    form.check = .ok (recipient, amount) ↔ form.Names recipient amount := by
  rw [check_eq]
  split
  next hempty =>
    refine ⟨by rintro ⟨⟩, fun h => absurd (String.isEmpty_iff.mp hempty) ?_⟩
    rw [h.trimmed]
    exact h.named
  next hnamed =>
    cases hread : Transfer.readAmount form.amount with
    | error fault => exact ⟨by rintro ⟨⟩, fun h => nomatch hread.symm.trans h.read⟩
    | ok read =>
        constructor
        · rintro ⟨⟩
          exact ⟨rfl, mt String.isEmpty_iff.mpr hnamed, hread⟩
        · intro h
          cases hread.symm.trans h.read
          rw [← h.trimmed]
          rfl

/-- A form that cannot be sent is refused for what is typed. -/
theorem SendForm.fault_of_check {form : SendForm} {fault : Fault} (h : form.check = .error fault) :
    ∀ refusal, fault ≠ .submission refusal := by
  rintro refusal rfl
  rw [check_eq] at h
  split at h
  next => cases h
  next =>
    cases hread : Transfer.readAmount form.amount with
    | error cause =>
        rw [hread] at h
        cases h
    | ok amount =>
        rw [hread] at h
        cases h

/-- A record that the stored wallet makes of a form. -/
structure IsRecord (disk : Disk) (place : Disk.Path) (form : SendForm) (record : SignedTransfer) :
    Prop where
  recipient : record.recipient = Text.trim form.recipient
  named : record.recipient ≠ ""
  amount : Transfer.readAmount form.amount = .ok record.amount
  wallet : ∃ w, Store.storedWallet disk place = some w ∧ record.sender = w.address ∧
    record.verifies w.secret = true

theorem isRecord_recordAt (moment : Moment) {disk : Disk} {place : Disk.Path} {form : SendForm}
    {recipient : String} {amount : Binary64} {w : Wallet} (hnames : form.Names recipient amount)
    (hwallet : Store.storedWallet disk place = some w) :
    IsRecord disk place form (recordAt moment w recipient amount) where
  recipient := hnames.trimmed.symm
  named := hnames.named
  amount := hnames.read
  wallet := ⟨w, hwallet, rfl, SignedTransfer.verifies_signed w.secret _⟩

section Desk
variable (moment : Moment) (start : String) (store : Store)
  (answer : SignedTransfer → Except Ledger.Fault Ledger.Receipt)
  (others : Ledger (StateM (Till Disk))) (triggered : Bool)

/-- The desk of a process. It asks for a refresh if it has a trigger. -/
def desk : SendDesk (StateM (Till Disk)) where
  host := Till.host moment start
  store := store
  ledger := Till.ledger answer others
  refresh := if triggered then modify fun till => { till with refreshes := till.refreshes + 1 }
    else pure ()

variable {till : Till Disk} {form : SendForm}

theorem outcome_check {checked : Except Fault (String × Binary64)} (h : form.check = checked)
    (till : Till Disk) :
    outcome (liftM form.check : Action (StateM (Till Disk)) _) till = (checked, till) := by
  rw [h, outcome_lift_except]

theorem handIn_of_names (till : Till Disk) {recipient : String} {amount : Binary64} {w : Wallet}
    (hnames : form.Names recipient amount)
    (hwallet : Store.storedWallet till.world (Store.placeFrom start store) = some w) :
    outcome ((desk moment start store answer others triggered).handIn form) till =
      ((answer (recordAt moment w recipient amount)).mapError .submission,
        { till with submitted := till.submitted ++ [recordAt moment w recipient amount] }) := by
  obtain ⟨hfinite, hpositive⟩ := Transfer.isAmount_of_readAmount hnames.read
  have hcheck := outcome_check (SendForm.check_eq_ok_iff.mpr hnames) till
  have hload := Till.mirrors_loadWallet moment start store till
  rw [Signing.outcome_loadWallet moment hwallet] at hload
  obtain ⟨result, hsign, hresult⟩ := Signing.signTransfer_spec moment hwallet
    (transferAt moment w.address recipient amount)
  cases (hresult (recordAt moment w recipient amount)).mpr ⟨hfinite, hpositive, rfl, rfl⟩
  have hsigned := Till.mirrors_signTransfer moment start store
    (transferAt moment w.address recipient amount) till
  rw [hsign] at hsigned
  have haddress : outcome (desk moment start store answer others triggered).address till =
      (.ok w.address, till) := outcome_bind_of_ok hload
  rw [SendDesk.handIn, outcome_bind_of_ok hcheck]
  refine (outcome_bind_of_ok haddress).trans ?_
  refine (outcome_bind_of_ok hsigned).trans ?_
  refine (outcome_bind_of_ok (Till.outcome_submit _ _ _ _)).trans ?_
  cases answer (recordAt moment w recipient amount) <;> rfl

theorem handIn_of_fault {fault : Fault} (h : form.check = .error fault) (till : Till Disk) :
    outcome ((desk moment start store answer others triggered).handIn form) till =
      (.error fault, till) :=
  outcome_bind_of_error (outcome_check h till)

/-- A form that is not in order, or for which there is no wallet, is not handed in. -/
theorem handIn_of_not
    (h : ¬∃ recipient amount w, form.Names recipient amount ∧
      Store.storedWallet till.world (Store.placeFrom start store) = some w) :
    ∃ fault, outcome ((desk moment start store answer others triggered).handIn form) till =
        (.error fault, till) ∧ ∀ refusal, fault ≠ .submission refusal := by
  cases hcheck : form.check with
  | error fault =>
      exact ⟨fault, handIn_of_fault moment start store answer others triggered hcheck till,
        SendForm.fault_of_check hcheck⟩
  | ok typed =>
      obtain ⟨recipient, amount⟩ := typed
      have hnames := SendForm.check_eq_ok_iff.mp hcheck
      obtain ⟨found, hload, hfound⟩ := Signing.loadWallet_spec moment start store till.world
      have hloaded := Till.mirrors_loadWallet moment start store till
      rw [hload] at hloaded
      cases found with
      | ok w => exact absurd ⟨recipient, amount, w, hnames, hfound.symm⟩ h
      | error fault =>
          have haddress : outcome (desk moment start store answer others triggered).address till =
              (.error fault, till) := outcome_bind_of_error hloaded
          refine ⟨fault, ?_, ?_⟩
          · rw [SendDesk.handIn, outcome_bind_of_ok (outcome_check hcheck till)]
            exact outcome_bind_of_error haddress
          · rcases Signing.fault_of_loadWallet (congrArg Prod.fst hloaded) with ⟨cause, rfl⟩ | rfl
            · exact nofun
            · exact nofun

theorem submit_of_ok {receipt : Ledger.Receipt} {later : Till Disk}
    (h : outcome ((desk moment start store answer others triggered).handIn form) till =
      (.ok receipt, later)) :
    ((desk moment start store answer others triggered).submit form).run till =
      ((.ok receipt, .blank),
        { later with refreshes := later.refreshes + if triggered then 1 else 0 }) := by
  change ((desk moment start store answer others triggered).handIn form).run.run till = _ at h
  rw [SendDesk.submit, run_bind_of_run h]
  cases triggered <;> rfl

theorem submit_of_error {fault : Fault} {later : Till Disk}
    (h : outcome ((desk moment start store answer others triggered).handIn form) till =
      (.error fault, later)) :
    ((desk moment start store answer others triggered).submit form).run till =
      ((.error fault, form), later) := by
  change ((desk moment start store answer others triggered).handIn form).run.run till = _ at h
  rw [SendDesk.submit, run_bind_of_run h]
  rfl

/-- The answer of the desk is that of handing in, and what is handed in stays so. -/
theorem submit_of_handIn {result : Except Fault Ledger.Receipt} {later : Till Disk}
    (h : outcome ((desk moment start store answer others triggered).handIn form) till =
      (result, later)) :
    ∃ left refreshes, ((desk moment start store answer others triggered).submit form).run till =
      ((result, left), { later with refreshes }) := by
  cases result with
  | ok receipt => exact ⟨_, _, submit_of_ok moment start store answer others triggered h⟩
  | error fault =>
      exact ⟨_, later.refreshes, submit_of_error moment start store answer others triggered h⟩

/-- A form is emptied exactly if the ledger has taken its transfer. Either the answer is a receipt:
then one record was handed in, which the ledger has answered with that receipt, the form is empty, and
whoever waits for a refresh was told once. Or the answer is a fault: then the form is as it was typed,
no refresh was asked for, and no record was handed in, or one that the ledger has refused, which the
fault tells. A record is one of the stored wallet for what is typed, and it is handed in whenever there
can be one. -/
theorem form_cleared_iff_accepted (till : Till Disk) (form : SendForm) :
    ∃ result left later,
      ((desk moment start store answer others triggered).submit form).run till =
        ((result, left), later) ∧
      later.world = till.world ∧
      (∀ receipt, result = .ok receipt →
        left = .blank ∧ later.refreshes = till.refreshes + (if triggered then 1 else 0) ∧
        ∃ record, IsRecord till.world (Store.placeFrom start store) form record ∧
          later.submitted = till.submitted ++ [record] ∧ answer record = .ok receipt) ∧
      (∀ fault, result = .error fault →
        left = form ∧ later.refreshes = till.refreshes ∧
        ((later.submitted = till.submitted ∧ ∀ refusal, fault ≠ .submission refusal) ∨
          ∃ record refusal, IsRecord till.world (Store.placeFrom start store) form record ∧
            later.submitted = till.submitted ++ [record] ∧ answer record = .error refusal ∧
            fault = .submission refusal)) ∧
      (later.submitted ≠ till.submitted ↔ ∃ recipient amount w, form.Names recipient amount ∧
        Store.storedWallet till.world (Store.placeFrom start store) = some w) := by
  by_cases horder : ∃ recipient amount w, form.Names recipient amount ∧
      Store.storedWallet till.world (Store.placeFrom start store) = some w
  · have hcalled (record : SignedTransfer) : till.submitted ++ [record] ≠ till.submitted := by simp
    obtain ⟨recipient, amount, w, hnames, hwallet⟩ := horder
    have hrun := handIn_of_names moment start store answer others triggered till hnames hwallet
    have hrecord := isRecord_recordAt moment hnames hwallet
    generalize recordAt moment w recipient amount = record at hrun hrecord
    cases hanswer : answer record with
    | ok receipt =>
        rw [hanswer] at hrun
        refine ⟨_, _, _, submit_of_ok moment start store answer others triggered hrun, rfl, ?_,
          nofun, iff_of_true (hcalled record) ⟨recipient, amount, w, hnames, hwallet⟩⟩
        rintro receipt ⟨⟩
        exact ⟨rfl, rfl, record, hrecord, rfl, hanswer⟩
    | error refusal =>
        rw [hanswer] at hrun
        refine ⟨_, _, _, submit_of_error moment start store answer others triggered hrun, rfl,
          nofun, ?_, iff_of_true (hcalled record) ⟨recipient, amount, w, hnames, hwallet⟩⟩
        rintro fault ⟨⟩
        exact ⟨rfl, rfl, .inr ⟨record, refusal, hrecord, rfl, hanswer, rfl⟩⟩
  · obtain ⟨fault, hrun, hfault⟩ := handIn_of_not moment start store answer others triggered horder
    refine ⟨_, _, _, submit_of_error moment start store answer others triggered hrun, rfl, nofun, ?_,
      iff_of_false (not_not_intro rfl) horder⟩
    rintro fault ⟨⟩
    exact ⟨rfl, rfl, .inl ⟨rfl, hfault⟩⟩

end Desk

end Surface
end WalletEngine
