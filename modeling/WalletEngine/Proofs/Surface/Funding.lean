import WalletEngine.Proofs.Store.Balances
import WalletEngine.Proofs.Surface.Sending

/-! # Funds that are asked for

The desk asks the ledger for funds and stores the balance that the ledger tells. The funds are
credited once the ledger has answered with a receipt; what is stored afterwards can still fail, and
then the owner is told of a fault and no refresh is asked for, although the funds are there.
-/

namespace WalletEngine

open Steps

namespace Surface

/-! ## Updates of a balance in the world of a sender -/

namespace Till
variable {ε ε' α : Type} (moment : Moment) (start : String) (store : Store)

theorem writeText_host (path text : String) : (host moment start).writeText path text =
    inside ((moment.host start).writeText path text) := by
  simp only [host, Moment.host, Disk.files]

theorem rename_host (source target : String) : (host moment start).rename source target =
    inside ((moment.host start).rename source target) := by
  simp only [host, Moment.host, Disk.files]

theorem mirrors_write (i : Store.Image) :
    Mirrors (store.write (host moment start) i) (store.write (moment.host start) i) := by
  simp only [Store.write, writeText_host, rename_host]
  refine (mirrors_lift _).bind fun written => (mirrors_known _).bind fun _ => ?_
  exact (mirrors_lift _).bind fun renamed => mirrors_known _

theorem run_withLock_host (path : String) (action : StateM (Till Disk) α) (till : Till Disk) :
    ((host moment start).withLock path action).run till =
      match till.world.writeBytes (Disk.parts (joinPath start path)) (·.getD []) with
      | .ok locked => (.ok (action.run { till with world := locked }).1,
          (action.run { till with world := locked }).2)
      | .error fault => (.error fault, till) := by
  have hstep (f : Disk → Except FileFault Unit × Disk) : (inside (modifyGet f)).run till =
      ((f till.world).1, { till with world := (f till.world).2 }) := rfl
  simp only [host, Disk.files, StateT.run_bind, hstep]
  cases till.world.writeBytes (Disk.parts (joinPath start path)) (·.getD []) <;>
    simp only [Disk.settle] <;> rfl

/-- The lock is held in the world, whatever is done meanwhile. -/
theorem Mirrors.withLock {x : ExceptT ε (StateM (Till Disk)) α} {y : ExceptT ε (StateM Disk) α}
    (h : Mirrors x y) (path : String) :
    Mirrors (liftM ((host moment start).withLock path x.run) :
        ExceptT ε' (StateM (Till Disk)) (Except FileFault (Except ε α)))
      (liftM ((moment.host start).withLock path y.run)) := by
  intro till
  rw [outcome_lift, outcome_lift, run_withLock_host, Store.run_withLock]
  cases till.world.writeBytes (Disk.parts (joinPath start path)) (·.getD []) with
  | error fault => rfl
  | ok locked =>
      exact congrArg (fun held => (Except.ok (Except.ok held.1), held.2))
        (h { till with world := locked })

theorem mirrors_transact
    {change : Store.Image → ExceptT Store.Fault (StateM (Till Disk)) (α × Option Store.Image)}
    {change' : Store.Image → ExceptT Store.Fault (StateM Disk) (α × Option Store.Image)}
    (h : ∀ i, Mirrors (change i) (change' i)) :
    Mirrors (store.transact (host moment start) change)
      (store.transact (moment.host start) change') := by
  have hamend : Mirrors (store.amend (host moment start) change)
      (store.amend (moment.host start) change') := by
    refine (mirrors_read moment start store).bind fun i => (h i).bind fun (a, changed) => ?_
    cases changed with
    | none => exact mirrors_pure a
    | some next => exact (mirrors_write moment start store next).bind fun _ => mirrors_pure a
  refine (hamend.withLock moment start _).bind fun held => ?_
  cases held with
  | ok answer => exact mirrors_known answer
  | error fault => exact mirrors_known (.error (Store.Fault.lock store.lockPath fault))

theorem mirrors_setBalance (expected : Option UInt64) (balance : Binary64) :
    Mirrors (store.setBalance (host moment start) expected balance)
      (store.setBalance (moment.host start) expected balance) :=
  mirrors_transact moment start store fun _ => mirrors_known _

end Till

/-! ## A request for funds -/

/-- What is typed is an amount, and the stored wallet has the address. -/
structure AsksFor (disk : Disk) (place : Disk.Path) (amount : Binary64) (address : String) :
    Prop where
  finite : amount.isFinite = true
  positive : amount.isPositive = true
  wallet : ∃ w, Store.storedWallet disk place = some w ∧ w.address = address

section Desk
variable (moment : Moment) (start : String) (store : Store)
  (answer : SignedTransfer → Except Ledger.Fault Ledger.Receipt)
  (others : Ledger (StateM (Till Disk))) (triggered : Bool)

variable {till later : Till Disk} {amount : Binary64} {address : String}

/-- What the desk does with a receipt. -/
def credited (d : SendDesk (StateM (Till Disk))) (receipt : Ledger.FaucetReceipt) :
    Action (StateM (Till Disk)) Ledger.FaucetReceipt := do
  if let some balance := receipt.balance then
    discard <| Action.ofStore (d.store.setBalance d.host none balance)
  d.refresh
  return receipt

theorem requestFunds_of_asked
    (hasks : AsksFor till.world (Store.placeFrom start store) amount address) :
    outcome ((desk moment start store answer others triggered).requestFunds amount) till =
      match (others.faucet address amount).run till with
      | (.ok receipt, later) =>
        outcome (credited (desk moment start store answer others triggered) receipt) later
      | (.error refusal, later) => (.error (.submission refusal), later) := by
  obtain ⟨hfinite, hpositive, w, hwallet, rfl⟩ := hasks
  have hcheck : outcome (Signing.checkAmount amount : Action (StateM (Till Disk)) Binary64) till =
      (.ok amount, till) := by
    rw [Signing.outcome_checkAmount, Transfer.checkAmount_eq_ok_iff.mpr ⟨rfl, hfinite, hpositive⟩]
    rfl
  have hload := Till.mirrors_loadWallet moment start store till
  rw [Signing.outcome_loadWallet moment hwallet] at hload
  have haddress : outcome (desk moment start store answer others triggered).address till =
      (.ok w.address, till) := outcome_bind_of_ok hload
  rw [SendDesk.requestFunds, outcome_bind_of_ok hcheck, outcome_bind_of_ok haddress]
  rcases hcall : (others.faucet w.address amount).run till with ⟨refusal | receipt, later⟩
  · exact outcome_bind_of_ok (outcome_lift_of_run hcall)
  · exact outcome_bind_of_ok (outcome_lift_of_run hcall)

/-- What cannot be asked for is not asked for. -/
theorem requestFunds_of_not
    (h : ¬∃ address, AsksFor till.world (Store.placeFrom start store) amount address) :
    ∃ fault, outcome ((desk moment start store answer others triggered).requestFunds amount) till =
        (.error fault, till) ∧ ∀ refusal, fault ≠ .submission refusal := by
  have hcheck := Signing.outcome_checkAmount amount till
  rw [SendDesk.requestFunds]
  cases hamount : Transfer.checkAmount amount with
  | error fault =>
      rw [hamount] at hcheck
      exact ⟨.invalidAmount fault, outcome_bind_of_error hcheck, nofun⟩
  | ok checked =>
      obtain ⟨rfl, hfinite, hpositive⟩ := Transfer.checkAmount_eq_ok_iff.mp hamount
      rw [hamount] at hcheck
      rw [outcome_bind_of_ok hcheck]
      obtain ⟨found, hload, hfound⟩ := Signing.loadWallet_spec moment start store till.world
      have hloaded := Till.mirrors_loadWallet moment start store till
      rw [hload] at hloaded
      cases found with
      | ok w => exact absurd ⟨w.address, hfinite, hpositive, w, hfound.symm, rfl⟩ h
      | error fault =>
          have haddress : outcome (desk moment start store answer others triggered).address till =
              (.error fault, till) := outcome_bind_of_error hloaded
          refine ⟨fault, outcome_bind_of_error haddress, ?_⟩
          rcases Signing.fault_of_loadWallet (congrArg Prod.fst hloaded) with ⟨cause, rfl⟩ | rfl
          · exact nofun
          · exact nofun

theorem outcome_refresh (till : Till Disk) :
    outcome (liftM (desk moment start store answer others triggered).refresh :
        Action (StateM (Till Disk)) Unit) till =
      (.ok (), { till with refreshes := till.refreshes + if triggered then 1 else 0 }) := by
  cases triggered <;> rfl

/-- A balance that is told is stored where the store takes it. -/
theorem outcome_setBalance (balance : Binary64) (till : Till Disk) :
    ∃ (result : Except Store.Fault Unit) (disk : Disk),
      outcome (discard <| Action.ofStore
          (store.setBalance (Till.host moment start) none balance)) till =
        (result.mapError Fault.store, { till with world := disk }) ∧
      (result.isOk = true ↔
        Store.TakesBalance till.world (Store.placeFrom start store) balance) := by
  let update : Store.Visit := { start, store, moment, call := .setBalance none balance }
  have hok : (update.run till.world).1.isOk = true ↔
      Store.TakesBalance till.world (Store.placeFrom start store) balance :=
    Store.isOk_run_iff rfl
  rw [Store.run_setBalance rfl till.world] at hok
  have hstore := Till.mirrors_setBalance moment start store none balance till
  generalize outcome (store.setBalance (moment.host start) none balance) till.world = out
    at hok hstore
  obtain ⟨updated, disk⟩ := out
  refine ⟨updated.map fun _ => (), disk, ?_, Iff.trans ?_ hok⟩
  · change outcome ((fun _ => ()) <$> (store.setBalance (Till.host moment start) none balance).adapt
      Fault.store) till = _
    rw [outcome_map, outcome_adapt, hstore]
    cases updated <;> rfl
  · cases updated <;> rfl

theorem credited_of_kept {receipt : Ledger.FaucetReceipt}
    (hkept : ∀ balance ∈ receipt.balance,
      Store.TakesBalance later.world (Store.placeFrom start store) balance) :
    ∃ disk, outcome (credited (desk moment start store answer others triggered) receipt) later =
      (.ok receipt, { later with
        world := disk, refreshes := later.refreshes + if triggered then 1 else 0 }) := by
  have hrefresh := outcome_refresh moment start store answer others triggered
  rw [credited]
  cases hbalance : receipt.balance with
  | none => exact ⟨later.world, outcome_bind_of_ok (hrefresh later)⟩
  | some balance =>
      obtain ⟨result, disk, hstore, hresult⟩ := outcome_setBalance moment start store balance later
      cases result with
      | error cause => cases hresult.mpr (hkept balance hbalance)
      | ok done =>
          refine ⟨disk, (outcome_bind_of_ok hstore).trans ?_⟩
          exact outcome_bind_of_ok (hrefresh { later with world := disk })

theorem credited_of_lost {receipt : Ledger.FaucetReceipt} {balance : Binary64}
    (hbalance : receipt.balance = some balance)
    (hlost : ¬Store.TakesBalance later.world (Store.placeFrom start store) balance) :
    ∃ cause disk,
      outcome (credited (desk moment start store answer others triggered) receipt) later =
        (.error (.store cause), { later with world := disk }) := by
  obtain ⟨result, disk, hstore, hresult⟩ := outcome_setBalance moment start store balance later
  rw [credited, hbalance]
  cases result with
  | ok done => exact absurd (hresult.mp rfl) hlost
  | error cause => exact ⟨cause, disk, outcome_bind_of_error hstore⟩

/-- Funds that were credited are reported, and a refresh is asked for once, exactly if the store
takes the balance that the ledger tells, or the ledger tells none. Where the store does not take it,
the owner is told of a fault of the store and no refresh is asked for, although the ledger has
answered with a receipt. A refusal is told as such, and what cannot be asked for leaves everything
as it was. -/
theorem credit_reported_iff_kept (till : Till Disk) (amount : Binary64) :
    ∃ result last,
      outcome ((desk moment start store answer others triggered).requestFunds amount) till =
        (result, last) ∧
      ((¬∃ address, AsksFor till.world (Store.placeFrom start store) amount address) →
        last = till ∧ ∃ fault, result = .error fault ∧ ∀ refusal, fault ≠ .submission refusal) ∧
      ∀ address, AsksFor till.world (Store.placeFrom start store) amount address →
        (∀ refusal later, (others.faucet address amount).run till = (.error refusal, later) →
          last = later ∧ result = .error (.submission refusal)) ∧
        ∀ receipt later, (others.faucet address amount).run till = (.ok receipt, later) →
          last.submitted = later.submitted ∧
          ((∀ balance ∈ receipt.balance,
              Store.TakesBalance later.world (Store.placeFrom start store) balance) →
            result = .ok receipt ∧
              last.refreshes = later.refreshes + if triggered then 1 else 0) ∧
          (∀ balance ∈ receipt.balance,
            ¬Store.TakesBalance later.world (Store.placeFrom start store) balance →
              (∃ cause, result = .error (.store cause)) ∧ last.refreshes = later.refreshes) := by
  rcases hrun : outcome ((desk moment start store answer others triggered).requestFunds amount) till
    with ⟨result, last⟩
  refine ⟨result, last, rfl, fun hnot => ?_, fun address hasks => ?_⟩
  · obtain ⟨fault, hfailed, hfault⟩ :=
      requestFunds_of_not moment start store answer others triggered hnot
    cases hrun.symm.trans hfailed
    exact ⟨rfl, fault, rfl, hfault⟩
  · rw [requestFunds_of_asked moment start store answer others triggered hasks] at hrun
    refine ⟨fun refusal later hcall => ?_, fun receipt later hcall => ?_⟩
    · rw [hcall] at hrun
      cases hrun
      exact ⟨rfl, rfl⟩
    · rw [hcall] at hrun
      by_cases hkept : ∀ balance ∈ receipt.balance,
          Store.TakesBalance later.world (Store.placeFrom start store) balance
      · obtain ⟨disk, hcredited⟩ :=
          credited_of_kept moment start store answer others triggered hkept
        cases hrun.symm.trans hcredited
        exact ⟨rfl, fun _ => ⟨rfl, rfl⟩,
          fun balance hbalance hlost => absurd (hkept balance hbalance) hlost⟩
      · obtain ⟨balance, hbalance, hlost⟩ := by simpa only [not_forall] using hkept
        obtain ⟨cause, disk, hcredited⟩ :=
          credited_of_lost moment start store answer others triggered hbalance hlost
        cases hrun.symm.trans hcredited
        exact ⟨rfl, fun hall => absurd (hall balance hbalance) hlost,
          fun _ _ _ => ⟨⟨cause, rfl⟩, rfl⟩⟩

end Desk

/-- A ledger that credits what is asked for, tells a balance, and does nothing else. -/
def generous (balance : Binary64) : Ledger (StateM (Till Disk)) where
  health _ := pure (.error (.transport "down"))
  balance _ := pure (.error (.transport "down"))
  history _ := pure (.error (.transport "down"))
  submit _ := pure (.error (.transport "down"))
  faucet _ _ := pure (.ok ⟨"ok", some balance⟩)

/-- The desk that asks such a ledger for funds for the sample wallet. -/
def sampleDesk : SendDesk (StateM (Till Disk)) :=
  desk (Store.sampleVisit .load).moment "/" ⟨"data"⟩ (fun _ => .error (.transport "down"))
    (generous Store.ten) true

theorem asksFor_sample {disk : Disk}
    (hwallet : Store.storedWallet disk ["data"] = some (Store.sampleWallet (.zero false))) :
    AsksFor disk (Store.placeFrom "/" ⟨"data"⟩) Store.ten "a1" := by
  rw [show Store.placeFrom "/" ⟨"data"⟩ = ["data"] from Store.place_sampleVisit .load]
  exact ⟨rfl, rfl, _, hwallet, rfl⟩

/-- Ten are credited, reported and refreshed. -/
theorem credit_reported_sample :
    ∃ last, outcome (sampleDesk.requestFunds Store.ten) { world := Relay.walletDisk } =
      (.ok ⟨"ok", some Store.ten⟩, last) ∧ last.refreshes = 1 := by
  obtain ⟨result, last, hrun, -, hasked⟩ := credit_reported_iff_kept
    (Store.sampleVisit .load).moment "/" ⟨"data"⟩ (fun _ => .error (.transport "down"))
    (generous Store.ten) true { world := Relay.walletDisk } Store.ten
  obtain ⟨-, hcredited⟩ := hasked "a1" (asksFor_sample Relay.storedWallet_walletDisk)
  obtain ⟨-, hkept, -⟩ := hcredited ⟨"ok", some Store.ten⟩ { world := Relay.walletDisk } rfl
  have htakes : Store.TakesBalance Relay.walletDisk (Store.placeFrom "/" ⟨"data"⟩) Store.ten := by
    rw [show Store.placeFrom "/" ⟨"data"⟩ = ["data"] from Store.place_sampleVisit .load]
    have hready := Store.ready_sampleDisk (Store.sampleImage (.zero false))
    exact ⟨hready.lock, _, _, Store.stored_sampleDisk Store.readsBack_zero, rfl, .inr hready⟩
  obtain ⟨rfl, hrefreshes⟩ := hkept (by rintro balance ⟨⟩; exact htakes)
  exact ⟨last, hrun, hrefreshes⟩

/-- The disk of the sample wallet with a directory in the way of the lock. -/
def barredDisk : Disk := Relay.walletDisk.put (["data"] ++ ["wallet.lock"]) .directory

/-- Ten are credited, but the store cannot be locked: the owner is told of a fault, and no refresh
is asked for. -/
theorem credit_lost_behind_lock :
    (sampleDesk.ledger.faucet "a1" Store.ten).run { world := barredDisk } =
      (.ok ⟨"ok", some Store.ten⟩, { world := barredDisk }) ∧
    ∃ cause last, outcome (sampleDesk.requestFunds Store.ten) { world := barredDisk } =
      (.error (.store cause), last) ∧ last.refreshes = 0 := by
  have hplace : Store.placeFrom "/" ⟨"data"⟩ = ["data"] := Store.place_sampleVisit .load
  have hfind : barredDisk.find (["data"] ++ ["wallet.json"]) =
      Relay.walletDisk.find (["data"] ++ ["wallet.json"]) := by
    rw [barredDisk, Disk.find_put_other _ (by decide)]
  have hwallet : Store.storedWallet barredDisk ["data"] =
      some (Store.sampleWallet (.zero false)) := by
    rw [Store.storedWallet, Store.stored_congr hfind]
    exact Relay.storedWallet_walletDisk
  have hlost : ¬Store.TakesBalance barredDisk (Store.placeFrom "/" ⟨"data"⟩) Store.ten := by
    rw [hplace]
    intro h
    exact h.lock.notDirectory (Disk.get?_put_self _ _ (by simp))
  obtain ⟨cause, disk, hcredited⟩ :
      ∃ cause disk, outcome (credited sampleDesk ⟨"ok", some Store.ten⟩) { world := barredDisk } =
        (.error (.store cause), { world := disk }) := credited_of_lost _ _ _ _ _ _ rfl hlost
  refine ⟨rfl, cause, { world := disk }, ?_, rfl⟩
  exact (requestFunds_of_asked _ _ _ _ _ _ (asksFor_sample hwallet)).trans hcredited

end Surface
end WalletEngine
