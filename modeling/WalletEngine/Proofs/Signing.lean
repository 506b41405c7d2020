import WalletEngine.Signing
import WalletEngine.Proofs.Store.Visits

/-! # What is signed

A transfer is signed exactly if its amount is allowed and the stored wallet is that of its sender. To
sign reads what is stored and changes nothing.
-/

namespace WalletEngine

open Steps

namespace Steps

theorem outcome_adapt {σ ε ε' α : Type} (f : ε → ε') (x : ExceptT ε (StateM σ) α) (s : σ) :
    outcome (x.adapt f) s = ((outcome x s).1.mapError f, (outcome x s).2) := rfl

end Steps

namespace Transfer

/-- The numbers that are amounts. -/
theorem checkAmount_eq_ok_iff {x y : Binary64} :
    checkAmount x = .ok y ↔ y = x ∧ x.isFinite = true ∧ x.isPositive = true := by
  rw [checkAmount]
  cases x.isFinite <;> cases x.isPositive <;> simp [eq_comm]

end Transfer

/-- The stored wallet, if there is one that can be read. -/
def Store.storedWallet (disk : Disk) (place : Disk.Path) : Option Wallet :=
  (Store.stored disk place).bind (·.wallet)

namespace Signing

theorem outcome_checkAmount {σ : Type} (amount : Binary64) (st : σ) :
    outcome (checkAmount amount : Action (StateM σ) Binary64) st =
      ((Transfer.checkAmount amount).mapError Fault.invalidAmount, st) :=
  outcome_lift_except _ st

theorem outcome_discard_checkAmount {σ : Type} (amount : Binary64) (st : σ) :
    outcome (discard (checkAmount amount : Action (StateM σ) Binary64)) st =
      (((Transfer.checkAmount amount).mapError Fault.invalidAmount).map fun _ => (), st) := by
  change outcome ((fun _ => ()) <$> (checkAmount amount : Action (StateM σ) Binary64)) st = _
  rw [outcome_map, outcome_checkAmount]

variable (moment : Moment) (start : String) (store : Store) (disk : Disk)

theorem loadWallet_spec : ∃ found,
    outcome (loadWallet (moment.host start) store) disk = (found, disk) ∧
      found.toOption = Store.storedWallet disk (Store.placeFrom start store) := by
  obtain ⟨found, hread, hfound, -⟩ := Store.read_spec moment start store disk
  have hload : outcome (Action.ofStore (store.load (moment.host start))) disk =
      ((found.map (·.wallet)).mapError Fault.store, disk) := by
    rw [Action.ofStore, outcome_adapt, Store.load, bind_pure_comp, outcome_map, hread]
  rw [Store.storedWallet, ← hfound, loadWallet, outcome_bind, hload]
  cases found with
  | error fault => exact ⟨_, rfl, rfl⟩
  | ok i =>
      obtain ⟨version, wallet, health⟩ := i
      cases wallet with
      | none => exact ⟨.error .noWallet, rfl, rfl⟩
      | some w => exact ⟨.ok w, rfl, rfl⟩

theorem signWith_eq_ok_iff {w : Wallet} {t : Transfer} {s : String} :
    signWith w t = .ok s ↔ w.address = t.sender ∧ s = Keyring.signature w.secret t.toJson := by
  rw [signWith]
  by_cases hsender : t.sender = w.address
  · rw [if_pos hsender]
    simp [hsender, eq_comm]
  · rw [if_neg hsender]
    simp [Ne.symm hsender]

/-- A transfer is signed exactly by the stored wallet of its sender, for an amount above zero. -/
theorem sign_spec (t : Transfer) : ∃ result,
    outcome (sign (moment.host start) store t) disk = (result, disk) ∧
      ∀ s, result = .ok s ↔ t.amount.isFinite = true ∧ t.amount.isPositive = true ∧
        ∃ w, Store.storedWallet disk (Store.placeFrom start store) = some w ∧
          w.address = t.sender ∧ s = Keyring.signature w.secret t.toJson := by
  obtain ⟨found, hload, hfound⟩ := loadWallet_spec moment start store disk
  rw [sign, outcome_bind, outcome_discard_checkAmount]
  -- The amount is checked before anything is read.
  cases hamount : Transfer.checkAmount t.amount with
  | error fault =>
      refine ⟨.error (.invalidAmount fault), rfl, fun s => ⟨by rintro ⟨⟩, fun h => ?_⟩⟩
      have hok := Transfer.checkAmount_eq_ok_iff.mpr ⟨rfl, h.1, h.2.1⟩
      cases hamount.symm.trans hok
  | ok amount =>
      obtain ⟨rfl, hfinite, hpositive⟩ := Transfer.checkAmount_eq_ok_iff.mp hamount
      change ∃ result, outcome (loadWallet (moment.host start) store >>= fun wallet =>
        liftM (signWith wallet t)) disk = (result, disk) ∧ _
      rw [← hfound]
      cases found with
      | error fault =>
          refine ⟨.error fault, outcome_bind_of_error hload, fun s => ⟨by rintro ⟨⟩, ?_⟩⟩
          rintro ⟨-, -, w, ⟨⟩, -⟩
      | ok w =>
          refine ⟨signWith w t, ?_, fun s => ?_⟩
          · rw [outcome_bind_of_ok hload, outcome_lift_except]
          · rw [signWith_eq_ok_iff]
            constructor
            · rintro ⟨haddress, hs⟩
              exact ⟨hfinite, hpositive, w, rfl, haddress, hs⟩
            · rintro ⟨-, -, w', ⟨⟩, haddress, hs⟩
              exact ⟨haddress, hs⟩

end Signing
end WalletEngine
