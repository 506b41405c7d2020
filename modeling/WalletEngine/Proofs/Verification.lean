import WalletEngine.Proofs.Bytes.Hex
import WalletEngine.Proofs.Relay.Signatures

/-! # What is verified

A text verifies for a message exactly if it is the signature of that message, with letters of either
case. So what the stored wallet has signed verifies for as long as its secret is stored, and of any
other record it is told that it does not.
-/

namespace WalletEngine

open Steps

/-- The texts that verify are the signature in letters of either case. -/
theorem Keyring.verifies_iff {secret : Keyring.Secret} {message : Json} {text : String} :
    Keyring.verifies secret message text = true ↔
      text.toLower = Keyring.signature secret message := by
  rw [Keyring.signature, ← Hex.decode_eq_ok_iff, Keyring.verifies]
  cases Hex.decode text <;> simp

/-- A signature is in lowercase. -/
theorem Keyring.toLower_signature (secret : Keyring.Secret) (message : Json) :
    (Keyring.signature secret message).toLower = Keyring.signature secret message :=
  Hex.decode_eq_ok_iff.mp (Hex.decode_encode _)

theorem SignedTransfer.verifies_signed (secret : Keyring.Secret) (t : Transfer) :
    (t.signed (Keyring.signature secret t.toJson)).verifies secret = true :=
  Keyring.verifies_iff.mpr (Keyring.toLower_signature secret t.toJson)

namespace Signing
variable {moment : Moment} {start : String} {store : Store} {disk : Disk} {w : Wallet}

/-- A stored wallet is loaded. -/
theorem outcome_loadWallet (moment : Moment)
    (hwallet : Store.storedWallet disk (Store.placeFrom start store) = some w) :
    outcome (loadWallet (moment.host start) store) disk = (.ok w, disk) := by
  obtain ⟨found, hload, hfound⟩ := loadWallet_spec moment start store disk
  rw [hwallet] at hfound
  cases found with
  | error fault => cases hfound
  | ok w' =>
      cases hfound
      exact hload

/-- Where there is a wallet, its secret decides about every record. -/
theorem outcome_verify (moment : Moment)
    (hwallet : Store.storedWallet disk (Store.placeFrom start store) = some w)
    (r : SignedTransfer) :
    outcome (verify (moment.host start) store r) disk = (.ok (r.verifies w.secret), disk) := by
  rw [verify, outcome_bind_of_ok (outcome_loadWallet moment hwallet)]
  rfl

/-- A transfer is signed where its amount is allowed and its sender is the stored wallet, and the
record has the signature of that wallet. -/
theorem signTransfer_spec (moment : Moment)
    (hwallet : Store.storedWallet disk (Store.placeFrom start store) = some w) (t : Transfer) :
    ∃ result, outcome (signTransfer (moment.host start) store t) disk = (result, disk) ∧
      ∀ r, result = .ok r ↔ t.amount.isFinite = true ∧ t.amount.isPositive = true ∧
        w.address = t.sender ∧ r = t.signed (Keyring.signature w.secret t.toJson) := by
  obtain ⟨result, hsign, hresult⟩ := sign_spec moment start store disk t
  refine ⟨result.map t.signed, ?_, fun r => ?_⟩
  · rw [signTransfer, bind_pure_comp, outcome_map, hsign]
  · have hmade : result.map t.signed = .ok r ↔ ∃ s, result = .ok s ∧ t.signed s = r := by
      cases result <;> simp [Except.map]
    rw [hmade]
    constructor
    · rintro ⟨s, hs, rfl⟩
      obtain ⟨hfinite, hpositive, w', hw', hsender, rfl⟩ := (hresult s).mp hs
      cases hw'.symm.trans hwallet
      exact ⟨hfinite, hpositive, hsender, rfl⟩
    · rintro ⟨hfinite, hpositive, hsender, rfl⟩
      exact ⟨_, (hresult _).mpr ⟨hfinite, hpositive, w, hwallet, hsender, rfl⟩, rfl⟩

/-- Signing and verifying agree, for all secrets, messages and texts: what verifies is the signature,
with letters of either case. Where there is a wallet, a transfer is signed exactly if its amount is
allowed and the wallet is its sender; the record then verifies, now and for as long as the secret is
stored. Every record is told by what is computed anew of its own body. -/
theorem signing_and_verification_agree (start : String) (store : Store) :
    (∀ (secret : Keyring.Secret) (message : Json) (text : String),
      Keyring.verifies secret message text = true ↔
        text.toLower = Keyring.signature secret message) ∧
    ∀ (disk : Disk) (w : Wallet),
      Store.storedWallet disk (Store.placeFrom start store) = some w →
      (∀ (moment : Moment) (t : Transfer), ∃ result,
        outcome (signTransfer (moment.host start) store t) disk = (result, disk) ∧
        (result.isOk = true ↔ t.amount.isFinite = true ∧ t.amount.isPositive = true ∧
          t.sender = w.address) ∧
        ∀ r, result = .ok r → r.unsigned = t ∧
          ∀ (later : Moment) (diskThen : Disk) (walletThen : Wallet),
            Store.storedWallet diskThen (Store.placeFrom start store) = some walletThen →
            walletThen.secret = w.secret →
            outcome (verify (later.host start) store r) diskThen = (.ok true, diskThen)) ∧
      ∀ (moment : Moment) (r : SignedTransfer),
        outcome (verify (moment.host start) store r) disk =
          (.ok (decide (r.signature.toLower = Keyring.signature w.secret r.unsigned.toJson)),
            disk) := by
  refine ⟨fun _ _ _ => Keyring.verifies_iff, fun disk w hwallet =>
    ⟨fun moment t => ?_, fun moment r => ?_⟩⟩
  · obtain ⟨result, hsign, hresult⟩ := signTransfer_spec moment hwallet t
    refine ⟨result, hsign, ?_, fun r hr => ?_⟩
    · cases result with
      | error fault =>
          refine ⟨by rintro ⟨⟩, fun ⟨hfinite, hpositive, hsender⟩ => ?_⟩
          cases (hresult _).mpr ⟨hfinite, hpositive, hsender.symm, rfl⟩
      | ok r =>
          obtain ⟨hfinite, hpositive, hsender, -⟩ := (hresult r).mp rfl
          exact iff_of_true rfl ⟨hfinite, hpositive, hsender.symm⟩
    · obtain ⟨-, -, -, rfl⟩ := (hresult r).mp hr
      refine ⟨rfl, fun later diskThen walletThen hthen hsecret => ?_⟩
      rw [outcome_verify later hthen, hsecret, SignedTransfer.verifies_signed]
  · rw [outcome_verify moment hwallet, SignedTransfer.verifies]
    congr 2
    rw [Bool.eq_iff_iff, decide_eq_true_iff, Keyring.verifies_iff]

/-- The sample wallet signs a transfer. The record verifies, and without its signature it does not. -/
theorem signing_and_verification_agree_sample :
    Store.storedWallet Relay.walletDisk (Store.placeFrom "/" ⟨"data"⟩) =
      some (Store.sampleWallet (.zero false)) ∧
    ∀ moment : Moment, ∃ r,
      outcome (signTransfer (moment.host "/") ⟨"data"⟩ Relay.sampleTransfer) Relay.walletDisk =
        (.ok r, Relay.walletDisk) ∧
      outcome (verify (moment.host "/") ⟨"data"⟩ r) Relay.walletDisk =
        (.ok true, Relay.walletDisk) ∧
      outcome (verify (moment.host "/") ⟨"data"⟩ { r with signature := "" }) Relay.walletDisk =
        (.ok false, Relay.walletDisk) := by
  have hwallet := Relay.storedWallet_sampleStore
  refine ⟨hwallet, fun moment => ?_⟩
  obtain ⟨-, hstored⟩ := signing_and_verification_agree "/" ⟨"data"⟩
  obtain ⟨hsigns, hverifies⟩ := hstored _ _ hwallet
  obtain ⟨result, hsign, hok, hthen⟩ := hsigns moment Relay.sampleTransfer
  cases result with
  | error fault => cases hok.mpr ⟨rfl, rfl, rfl⟩
  | ok r =>
      refine ⟨r, hsign, (hthen r rfl).2 moment _ _ hwallet rfl, ?_⟩
      rw [hverifies, decide_eq_false]
      intro hempty
      have hlength := congrArg (fun s => s.toList.length) hempty
      simp [Keyring.signature, Hex.toList_encode, Hex.length_nibbles, Keyring.authenticate,
        Hmac.length_code, Hex.toList_toLower] at hlength

end Signing
end WalletEngine
