import WalletEngine.Proofs.Bytes.Hex
import WalletEngine.Proofs.Json.Members
import WalletEngine.Proofs.Store.Readability

/-! # Secrets and their digits

A secret is read exactly from its sixty-four digits, in either case and with blanks around them. It is
read back from what is written of it, alone or as part of a stored image, so a wallet keeps its secret
through any number of visits to its store.
-/

namespace WalletEngine

open Steps

namespace Keyring.Secret

open Json Decoder

/-! ## Digits -/

/-- A text of sixty-four digits. -/
def IsWritten (s : String) : Prop := s.length = 64 ∧ ∀ c ∈ s.toList, Hex.IsDigit c

theorem ofBytes_eq_ok_iff {bytes : Bytes} {secret : Secret} :
    ofBytes bytes = .ok secret ↔ bytes = secret.bytes := by
  rw [ofBytes]
  split
  next hlength =>
    constructor
    · rintro ⟨⟩
      rfl
    · rintro rfl
      rfl
  next hlength =>
    refine iff_of_false (by simp) ?_
    rintro rfl
    exact hlength secret.length_bytes

theorem read_eq_ok_iff_decode {s : String} {secret : Secret} :
    read s = .ok secret ↔ Hex.decode (Text.trim s) = .ok secret.bytes := by
  rw [read]
  cases Hex.decode (Text.trim s) with
  | error problem => simp
  | ok bytes =>
      simp only [Except.ok.injEq]
      exact ofBytes_eq_ok_iff

/-- What is read is written as the digits that were read, in lowercase. -/
theorem read_eq_ok_iff {s : String} {secret : Secret} :
    read s = .ok secret ↔ secret.toHex = (Text.trim s).toLower := by
  rw [read_eq_ok_iff_decode, Hex.decode_eq_ok_iff, toHex]
  exact eq_comm

theorem exists_read_iff {s : String} :
    (∃ secret, read s = .ok secret) ↔ IsWritten (Text.trim s) := by
  have hdigits : (∃ bs, bs.length = secretLength ∧ Hex.decode (Text.trim s) = .ok bs) ↔
      IsWritten (Text.trim s) := Hex.exists_decode_iff
  apply Iff.trans _ hdigits
  constructor
  · intro ⟨secret, hread⟩
    exact ⟨secret.bytes, secret.length_bytes, read_eq_ok_iff_decode.mp hread⟩
  · intro ⟨bytes, hlength, hread⟩
    exact ⟨⟨bytes, hlength⟩, read_eq_ok_iff_decode.mpr hread⟩

/-! ## Written values -/

theorem decode_chars (secret : Secret) :
    decoder.decode ((stringChars secret.toHex).map .char) = .ok secret :=
  decode_of_takes (secret.takes _)

theorem decode_compact (secret : Secret) :
    decoder.decode (Symbol.ofText secret.toJson.compact) = .ok secret := by
  rw [Symbol.ofText, compact, String.toList_ofList]
  exact secret.decode_chars

theorem decode_pretty (secret : Secret) :
    decoder.decode (Symbol.ofText secret.toJson.pretty) = .ok secret := by
  rw [Symbol.ofText, pretty, String.toList_ofList]
  exact secret.decode_chars

/-- A value is read as a secret exactly if it is a text that is. -/
theorem decodeTree_eq_ok_iff {j : Json} {secret : Secret} :
    decoder.decodeTree j = .ok secret ↔ ∃ s, j = .string s ∧ read s = .ok secret := by
  rw [Decoder.decodeTree_eq_ok_iff, decoder, refine, bind_eq_ok_iff]
  simp only [string_ofTree_iff]
  apply exists_congr
  intro s
  cases read s <;> simp [Except.mapError]

end Keyring.Secret

namespace Store

/-! ## Visits -/

/-- Whoever can read what is stored finds the secret. -/
def Tells (disk : Disk) (place : Disk.Path) (secret : Keyring.Secret) : Prop :=
  ∀ i, stored disk place = some i → ∃ w, i.wallet = some w ∧ w.secret = secret

/-- How a stored file comes to be at a place where a secret was stored. -/
inductive Bears (before after : Disk) (place : Disk.Path) (secret : Keyring.Secret) : Prop
  | untouched (hsame : after.find (imageAt place) = before.find (imageAt place)) :
      Bears before after place secret
  /-- The file was written with the secret in it. -/
  | written {i : Image} {w : Wallet} (hw : i.wallet = some w) (hsecret : w.secret = secret)
      (htext : after.find (imageAt place) = .ok (.file (Bytes.ofText i.text))) :
      Bears before after place secret

theorem Bears.trans {first second third : Disk} {place : Disk.Path} {secret : Keyring.Secret}
    (h : Bears first second place secret) (h' : Bears second third place secret) :
    Bears first third place secret := by
  cases h' with
  | written hw hsecret htext => exact .written hw hsecret htext
  | untouched hsame =>
      cases h with
      | untouched hsame' => exact .untouched (hsame.trans hsame')
      | written hw hsecret htext => exact .written hw hsecret (hsame.trans htext)

/-- What can be read of a written image is this image, but for its balance. -/
theorem stored_of_text {disk : Disk} {place : Disk.Path} {i j : Image}
    (htext : disk.find (imageAt place) = .ok (.file (Bytes.ofText i.text)))
    (hstored : stored disk place = some j) : ∃ balance, j = i.withBalance balance := by
  by_cases hfinite : ∀ w ∈ i.wallet, w.balance.isFinite = true
  · obtain ⟨balance, hread⟩ := stored_of_finite htext hfinite
    rw [hstored] at hread
    exact ⟨balance, Option.some.inj hread⟩
  · push Not at hfinite
    obtain ⟨w, hw, hbalance⟩ := hfinite
    obtain ⟨fault, hfault⟩ := Image.parse_text_of_not_finite hw (Bool.not_eq_true _ ▸ hbalance)
    rw [stored_of_written htext, hfault] at hstored
    cases hstored

theorem tells_of_written {disk : Disk} {place : Disk.Path} {i : Image} {w : Wallet}
    (htext : disk.find (imageAt place) = .ok (.file (Bytes.ofText i.text)))
    (hw : i.wallet = some w) : Tells disk place w.secret := by
  intro j hj
  obtain ⟨balance, rfl⟩ := stored_of_text htext hj
  exact ⟨{ w with balance }, by rw [Image.withBalance, hw]; rfl, rfl⟩

theorem tells_run {disk : Disk} {secret : Keyring.Secret} (v : Visit)
    (h : Tells disk v.place secret) :
    Tells (v.run disk).2 v.place secret ∧ Bears disk (v.run disk).2 v.place secret := by
  have hhappens := run_happens v disk
  generalize v.run disk = out at hhappens ⊢
  have hstays {after : Disk}
      (hsame : after.find (imageAt v.place) = disk.find (imageAt v.place)) :
      Tells after v.place secret ∧ Bears disk after v.place secret := by
    refine ⟨?_, .untouched hsame⟩
    rw [Tells, stored_congr hsame]
    exact h
  cases hhappens with
  | hindered _ _ hsame => exact hstays hsame
  | refused _ _ hsame => exact hstays hsame
  | answered _ _ hsame => exact hstays hsame
  | changed hstored hchange hnext =>
      obtain ⟨w, hw, rfl⟩ := h _ hstored
      obtain ⟨w', hw', howner⟩ := hchange.has ⟨w, hw, .refl w⟩
      rw [← howner.secret]
      exact ⟨tells_of_written hnext hw', .written hw' rfl hnext⟩

theorem tells_after {disk : Disk} {place : Disk.Path} {secret : Keyring.Secret}
    {visits : List Visit} (hplace : ∀ v ∈ visits, v.place = place) (h : Tells disk place secret) :
    Tells (Visit.after disk visits) place secret ∧
      Bears disk (Visit.after disk visits) place secret := by
  induction visits generalizing disk with
  | nil => exact ⟨h, .untouched rfl⟩
  | cons v rest ih =>
      obtain ⟨rfl, hrest⟩ := List.forall_mem_cons.mp hplace
      obtain ⟨htells, hbears⟩ := tells_run v h
      obtain ⟨htells', hbears'⟩ := ih hrest htells
      exact ⟨htells', hbears.trans hbears'⟩

theorem Tells.load {disk : Disk} {start : String} {s : Store} {secret : Keyring.Secret}
    (h : Tells disk (placeFrom start s) secret) {moment : Moment} {found : Option Wallet}
    (hload : (outcome (s.load (moment.host start)) disk).1 = .ok found) :
    ∃ w, found = some w ∧ w.secret = secret := by
  cases hstored : stored disk (placeFrom start s) with
  | none =>
      obtain ⟨fault, hfault⟩ := outcome_load_of_unreadable moment hstored
      rw [hfault] at hload
      cases hload
  | some i =>
      rw [outcome_load moment hstored] at hload
      cases hload
      exact h i hstored

/-- A secret is read exactly from a text that is sixty-four digits without the blanks around it, and
is then written as these digits in lowercase. What is written of a secret, as text or as a value, is
read as this secret. However often a store is visited, and whatever balances are set meanwhile, its
file stays what it was or is written with the same secret, and no handle loads anything but a wallet
with this secret. -/
theorem secret_told_by_digits_and_kept :
    (∀ s : String, (∃ secret, Keyring.Secret.read s = .ok secret) ↔
      Keyring.Secret.IsWritten (Text.trim s)) ∧
    (∀ (s : String) (secret : Keyring.Secret),
      Keyring.Secret.read s = .ok secret ↔ secret.toHex = (Text.trim s).toLower) ∧
    (∀ secret : Keyring.Secret, Keyring.Secret.read secret.toHex = .ok secret ∧
      Keyring.Secret.decoder.decode (Symbol.ofText secret.toJson.compact) = .ok secret ∧
      Keyring.Secret.decoder.decode (Symbol.ofText secret.toJson.pretty) = .ok secret ∧
      Keyring.Secret.decoder.decodeTree secret.toJson = .ok secret) ∧
    ∀ (disk : Disk) (place : Disk.Path) (visits : List Visit) (i : Image) (w : Wallet),
      (∀ v ∈ visits, v.place = place) → stored disk place = some i → i.wallet = some w →
      Bears disk (Visit.after disk visits) place w.secret ∧
      ∀ (moment : Moment) (start : String) (s : Store) (found : Option Wallet),
        placeFrom start s = place →
        (outcome (s.load (moment.host start)) (Visit.after disk visits)).1 = .ok found →
        ∃ w', found = some w' ∧ w'.secret = w.secret := by
  refine ⟨fun s => Keyring.Secret.exists_read_iff, fun s secret => Keyring.Secret.read_eq_ok_iff,
    fun secret => ?_, ?_⟩
  · have hread := secret.read_toHex
    exact ⟨hread, secret.decode_compact, secret.decode_pretty,
      Keyring.Secret.decodeTree_eq_ok_iff.mpr ⟨_, rfl, hread⟩⟩
  · intro disk place visits i w hplace hstored hw
    have htells : Tells disk place w.secret := by
      intro j hj
      cases hj.symm.trans hstored
      exact ⟨w, hw, rfl⟩
    obtain ⟨htells', hbears⟩ := tells_after hplace htells
    refine ⟨hbears, fun moment start s found hs hload => ?_⟩
    subst hs
    exact htells'.load hload

/-- Digits in both cases, between blanks. -/
def sampleDigits : List Char :=
  '\u2003' :: (List.replicate 16 ['0', 'a', 'B', 'F']).flatten ++ ['\n']

theorem isWritten_sampleDigits :
    Keyring.Secret.IsWritten (Text.trim (String.ofList sampleDigits)) := by
  rw [Keyring.Secret.IsWritten, Text.trim, String.length_ofList, String.toList_ofList,
    String.toList_ofList]
  have hdigits : (Text.strip Text.isBlank sampleDigits).all (fun c => decide (Hex.IsDigit c)) := by
    decide +kernel
  exact ⟨by decide +kernel, by simpa using hdigits⟩

/-- A balance that is not finite is set, after which no handle can load the wallet. The secret still
stands in the file. -/
theorem secret_kept_sample :
    (∃ secret, Keyring.Secret.read (String.ofList sampleDigits) = .ok secret) ∧
    (∀ v ∈ [sampleVisit (.setBalance none .nan), sampleVisit .create], v.place = ["data"]) ∧
    stored (sampleDisk (sampleImage (.zero false))) ["data"] = some (sampleImage (.zero false)) ∧
    (sampleImage (.zero false)).wallet = some (sampleWallet (.zero false)) ∧
    Bears (sampleDisk (sampleImage (.zero false)))
      (Visit.after (sampleDisk (sampleImage (.zero false)))
        [sampleVisit (.setBalance none .nan), sampleVisit .create]) ["data"] sampleSecret := by
  obtain ⟨hread, -, -, hkept⟩ := secret_told_by_digits_and_kept
  have hplace : ∀ v ∈ [sampleVisit (.setBalance none .nan), sampleVisit .create],
      v.place = ["data"] := by
    simp [place_sampleVisit]
  have hstored := stored_sampleDisk readsBack_zero
  refine ⟨(hread _).mpr isWritten_sampleDigits, hplace, hstored, rfl, ?_⟩
  exact (hkept _ _ _ _ _ hplace hstored rfl).1

end Store
end WalletEngine
