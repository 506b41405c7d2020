import WalletEngine.Proofs.Store.Runs

/-! # What the version tells

The version counts what changes the wallet and nothing else. An update that is based on a version is
refused once the wallet was changed since, until the counter has come round. An update to an equal
balance is no change and goes unseen.
-/

namespace WalletEngine.Store

open Steps

/-- Whether a visit makes the wallet or changes its balance. -/
def Visit.changesWallet (v : Visit) (disk : Disk) : Bool :=
  (v.run disk).1.isOk && (stored disk v.place).any v.call.changesWallet

/-- How many visits made the wallet or changed its balance. -/
def changes (disk : Disk) : List Visit → Nat
  | [] => 0
  | v :: rest => (v.changesWallet disk).toNat + changes (v.run disk).2 rest

/-- What is written keeps its version when it is read. -/
theorem version_of_written {after : Disk} {place : Disk.Path} {next j : Image}
    (hnext : after.find (imageAt place) = .ok (.file (Bytes.ofText next.text)))
    (hj : stored after place = some j) : j.version = next.version := by
  rw [stored_of_written hnext] at hj
  by_cases hfinite : ∀ w ∈ next.wallet, w.balance.isFinite = true
  · obtain ⟨y, -, hparse⟩ := Image.parse_text hfinite
    rw [hparse] at hj
    cases hj
    rfl
  · obtain ⟨w, hw⟩ := not_forall.mp hfinite
    obtain ⟨hmem, hbalance⟩ := Classical.not_imp.mp hw
    obtain ⟨fault, hfault⟩ := Image.parse_text_of_not_finite hmem (Bool.not_eq_true _ ▸ hbalance)
    rw [hfault] at hj
    cases hj

/-- One visit moves the version on by one if it changes the wallet, and not at all otherwise. -/
theorem version_run (v : Visit) {disk : Disk} {i j : Image} (hi : stored disk v.place = some i)
    (hj : stored (v.run disk).2 v.place = some j) :
    j.version = i.version + UInt64.ofNat (v.changesWallet disk).toNat := by
  have hhappens := run_happens v disk
  rw [Visit.changesWallet, hi, Option.any_some]
  generalize v.run disk = out at hhappens hj ⊢
  cases hhappens with
  | hindered hfault hplace hsame =>
      cases hi.symm.trans ((stored_congr hsame).symm.trans hj)
      exact (UInt64.add_zero _).symm
  | refused hstored hrefusing hsame =>
      cases hi.symm.trans ((stored_congr hsame).symm.trans hj)
      exact (UInt64.add_zero _).symm
  | answered hstored hreading hsame =>
      cases hi.symm.trans hstored
      cases hi.symm.trans ((stored_congr hsame).symm.trans hj)
      rw [hreading.not_changesWallet]
      exact (UInt64.add_zero _).symm
  | changed hstored hchange hnext =>
      cases hi.symm.trans hstored
      rw [version_of_written hnext hj, hchange.version]
      cases v.call.changesWallet i <;> rfl

/-- The version counts the changes. -/
theorem version_after {disk : Disk} {place : Disk.Path} {visits : List Visit} {i j : Image}
    (hplace : ∀ v ∈ visits, v.place = place) (hi : stored disk place = some i)
    (hj : stored (Visit.after disk visits) place = some j) :
    j.version = i.version + UInt64.ofNat (changes disk visits) := by
  induction visits generalizing disk i with
  | nil =>
      cases hi.symm.trans hj
      exact (UInt64.add_zero _).symm
  | cons v rest ih =>
      obtain ⟨hv, hrest⟩ := List.forall_mem_cons.mp hplace
      rw [after_cons] at hj
      -- What cannot be read on the way cannot be read at the end either.
      cases hmiddle : stored (v.run disk).2 place with
      | none => cases (after_of_unreadable hrest hmiddle).symm.trans hj
      | some middle =>
          have hrun := version_run v (hv ▸ hi) (hv ▸ hmiddle)
          rw [ih hrest hmiddle hj, hrun, changes, UInt64.ofNat_add, UInt64.add_assoc]

theorem changes_le_length (disk : Disk) (visits : List Visit) :
    changes disk visits ≤ visits.length := by
  induction visits generalizing disk with
  | nil => exact Nat.le_refl _
  | cons v rest ih =>
      have hrest := ih (v.run disk).2
      have hone := Bool.toNat_le (v.changesWallet disk)
      rw [changes, List.length_cons]
      omega

/-- A change among the visits counts. -/
theorem changes_pos {disk : Disk} {before rest : List Visit} {u : Visit}
    (hu : u.changesWallet (Visit.after disk before) = true) :
    0 < changes disk (before ++ u :: rest) := by
  induction before generalizing disk with
  | nil =>
      rw [List.nil_append, changes]
      change u.changesWallet disk = true at hu
      rw [hu]
      exact Nat.add_pos_left Nat.one_pos _
  | cons v before ih =>
      rw [List.cons_append, changes]
      exact Nat.add_pos_right _ (ih hu)

/-! ## Stale updates -/

/-- Whoever changes the wallet has found files that can be written. -/
theorem ready_of_changesWallet {v : Visit} {disk : Disk} (h : v.changesWallet disk = true) :
    Ready disk v.place := by
  have hhappens := run_happens v disk
  rw [Visit.changesWallet, Bool.and_eq_true] at h
  obtain ⟨hok, hchanges⟩ := h
  generalize v.run disk = out at hhappens hok
  cases hhappens with
  | hindered => cases hok
  | refused => cases hok
  | answered hstored hreading =>
      rw [hstored, Option.any_some, hreading.not_changesWallet] at hchanges
      cases hchanges
  | changed _ _ _ hready => exact hready

theorem ready_after {disk : Disk} {place : Disk.Path} {visits : List Visit}
    (hplace : ∀ v ∈ visits, v.place = place) (h : Ready disk place) :
    Ready (Visit.after disk visits) place := by
  induction visits generalizing disk with
  | nil => exact h
  | cons v rest ih =>
      obtain ⟨rfl, hrest⟩ := List.forall_mem_cons.mp hplace
      exact ih hrest (ready_run v h)

/-- After a change there is nothing in the way of those who come later. -/
theorem ready_after_of_changes {disk : Disk} {place : Disk.Path} {visits : List Visit}
    (hplace : ∀ v ∈ visits, v.place = place) (h : 0 < changes disk visits) :
    Ready (Visit.after disk visits) place := by
  induction visits generalizing disk with
  | nil => cases h
  | cons v rest ih =>
      obtain ⟨rfl, hrest⟩ := List.forall_mem_cons.mp hplace
      rw [after_cons]
      rw [changes] at h
      by_cases hv : v.changesWallet disk = true
      · exact ready_after hrest (ready_run v (ready_of_changesWallet hv))
      · rw [Bool.eq_false_of_not_eq_true hv, Bool.toNat_false, Nat.zero_add] at h
        exact ih hrest h

/-- A visit that fails and leaves the stored file as it was. It fails because of the version it is
based on, if there is an image that can be read. -/
structure IsRefusedAsStale (version : UInt64) (v : Visit) (disk : Disk) : Prop where
  fails : ∃ fault, (v.run disk).1 = .error fault ∧
    ((stored disk v.place).isSome →
      ∃ actual, actual ≠ version ∧ fault = .conflict (.version version actual))
  untouched : (v.run disk).2.find (imageAt v.place) = disk.find (imageAt v.place)

/-- An update on a version that is not the stored one is refused. -/
theorem isRefusedAsStale {u : Visit} {disk : Disk} {version : UInt64} {balance : Binary64}
    (hu : u.call = .setBalance (some version) balance) (hready : Ready disk u.place)
    (hversion : ∀ i, stored disk u.place = some i → i.version ≠ version) :
    IsRefusedAsStale version u disk := by
  have hhappens := run_happens u disk
  suffices h : (∃ fault, (u.run disk).1 = .error fault ∧
      ((stored disk u.place).isSome →
        ∃ actual, actual ≠ version ∧ fault = .conflict (.version version actual))) ∧
      (u.run disk).2.find (imageAt u.place) = disk.find (imageAt u.place) from ⟨h.1, h.2⟩
  -- Whatever an update answers, it has compared the versions before.
  generalize u.run disk = out at hhappens ⊢
  cases hhappens with
  | hindered hfault hplace hsame =>
      exact ⟨⟨_, rfl, fun hstored => absurd ⟨hready, hstored⟩ hplace⟩, hsame⟩
  | refused hstored hrefusing hsame =>
      rw [hu] at hrefusing
      cases hrefusing with
      | version => exact ⟨⟨_, rfl, fun _ => ⟨_, hversion _ hstored, rfl⟩⟩, hsame⟩
      | noWallet hexpected =>
          exact absurd (hexpected version rfl).symm (hversion _ hstored)
  | answered hstored hreading =>
      rw [hu] at hreading
      cases hreading with
      | equal _ hexpected => exact absurd (hexpected version rfl).symm (hversion _ hstored)
  | changed hstored hchange =>
      rw [hu] at hchange
      cases hchange with
      | updated _ hexpected => exact absurd (hexpected version rfl).symm (hversion _ hstored)

/-- Once the wallet was changed, the version that holds is another one, until the counter has come
round. -/
theorem version_ne_of_changes {disk : Disk} {place : Disk.Path} {visits : List Visit} {i j : Image}
    (hplace : ∀ v ∈ visits, v.place = place) (hi : stored disk place = some i)
    (hj : stored (Visit.after disk visits) place = some j) (hpos : 0 < changes disk visits)
    (hsize : changes disk visits < UInt64.size) : j.version ≠ i.version := by
  intro heq
  have hafter := version_after hplace hi hj
  rw [heq] at hafter
  -- Below the size of the counter, only no changes at all lead back to the same version.
  have hzero : UInt64.ofNat (changes disk visits) = 0 := UInt64.add_eq_left.mp hafter.symm
  have hnat := congrArg UInt64.toNat hzero
  rw [UInt64.toNat_ofNat_of_lt' hsize] at hnat
  exact hpos.ne' hnat

/-- An update that is based on a version is refused if the wallet was changed since. -/
theorem isRefusedAsStale_after {disk : Disk} {place : Disk.Path} {visits : List Visit} {u : Visit}
    {i : Image} {balance : Binary64} (hplace : ∀ v ∈ visits, v.place = place)
    (hhere : u.place = place) (hi : stored disk place = some i)
    (hu : u.call = .setBalance (some i.version) balance) (hpos : 0 < changes disk visits)
    (hsize : changes disk visits < UInt64.size) :
    IsRefusedAsStale i.version u (Visit.after disk visits) := by
  have hready : Ready (Visit.after disk visits) u.place :=
    hhere ▸ ready_after_of_changes hplace hpos
  exact isRefusedAsStale hu hready fun _ hj =>
    version_ne_of_changes hplace hi (hhere ▸ hj) hpos hsize

/-- Taking a snapshot changes nothing, and the snapshot is of the stored image. -/
theorem stored_of_snapshot {v : Visit} {disk : Disk} {version : UInt64} {w : Wallet}
    (hcall : v.call = .snapshot) (h : (v.run disk).1 = .ok (.snapshot (some (version, w)))) :
    ∃ i, stored (v.run disk).2 v.place = some i ∧ i.version = version ∧ i.wallet = some w := by
  have hhappens := run_happens v disk
  generalize v.run disk = out at hhappens h ⊢
  cases hhappens with
  | hindered => cases h
  | refused => cases h
  | answered hstored hreading hsame =>
      rw [hcall] at hreading
      cases hreading
      obtain ⟨w', hw', hpair⟩ := Option.map_eq_some_iff.mp (Answer.snapshot.inj (Except.ok.inj h))
      cases hpair
      exact ⟨_, (stored_congr hsame).trans hstored, rfl, hw'⟩
  | changed hstored hchange =>
      rw [hcall] at hchange
      cases hchange

end WalletEngine.Store
