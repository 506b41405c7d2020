import WalletEngine.Proofs.Json.Rereading
import WalletEngine.Proofs.Store.Versions

/-! # Balances in the stored text

A call that writes the image passes the balance through the text of the image, and the number that is
read there need not be the one that was written. A balance that reads back is kept by all calls, and a
second update to it finds nothing to do. With any other balance the wallet drifts: what is loaded is
not what was set, and the same update again is one more change.
-/

namespace WalletEngine

namespace Binary64

theorem equals_self {x : Binary64} (hx : x.isFinite = true) : x.equals x = true := by
  have hmagnitude : x.magnitude < infinityMagnitude := of_decide_eq_true hx
  have hnumber : x.isNaN = false := decide_eq_false (by omega)
  simp [equals, hnumber]

/-- Equal numbers are the same number, or both are zero. -/
theorem eq_or_zero_of_equals {x y : Binary64} (h : x.equals y = true) :
    x = y ∨ y.magnitude = 0 := by
  have hplace := place_of_equals h
  by_cases hzero : y.magnitude = 0
  · exact Or.inr hzero
  · left
    have hsame : x.isNegative = y.isNegative ∧ x.magnitude = y.magnitude := by
      simp only [place] at hplace
      cases hx : x.isNegative <;> cases hy : y.isNegative <;> simp [hx, hy] at hplace ⊢ <;> omega
    rw [← ofMagnitude_self x, ← ofMagnitude_self y, hsame.1, hsame.2]

/-- A number reads back exactly if it equals what it is reread as; the sign of a zero is not lost. -/
theorem reread_equals_iff {x : Binary64} (hx : x.isFinite = true) :
    x.reread.equals x = true ↔ x.ReadsBack := by
  rw [readsBack_iff]
  constructor
  · intro h
    refine ⟨hx, ?_⟩
    rcases eq_or_zero_of_equals h with hsame | hzero
    · exact hsame
    · rw [← ofMagnitude_self x, hzero]
      exact reread_zero x.isNegative
  · rintro ⟨-, hreread⟩
    rw [hreread]
    exact equals_self hx

/-- A number that is nearest to a decimal of at most fifteen digits, at most twenty-one of them behind
the point, reads back. -/
theorem readsBack_ofRatio_pow_ten {digits places : Nat} (hdigits : digits < 10 ^ 15)
    (hplaces : places ≤ 21) (negative : Bool) :
    (ofRatio negative digits (10 ^ places)).ReadsBack :=
  readsBack_iff.mpr ⟨isFinite_ofRatio_pow_ten hdigits negative,
    reread_ofRatio_pow_ten hdigits hplaces negative⟩

end Binary64

namespace Store

open Steps

/-! ## One update -/

/-- A visit leaves the stored file as it is. -/
def Visit.WritesNothing (v : Visit) (disk : Disk) : Prop :=
  (v.run disk).2.find (imageAt v.place) = disk.find (imageAt v.place)

/-- Every handle on a place loads a wallet. -/
def Loads (disk : Disk) (place : Disk.Path) (w : Wallet) : Prop :=
  ∀ (moment : Moment) (start : String) (s : Store), placeFrom start s = place →
    outcome (s.load (moment.host start)) disk = (.ok (some w), disk)

theorem loads_of_stored {disk : Disk} {place : Disk.Path} {i : Image} {w : Wallet}
    (hstored : stored disk place = some i) (hw : i.wallet = some w) : Loads disk place w := by
  intro moment start s hplace
  rw [← hw]
  exact outcome_load moment (hplace.symm ▸ hstored)

section Updates
variable {u : Visit} {disk : Disk} {expected : Option UInt64} {balance : Binary64}

theorem run_setBalance (hcall : u.call = .setBalance expected balance) (disk : Disk) :
    u.run disk =
      ((outcome (u.store.setBalance (u.moment.host u.start) expected balance) disk).1.map
        Answer.updated,
      (outcome (u.store.setBalance (u.moment.host u.start) expected balance) disk).2) := by
  rw [Visit.run, hcall]
  exact outcome_map Answer.updated _ disk

/-- An update that is answered has taken the lock. -/
theorem takes_lock_of_updated {a : Answer} (hcall : u.call = .setBalance expected balance)
    (hok : (u.run disk).1 = .ok a) : disk.Takes u.place "wallet.lock" := by
  rw [run_setBalance hcall disk] at hok
  cases hout : (outcome (u.store.setBalance (u.moment.host u.start) expected balance) disk).1 with
  | error fault =>
      rw [hout] at hok
      cases hok
  | ok current => exact takes_lock_of_isOk u.moment u.start u.store disk hout

/-- An update to an equal balance needs only the lock, and writes nothing. -/
theorem run_of_equal {i : Image} {w : Wallet} (hcall : u.call = .setBalance expected balance)
    (hlock : disk.Takes u.place "wallet.lock") (hstored : stored disk u.place = some i)
    (hexpected : ∀ v ∈ expected, v = i.version) (hw : i.wallet = some w)
    (hequal : w.balance.equals balance = true) :
    (u.run disk).1 = .ok (.updated i.version) ∧ u.WritesNothing disk ∧
      (u.run disk).2.Takes u.place "wallet.lock" := by
  have hfilter : expected.filter (· != i.version) = none := by
    refine Option.filter_eq_none_iff.mpr fun v hv => ?_
    simp [hexpected v hv]
  have hperform : (i.setBalance expected balance).mapError Fault.conflict =
      .ok (i.version, none) := by
    rw [Image.setBalance, hfilter, hw]
    simp only [hequal, if_true]
    rfl
  have hchange : ∀ (image : Image) (disk : Disk),
      outcome (liftM ((image.setBalance expected balance).mapError Fault.conflict)) disk =
        ((image.setBalance expected balance).mapError Fault.conflict, disk) :=
    fun _ _ => outcome_lift_except _ _
  have hanswered := outcome_transact_of_answered u.moment u.start u.store disk hchange hlock
    hstored hperform
  have hrun := run_setBalance hcall disk
  rw [setBalance, hanswered] at hrun
  rw [Visit.WritesNothing, hrun]
  exact ⟨rfl, Disk.find_put_other _ (by decide), Disk.takes_put_name _ hlock.way⟩

/-- A visit that changes the wallet writes. -/
theorem not_writesNothing {v : Visit} {i : Image} (hstored : stored disk v.place = some i)
    (hchanges : v.changesWallet disk = true) : ¬v.WritesNothing disk := by
  intro hsame
  have hversion := version_run v hstored ((stored_congr hsame).trans hstored)
  rw [hchanges] at hversion
  have hnat := congrArg UInt64.toNat hversion
  rw [UInt64.toNat_add] at hnat
  have hbound := i.version.toNat_lt
  change _ = (_ + 1) % _ at hnat
  omega

/-- An update to another balance is a change where nothing is in the way. -/
theorem run_of_unequal {i : Image} {w : Wallet} (hcall : u.call = .setBalance expected balance)
    (hready : Ready disk u.place) (hstored : stored disk u.place = some i)
    (hexpected : ∀ v ∈ expected, v = i.version) (hw : i.wallet = some w)
    (hequal : w.balance.equals balance = false) :
    (u.run disk).1 = .ok (.updated (i.version + 1)) ∧ ¬u.WritesNothing disk ∧
      (u.run disk).2.find (imageAt u.place) =
        .ok (.file (Bytes.ofText (i.withWallet { w with balance }).text)) := by
  have hhappens := run_happens u disk
  have hwrites : (u.run disk).1.isOk = true → ¬u.WritesNothing disk := by
    intro hok
    refine not_writesNothing hstored ?_
    rw [Visit.changesWallet, hok, hstored, Option.any_some, hcall, Call.changesWallet, hw,
      Option.any_some, hequal]
    rfl
  generalize u.run disk = out at hhappens hwrites ⊢
  cases hhappens with
  | hindered hfault hplace => exact absurd ⟨hready, by simp [hstored]⟩ hplace
  | refused himage hrefusing =>
      cases himage.symm.trans hstored
      rw [hcall] at hrefusing
      cases hrefusing with
      | version hversion => exact absurd (hexpected _ rfl) hversion
      | noWallet _ hnone => cases hnone.symm.trans hw
  | answered himage hreading =>
      cases himage.symm.trans hstored
      rw [hcall] at hreading
      cases hreading with
      | equal hwallet _ hsame =>
          cases hwallet.symm.trans hw
          cases hsame.symm.trans hequal
  | changed himage hchange hnext =>
      cases himage.symm.trans hstored
      rw [hcall] at hchange
      cases hchange with
      | updated hwallet =>
          cases hwallet.symm.trans hw
          exact ⟨rfl, hwrites rfl, hnext⟩

/-- What an update to a balance needs at a place: the lock, a wallet, and files that can be written,
unless the wallet has an equal balance. -/
structure TakesBalance (disk : Disk) (place : Disk.Path) (balance : Binary64) : Prop where
  lock : disk.Takes place "wallet.lock"
  wallet : ∃ i w, stored disk place = some i ∧ i.wallet = some w ∧
    (w.balance.equals balance = true ∨ Ready disk place)

/-- An update to a balance succeeds exactly where it finds what it needs. -/
theorem isOk_run_iff (hcall : u.call = .setBalance none balance) :
    (u.run disk).1.isOk = true ↔ TakesBalance disk u.place balance := by
  constructor
  · intro hok
    have hlock {a : Answer} : (u.run disk).1 = .ok a → disk.Takes u.place "wallet.lock" :=
      takes_lock_of_updated hcall
    have hhappens := run_happens u disk
    generalize u.run disk = out at hhappens hok hlock
    cases hhappens with
    | hindered => cases hok
    | refused => cases hok
    | answered hstored hreading =>
        rw [hcall] at hreading
        cases hreading with
        | equal hw _ hequal => exact ⟨hlock rfl, _, _, hstored, hw, .inl hequal⟩
    | changed hstored hchange _ hready =>
        rw [hcall] at hchange
        cases hchange with
        | updated hw => exact ⟨hlock rfl, _, _, hstored, hw, .inr hready⟩
  · rintro ⟨hlock, i, w, hstored, hw, hfits⟩
    cases hequal : w.balance.equals balance with
    | true => rw [(run_of_equal hcall hlock hstored (by simp) hw hequal).1]; rfl
    | false =>
        have hready : Ready disk u.place := hfits.resolve_left (by simp [hequal])
        rw [(run_of_unequal hcall hready hstored (by simp) hw hequal).1]
        rfl

/-- What is stored by an update to another balance. -/
theorem stored_of_unequal {i : Image} {w : Wallet} (hfinite : balance.isFinite = true)
    (hcall : u.call = .setBalance expected balance) (hready : Ready disk u.place)
    (hstored : stored disk u.place = some i) (hexpected : ∀ v ∈ expected, v = i.version)
    (hw : i.wallet = some w) (hequal : w.balance.equals balance = false) :
    stored (u.run disk).2 u.place =
      some (i.withWallet { w with balance := balance.reread }) := by
  obtain ⟨-, -, hnext⟩ := run_of_unequal hcall hready hstored hexpected hw hequal
  refine stored_reread hnext ?_
  rintro w' ⟨⟩
  exact hfinite

/-- What an update to a balance leaves behind that is answered with the version `current`: the wallet
`w`, and what a second update to the balance does. -/
structure Leaves (u : Visit) (disk : Disk) (balance : Binary64) (current : UInt64) (w : Wallet) :
    Prop where
  loads : Loads (u.run disk).2 u.place w
  /-- The balance is what its text is read as, unless an equal one was there already. -/
  reread : w.balance = balance.reread ∨ w.balance.equals balance = true ∧ u.WritesNothing disk
  /-- A balance that is written is kept only if it reads back. -/
  kept : w.balance.equals balance = true ↔ balance.ReadsBack ∨ u.WritesNothing disk
  /-- A second update to a balance that was kept writes nothing. -/
  repeats : w.balance.equals balance = true → ∀ v : Visit, v.place = u.place →
    v.call = .setBalance none balance → (v.run (u.run disk).2).1 = .ok (.updated current) ∧
      v.WritesNothing (u.run disk).2
  /-- A second update to a balance that was not kept is one more change. -/
  drifts : w.balance.equals balance = false → ∀ v : Visit, v.place = u.place →
    v.call = .setBalance none balance → (v.run (u.run disk).2).1 = .ok (.updated (current + 1)) ∧
      ¬v.WritesNothing (u.run disk).2

theorem leaves_of_equal {i : Image} {w : Wallet} (hcall : u.call = .setBalance expected balance)
    (hlock : disk.Takes u.place "wallet.lock") (hstored : stored disk u.place = some i)
    (hexpected : ∀ v ∈ expected, v = i.version) (hw : i.wallet = some w)
    (hequal : w.balance.equals balance = true) : Leaves u disk balance i.version w := by
  obtain ⟨-, hsame, htakes⟩ := run_of_equal hcall hlock hstored hexpected hw hequal
  have hafter := (stored_congr hsame).trans hstored
  refine ⟨loads_of_stored hafter hw, .inr ⟨hequal, hsame⟩, iff_of_true hequal (.inr hsame),
    fun _ v hv hagain => ?_, fun hother => ?_⟩
  · rw [← hv] at htakes hafter
    obtain ⟨hanswer, hnothing, -⟩ := run_of_equal hagain htakes hafter (by simp) hw hequal
    exact ⟨hanswer, hnothing⟩
  · rw [hequal] at hother
    cases hother

theorem leaves_of_unequal {i : Image} {w : Wallet} (hfinite : balance.isFinite = true)
    (hcall : u.call = .setBalance expected balance) (hready : Ready disk u.place)
    (hstored : stored disk u.place = some i) (hexpected : ∀ v ∈ expected, v = i.version)
    (hw : i.wallet = some w) (hequal : w.balance.equals balance = false) :
    Leaves u disk balance (i.version + 1) { w with balance := balance.reread } := by
  obtain ⟨-, hwrites, -⟩ := run_of_unequal hcall hready hstored hexpected hw hequal
  have hafter := stored_of_unequal hfinite hcall hready hstored hexpected hw hequal
  have hreadyAfter := ready_run u hready
  refine ⟨loads_of_stored hafter rfl, .inl rfl, ?_, fun hkept v hv hagain => ?_,
    fun hlost v hv hagain => ?_⟩
  · rw [Binary64.reread_equals_iff hfinite]
    simp [hwrites]
  · rw [← hv] at hafter hreadyAfter
    obtain ⟨hanswer, hnothing, -⟩ :=
      run_of_equal hagain hreadyAfter.lock hafter (by simp) rfl hkept
    exact ⟨hanswer, hnothing⟩
  · rw [← hv] at hafter hreadyAfter
    obtain ⟨hanswer, hwrites, -⟩ :=
      run_of_unequal hagain hreadyAfter hafter (by simp) rfl hlost
    exact ⟨hanswer, hwrites⟩

/-- What a successful update leaves, whatever was stored before. -/
theorem leaves_of_updated {current : UInt64} (hfinite : balance.isFinite = true)
    (hcall : u.call = .setBalance expected balance)
    (hok : (u.run disk).1 = .ok (.updated current)) :
    ∃ w, Leaves u disk balance current w := by
  have hlock := takes_lock_of_updated hcall hok
  have hhappens := run_happens u disk
  generalize u.run disk = out at hhappens hok
  cases hhappens with
  | hindered => cases hok
  | refused => cases hok
  | answered hstored hreading hsame =>
      cases hok
      rw [hcall] at hreading
      cases hreading with
      | equal hw hexpected hequal =>
          exact ⟨_, leaves_of_equal hcall hlock hstored hexpected hw hequal⟩
  | changed hstored hchange hnext hready =>
      cases hok
      rw [hcall] at hchange
      cases hchange with
      | updated hw hexpected hequal =>
          exact ⟨_, leaves_of_unequal hfinite hcall hready hstored hexpected hw hequal⟩

end Updates

/-- An overview that is stored leaves everything else but the balance, which is reread. -/
theorem stored_of_recorded {u : Visit} {disk : Disk} {overview : Liveness.Overview}
    (hcall : u.call = .recordHealth overview) (hok : (u.run disk).1 = .ok .recorded) :
    ∃ i, stored disk u.place = some i ∧
      stored (u.run disk).2 u.place = some (i.reread.withHealth overview) := by
  have hhappens := run_happens u disk
  generalize u.run disk = out at hhappens hok ⊢
  cases hhappens with
  | hindered => cases hok
  | refused => cases hok
  | answered hstored hreading hsame =>
      rw [hcall] at hreading
      cases hreading
  | @changed i _ _ _ hstored hchange hnext =>
      rw [hcall] at hchange
      cases hchange with
      | recorded =>
          have hfinite : ∀ w ∈ i.wallet, w.balance.isFinite = true := isFinite_of_stored hstored
          exact ⟨i, hstored, stored_reread hnext hfinite⟩

/-- Exactly the balances that read back are kept by the stored text. An image is read from its text as
it is but for its balance, which is reread. After an update to a finite balance that succeeded, every
handle loads what the balance is reread as, unless an equal one was there before; a second update
writes nothing if the balance was kept, and is one more change if it was not. Storing an overview
rereads the balance once more. A number that is nearest to a decimal of at most fifteen digits reads
back. -/
theorem balance_kept_iff_readsBack {balance : Binary64} (hfinite : balance.isFinite = true) :
    (∀ i : Image, (∀ w ∈ i.wallet, w.balance = balance) →
      Image.parse i.text = .ok i.reread ∧
        (i.reread = i ↔ i.wallet.isNone ∨ balance.ReadsBack)) ∧
    (∀ (u : Visit) (disk : Disk) (expected : Option UInt64) (current : UInt64),
      u.call = .setBalance expected balance → (u.run disk).1 = .ok (.updated current) →
      ∃ w, Leaves u disk balance current w) ∧
    (∀ (u : Visit) (disk : Disk) (overview : Liveness.Overview) (i : Image) (w : Wallet),
      u.call = .recordHealth overview → (u.run disk).1 = .ok .recorded →
      stored disk u.place = some i → i.wallet = some w → w.balance = balance →
      stored (u.run disk).2 u.place = some (i.reread.withHealth overview) ∧
        Loads (u.run disk).2 u.place { w with balance := balance.reread }) ∧
    ∀ (negative : Bool) (digits places : Nat), digits < 10 ^ 15 → places ≤ 21 →
      balance = .ofRatio negative digits (10 ^ places) → balance.ReadsBack := by
  refine ⟨fun i hbalance => ?_, fun u disk expected current => leaves_of_updated hfinite,
    fun u disk overview i w hcall hok hstored hw hbalance => ?_,
    fun negative digits places hdigits hplaces hnearest => ?_⟩
  · have hwallet : ∀ w ∈ i.wallet, w.balance.isFinite = true := by
      intro w hw
      rw [hbalance w hw]
      exact hfinite
    refine ⟨Image.parse_text_reread hwallet, (Image.reread_eq_iff hwallet).trans ?_⟩
    cases hw : i.wallet with
    | none => simp
    | some w => simp [hbalance w hw]
  · obtain ⟨i', hi', hafter⟩ := stored_of_recorded hcall hok
    cases hi'.symm.trans hstored
    refine ⟨hafter, loads_of_stored hafter ?_⟩
    rw [Image.withHealth, Image.reread, hw, ← hbalance]
    rfl
  · rw [hnearest]
    exact Binary64.readsBack_ofRatio_pow_ten hdigits hplaces negative

/-- The number ten is kept, so a second update to it keeps the version. -/
theorem balance_kept_sample :
    ten.isFinite = true ∧
    ((sampleVisit (.setBalance none ten)).run (sampleDisk (sampleImage (.zero false)))).1 =
      .ok (.updated 2) ∧
    ((sampleVisit (.setBalance none ten)).run ((sampleVisit (.setBalance none ten)).run
      (sampleDisk (sampleImage (.zero false)))).2).1 = .ok (.updated 2) := by
  have hfirst : ((sampleVisit (.setBalance none ten)).run
      (sampleDisk (sampleImage (.zero false)))).1 = .ok (.updated 2) :=
    outcome_sampleVisit _ (stable_sampleDisk readsBack_zero)
  obtain ⟨-, hupdates, -, -⟩ := balance_kept_iff_readsBack (rfl : ten.isFinite = true)
  obtain ⟨w, hw⟩ := hupdates (sampleVisit (.setBalance none ten)) _ none 2 rfl hfirst
  have hkept : w.balance.equals ten = true := hw.kept.mpr (.inl readsBack_ten)
  exact ⟨rfl, hfirst, (hw.repeats hkept _ rfl rfl).1⟩

/-- A number with seventeen digits, which is reread as its neighbour 0.12. -/
def drifting : Binary64 := ⟨0x3fbeb851eb851eb9⟩

/-- A number that is reread as its neighbour, which is reread as the number. -/
def flipping : Binary64 := ⟨0x2105875f378c74dc⟩

/-- A balance is set that is not what is loaded, so the same update changes the wallet once more. An
overview is stored, and another balance is loaded than before. -/
theorem balance_lost_by_text :
    drifting.isFinite = true ∧
    ((sampleVisit (.setBalance none drifting)).run (sampleDisk (sampleImage (.zero false)))).1 =
      .ok (.updated 2) ∧
    ((sampleVisit .load).run ((sampleVisit (.setBalance none drifting)).run
      (sampleDisk (sampleImage (.zero false)))).2).1 =
        .ok (.wallet (some (sampleWallet ⟨0x3fbeb851eb851eb8⟩))) ∧
    ((sampleVisit (.setBalance none drifting)).run
      ((sampleVisit (.setBalance none drifting)).run
        (sampleDisk (sampleImage (.zero false)))).2).1 = .ok (.updated 3) ∧
    ((sampleVisit .load).run (sampleDisk (sampleImage flipping))).1 =
      .ok (.wallet (some (sampleWallet ⟨0x2105875f378c74dd⟩))) ∧
    ((sampleVisit .load).run ((sampleVisit (.recordHealth (.unknown .epoch))).run
      (sampleDisk (sampleImage flipping))).2).1 = .ok (.wallet (some (sampleWallet flipping))) := by
  have hdrifting : drifting.reread = ⟨0x3fbeb851eb851eb8⟩ := by decide +kernel
  have hflipping : flipping.reread = ⟨0x2105875f378c74dd⟩ := by decide +kernel
  have hflipped : Binary64.reread ⟨0x2105875f378c74dd⟩ = flipping := by decide +kernel
  refine ⟨rfl, ?_⟩
  rw [← and_assoc, ← and_assoc]
  constructor
  · have hplace := place_sampleVisit (.setBalance none drifting)
    have hready := ready_sampleDisk (sampleImage (.zero false))
    have hstored := stored_sampleDisk readsBack_zero
    rw [← hplace] at hready hstored
    have hafter := stored_of_unequal rfl rfl hready hstored (by simp) rfl rfl
    have hreadyAfter := ready_run _ hready
    rw [hplace] at hready hstored hafter hreadyAfter
    rw [hdrifting] at hafter
    exact ⟨⟨outcome_sampleVisit_of_ready _ hready hstored,
      outcome_sampleVisit_of_ready .load hreadyAfter hafter⟩,
      outcome_sampleVisit_of_ready _ hreadyAfter hafter⟩
  · have hready := ready_sampleDisk (sampleImage flipping)
    have hstored := stored_sampleDisk_reread (rfl : flipping.isFinite = true)
    rw [hflipping] at hstored
    have hrecorded := outcome_sampleVisit_of_ready (.recordHealth (.unknown .epoch)) hready hstored
    refine ⟨outcome_sampleVisit_of_ready .load hready hstored, ?_⟩
    obtain ⟨i, hi, hafter⟩ := stored_of_recorded rfl hrecorded
    have hplace := place_sampleVisit (.recordHealth (.unknown .epoch))
    rw [← hplace] at hready
    have hreadyAfter := ready_run _ hready
    rw [hplace] at hi hafter hreadyAfter
    cases hi.symm.trans hstored
    have hwallet : (Image.reread (sampleImage ⟨0x2105875f378c74dd⟩)).wallet =
        some (sampleWallet flipping) := by
      simp [Image.reread, sampleImage, sampleWallet, hflipped]
    rw [outcome_sampleVisit_of_ready .load hreadyAfter hafter]
    exact congrArg (Except.ok ∘ Answer.wallet) hwallet

end Store
end WalletEngine
