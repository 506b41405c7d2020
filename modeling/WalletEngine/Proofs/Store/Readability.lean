import WalletEngine.Proofs.Store.Image
import WalletEngine.Proofs.Store.Visits

/-! # What spoils a store

A balance that is not finite can be written, but no image can be read from the text that is written
then. So a store whose image could be read at the start can be read exactly as long as no update to
such a balance has succeeded. It keeps its wallet as long as it can be read.
-/

namespace WalletEngine

namespace Binary64

theorem place_of_equals {x y : Binary64} (h : x.equals y = true) : x.place = y.place := by
  simp only [equals, Bool.and_eq_true, beq_iff_eq] at h
  exact h.2

/-- Equal numbers are both finite or none of them is. -/
theorem isFinite_of_equals {x y : Binary64} (h : x.equals y = true) :
    x.isFinite = y.isFinite := by
  have hplace := place_of_equals h
  have hmagnitude : x.magnitude = y.magnitude := by
    simp only [place] at hplace
    split at hplace <;> split at hplace <;> omega
  rw [isFinite, isFinite, hmagnitude]

end Binary64

/-- Two wallets are the same but for the balance. -/
structure Wallet.SameOwner (w w' : Wallet) : Prop where
  secret : w'.secret = w.secret
  address : w'.address = w.address
  identity : w'.identity = w.identity
  createdAt : w'.createdAt = w.createdAt

namespace Wallet

theorem SameOwner.refl (w : Wallet) : w.SameOwner w := ⟨rfl, rfl, rfl, rfl⟩

theorem SameOwner.trans {w w' w'' : Wallet} (h : w.SameOwner w') (h' : w'.SameOwner w'') :
    w.SameOwner w'' :=
  ⟨h'.secret.trans h.secret, h'.address.trans h.address, h'.identity.trans h.identity,
    h'.createdAt.trans h.createdAt⟩

theorem sameOwner_withBalance (w : Wallet) (balance : Binary64) :
    w.SameOwner { w with balance } :=
  ⟨rfl, rfl, rfl, rfl⟩

end Wallet

namespace Store

open Steps

/-- The wallet of an image, whatever its balance is. -/
def Image.Has (i : Image) (w : Wallet) : Prop := ∃ w', i.wallet = some w' ∧ w.SameOwner w'

/-- A call that sets no balance that is not finite. -/
def Call.isFinite : Call → Bool
  | .setBalance _ balance => balance.isFinite
  | _ => true

/-! ## Loading -/

section Loading
variable {disk : Disk} {s : Store} {start : String} (moment : Moment)

theorem outcome_load {image : Image} (h : stored disk (placeFrom start s) = some image) :
    outcome (s.load (moment.host start)) disk = (.ok image.wallet, disk) := by
  obtain ⟨found, hread, hfound, -⟩ := read_spec moment start s disk
  rw [h] at hfound
  cases found with
  | error fault => cases hfound
  | ok image' =>
      cases hfound
      exact outcome_bind_of_ok hread

theorem outcome_load_of_unreadable (h : stored disk (placeFrom start s) = none) :
    ∃ fault, outcome (s.load (moment.host start)) disk = (.error fault, disk) := by
  obtain ⟨found, hread, hfound, -⟩ := read_spec moment start s disk
  rw [h] at hfound
  cases found with
  | ok image => cases hfound
  | error fault => exact ⟨fault, outcome_bind_of_error hread⟩

end Loading

/-! ## One visit -/

/-- What is stored is finite. -/
theorem isFinite_of_stored {disk : Disk} {place : Disk.Path} {image : Image}
    (h : stored disk place = some image) : ∀ w ∈ image.wallet, w.balance.isFinite = true := by
  rw [stored] at h
  split at h
  next =>
    cases h
    rintro w ⟨⟩
  next => cases h
  next content hfind =>
    obtain ⟨text, -, hparse⟩ := Option.bind_eq_some_iff.mp h
    have hparsed : Image.parse text = .ok image := by
      cases hresult : Image.parse text with
      | error fault =>
          rw [hresult] at hparse
          cases hparse
      | ok i =>
          rw [hresult] at hparse
          cases hparse
          rfl
    exact Image.isFinite_of_parse hparsed

/-- Nothing can be done with an image that cannot be read. -/
theorem run_of_unreadable (v : Visit) {disk : Disk} (h : stored disk v.place = none) :
    (∃ fault, (v.run disk).1 = .error fault) ∧ stored (v.run disk).2 v.place = none := by
  have hhappens := run_happens v disk
  generalize v.run disk = out at hhappens ⊢
  cases hhappens with
  | hindered hfault hplace hsame => exact ⟨⟨_, rfl⟩, (stored_congr hsame).trans h⟩
  | refused hstored => cases h.symm.trans hstored
  | answered hstored => cases h.symm.trans hstored
  | changed hstored => cases h.symm.trans hstored

/-- What is written has the wallet that was there. -/
theorem Change.has {moment : Moment} {i next : Image} {call : Call} {a : Answer}
    (h : Change moment i call a next) {w : Wallet} (hw : i.Has w) : next.Has w := by
  obtain ⟨w', hw', howner⟩ := hw
  cases h with
  | created hwallet => cases hwallet.symm.trans hw'
  | updated hwallet =>
      cases hwallet.symm.trans hw'
      exact ⟨_, rfl, howner.trans (w'.sameOwner_withBalance _)⟩
  | recorded => exact ⟨w', hw', howner⟩

theorem Change.isFinite {moment : Moment} {i next : Image} {call : Call} {a : Answer}
    (h : Change moment i call a next) (hcall : call.isFinite = true)
    (hi : ∀ w ∈ i.wallet, w.balance.isFinite = true) :
    ∀ w ∈ next.wallet, w.balance.isFinite = true := by
  cases h with
  | created =>
      rintro w ⟨⟩
      exact Binary64.zero_isFinite false
  | updated =>
      rintro w ⟨⟩
      exact hcall
  | recorded => exact hi

theorem Change.not_isFinite {moment : Moment} {i next : Image} {call : Call} {a : Answer}
    (h : Change moment i call a next) (hcall : call.isFinite = false) :
    ∃ w, next.wallet = some w ∧ w.balance.isFinite = false := by
  cases h with
  | created => cases hcall
  | updated => exact ⟨_, rfl, hcall⟩
  | recorded => cases hcall

theorem Image.Has.withBalance {i : Image} {w : Wallet} (h : i.Has w) (balance : Binary64) :
    (i.withBalance balance).Has w := by
  obtain ⟨w', hw', howner⟩ := h
  exact ⟨{ w' with balance }, by rw [Image.withBalance, hw']; rfl,
    howner.trans (w'.sameOwner_withBalance balance)⟩

/-- What was written with a finite balance can be read. -/
theorem stored_of_finite {after : Disk} {place : Disk.Path} {next : Image}
    (h : after.find (imageAt place) = .ok (.file (Bytes.ofText next.text)))
    (hfinite : ∀ w ∈ next.wallet, w.balance.isFinite = true) :
    ∃ balance, stored after place = some (next.withBalance balance) := by
  obtain ⟨y, -, hparse⟩ := Image.parse_text hfinite
  refine ⟨y, ?_⟩
  rw [stored_of_written h, hparse]
  rfl

/-- What was written with a finite balance is found but for its balance, which is reread. -/
theorem stored_reread {after : Disk} {place : Disk.Path} {next : Image}
    (h : after.find (imageAt place) = .ok (.file (Bytes.ofText next.text)))
    (hfinite : ∀ w ∈ next.wallet, w.balance.isFinite = true) :
    stored after place = some next.reread := by
  rw [stored_of_written h, Image.parse_text_reread hfinite]
  rfl

/-- What was written with a balance that reads back can be read as it is. -/
theorem stored_of_readsBack {after : Disk} {place : Disk.Path} {next : Image}
    (h : after.find (imageAt place) = .ok (.file (Bytes.ofText next.text)))
    (hreads : ∀ w ∈ next.wallet, w.balance.ReadsBack) : stored after place = some next := by
  rw [stored_of_written h, Image.parse_text_of_readsBack hreads]
  rfl

/-- A successful update to a balance that is not finite spoils what is stored. -/
theorem run_of_not_finite (v : Visit) {disk : Disk} {image : Image}
    (hstored : stored disk v.place = some image) (hok : (v.run disk).1.isOk = true)
    (hcall : v.call.isFinite = false) : stored (v.run disk).2 v.place = none := by
  have hhappens := run_happens v disk
  have hbalance := isFinite_of_stored hstored
  generalize v.run disk = out at hhappens hok ⊢
  cases hhappens with
  | hindered => cases hok
  | refused => cases hok
  | answered himage hreading hsame =>
      cases himage.symm.trans hstored
      generalize v.call = call at hreading hcall
      cases hreading with
      -- No stored balance equals one that is not finite, since a reader never gives such a balance.
      | @equal w _ balance hwallet _ hequals =>
          have hfinite := Binary64.isFinite_of_equals hequals
          rw [hbalance w hwallet] at hfinite
          cases hfinite.trans hcall
      | _ => cases hcall
  | changed himage hchange hnext =>
      obtain ⟨w, hw, hfinite⟩ := hchange.not_isFinite hcall
      obtain ⟨fault, hfault⟩ := Image.parse_text_of_not_finite hw hfinite
      rw [stored_of_written hnext, hfault]
      rfl

/-- Every other visit keeps the wallet, and a wallet that it makes is there afterwards. -/
theorem run_of_finite (v : Visit) {disk : Disk} {image : Image}
    (hstored : stored disk v.place = some image)
    (hcall : (v.run disk).1.isOk = true → v.call.isFinite = true) :
    ∃ next, stored (v.run disk).2 v.place = some next ∧ (∀ w, image.Has w → next.Has w) ∧
      ∀ w, (v.run disk).1 = .ok (.created w) → next.Has w := by
  have hhappens := run_happens v disk
  have hbalance := isFinite_of_stored hstored
  generalize v.run disk = out at hhappens hcall ⊢
  cases hhappens with
  | hindered hfault hplace hsame =>
      exact ⟨image, (stored_congr hsame).trans hstored, fun _ => id, by rintro w ⟨⟩⟩
  | refused himage hrefusing hsame =>
      exact ⟨image, (stored_congr hsame).trans hstored, fun _ => id, by rintro w ⟨⟩⟩
  | answered himage hreading hsame =>
      cases himage.symm.trans hstored
      refine ⟨image, (stored_congr hsame).trans hstored, fun _ => id, ?_⟩
      rintro w ⟨⟩
      generalize v.call = call at hreading
      cases hreading with
      | existing hwallet => exact ⟨w, hwallet, .refl w⟩
  | changed himage hchange hnext =>
      cases himage.symm.trans hstored
      have hfinite := hchange.isFinite (hcall rfl) hbalance
      obtain ⟨y, hy⟩ := stored_of_finite hnext hfinite
      refine ⟨_, hy, fun w hw => (hchange.has hw).withBalance y, ?_⟩
      rintro w ⟨⟩
      generalize v.call = call at hchange
      cases hchange with
      | created => exact Image.Has.withBalance ⟨_, rfl, .refl _⟩ y

/-! ## A disk with one store -/

/-- A secret. -/
def sampleSecret : Keyring.Secret := ⟨List.replicate 32 7, rfl⟩

/-- A wallet with some balance. -/
def sampleWallet (balance : Binary64) : Wallet :=
  { address := "a1", identity := "b2", secret := sampleSecret, balance, createdAt := .epoch }

/-- An image at the first version. -/
def sampleImage (balance : Binary64) : Image := ⟨1, some (sampleWallet balance), none⟩

/-- A disk with an image in its only directory. -/
def sampleDisk (i : Image) : Disk :=
  ⟨[(["data"], .directory), (["data", "wallet.json"], .file (Bytes.ofText i.text))]⟩

/-- A visit to that directory. -/
def sampleVisit (call : Call) : Visit where
  start := "/"
  store := ⟨"data"⟩
  moment := ⟨.epoch, 0, .ok sampleSecret, ""⟩
  call := call

/-- The number ten. -/
def ten : Binary64 := ⟨0x4024000000000000⟩

theorem readsBack_ten : ten.ReadsBack := by
  unfold Binary64.ReadsBack
  rfl

theorem readsBack_zero : (Binary64.zero false).ReadsBack := by
  unfold Binary64.ReadsBack
  rfl

theorem place_sampleVisit (call : Call) : (sampleVisit call).place = ["data"] := by
  change placeFrom "/" ⟨"data"⟩ = ["data"]
  decide +kernel

theorem ready_sampleDisk (i : Image) : Ready (sampleDisk i) ["data"] := by
  refine ⟨⟨rfl, ?_⟩, ⟨rfl, ?_⟩, ⟨rfl, ?_⟩⟩ <;> rintro ⟨⟩

theorem outcome_sampleVisit_of_ready {disk : Disk} {i : Image} (call : Call)
    (hready : Ready disk ["data"]) (hstored : stored disk ["data"] = some i) :
    ((sampleVisit call).run disk).1 =
      (call.onImage (sampleVisit call).moment i).map Prod.fst := by
  rw [← place_sampleVisit call] at hready hstored
  exact outcome_run_of_ready hready hstored

theorem stored_sampleDisk_reread {balance : Binary64} (hfinite : balance.isFinite = true) :
    stored (sampleDisk (sampleImage balance)) ["data"] = some (sampleImage balance.reread) := by
  have hwallet : ∀ w ∈ (sampleImage balance).wallet, w.balance.isFinite = true := by
    rintro w ⟨⟩
    exact hfinite
  exact stored_reread rfl hwallet

theorem stored_sampleDisk {balance : Binary64} (h : balance.ReadsBack) :
    stored (sampleDisk (sampleImage balance)) ["data"] = some (sampleImage balance) := by
  obtain ⟨hfinite, hreread⟩ := Binary64.readsBack_iff.mp h
  rw [stored_sampleDisk_reread hfinite, hreread]

/-! ## Runs -/

theorem after_nil (disk : Disk) : Visit.after disk [] = disk := rfl

theorem after_cons (disk : Disk) (v : Visit) (rest : List Visit) :
    Visit.after disk (v :: rest) = Visit.after (v.run disk).2 rest := rfl

theorem mem_history_cons (disk : Disk) (v : Visit) (rest : List Visit) :
    (v, (v.run disk).1) ∈ Visit.history disk (v :: rest) := by
  rw [Visit.history]
  exact List.mem_cons_self

theorem after_of_unreadable {disk : Disk} {place : Disk.Path} {visits : List Visit}
    (hplace : ∀ v ∈ visits, v.place = place) (h : stored disk place = none) :
    stored (Visit.after disk visits) place = none := by
  induction visits generalizing disk with
  | nil => exact h
  | cons v rest ih =>
      obtain ⟨hv, hrest⟩ := List.forall_mem_cons.mp hplace
      rw [after_cons]
      exact ih hrest (hv ▸ (run_of_unreadable v (hv.symm ▸ h)).2)

/-- Whether a visit set a balance that is not finite. -/
def IsSpoiling (p : Visit × Except Fault Answer) : Prop :=
  p.2.isOk = true ∧ p.1.call.isFinite = false

theorem isSpoiling_intro {v : Visit} {outcome : Except Fault Answer} (hok : outcome.isOk = true)
    (hcall : v.call.isFinite = false) : IsSpoiling (v, outcome) :=
  ⟨hok, hcall⟩

/-- A wallet that was there at the start or was created at one of the visits. -/
def Known (disk : Disk) (place : Disk.Path) (visits : List Visit) (w : Wallet) : Prop :=
  (∃ image, stored disk place = some image ∧ image.Has w) ∨
    ∃ v, (v, .ok (.created w)) ∈ Visit.history disk visits

theorem after_of_finite {disk : Disk} {place : Disk.Path} {visits : List Visit}
    (hplace : ∀ v ∈ visits, v.place = place) (hstored : (stored disk place).isSome)
    (hfinite : ∀ p ∈ Visit.history disk visits, ¬IsSpoiling p) :
    ∃ image, stored (Visit.after disk visits) place = some image ∧
      ∀ w, Known disk place visits w → image.Has w := by
  -- Each visit keeps the wallets that are known before it and may make one known.
  induction visits generalizing disk with
  | nil =>
      obtain ⟨image, himage⟩ := Option.isSome_iff_exists.mp hstored
      refine ⟨image, himage, ?_⟩
      rintro w (⟨image', himage', hw⟩ | ⟨v, hv⟩)
      · cases himage.symm.trans himage'
        exact hw
      · cases hv
  | cons v rest ih =>
      obtain ⟨hv, hrest⟩ := List.forall_mem_cons.mp hplace
      obtain ⟨hsafe, hsafeRest⟩ := List.forall_mem_cons.mp hfinite
      obtain ⟨image, himage⟩ := Option.isSome_iff_exists.mp hstored
      have hcall : (v.run disk).1.isOk = true → v.call.isFinite = true := fun hok =>
        Bool.not_eq_false _ ▸ fun hcall => hsafe ⟨hok, hcall⟩
      obtain ⟨next, hnext, hkeeps, hcreated⟩ := run_of_finite v (hv.symm ▸ himage) hcall
      rw [hv] at hnext
      obtain ⟨last, hlast, hknown⟩ := ih hrest (by simp [hnext]) hsafeRest
      refine ⟨last, hlast, fun w hw => hknown w ?_⟩
      rcases hw with ⟨image', himage', hw⟩ | ⟨u, hu⟩
      · cases himage.symm.trans himage'
        exact .inl ⟨next, hnext, hkeeps w hw⟩
      · rcases List.mem_cons.mp hu with hhead | htail
        · obtain ⟨rfl, hout⟩ := Prod.mk.inj hhead
          exact .inl ⟨next, hnext, hcreated w hout.symm⟩
        · exact .inr ⟨u, htail⟩

theorem after_of_spoiling {disk : Disk} {place : Disk.Path} {visits : List Visit}
    (hplace : ∀ v ∈ visits, v.place = place) {p : Visit × Except Fault Answer}
    (hp : p ∈ Visit.history disk visits) (hspoiling : IsSpoiling p) :
    stored (Visit.after disk visits) place = none := by
  induction visits generalizing disk with
  | nil => cases hp
  | cons v rest ih =>
      obtain ⟨hv, hrest⟩ := List.forall_mem_cons.mp hplace
      rw [after_cons]
      rcases List.mem_cons.mp hp with rfl | htail
      -- From here on nothing can be read, so no later visit can put it right.
      · refine after_of_unreadable hrest ?_
        cases hstored : stored disk place with
        | none => exact hv ▸ (run_of_unreadable v (hv.symm ▸ hstored)).2
        | some image =>
            exact hv ▸ run_of_not_finite v (hv.symm ▸ hstored) hspoiling.1 hspoiling.2
      · exact ih hrest htail

/-- The exact condition under which a store stays readable: whatever was stored at the start, after
any calls through any handles the stored text is an image, and every handle loads the wallet that
was there or was created, but for its balance, if no successful update was to a balance that is not
finite. After such an update, no handle can load anything. -/
theorem readable_until_spoiled {disk : Disk} {place : Disk.Path} {visits : List Visit}
    (hplace : ∀ v ∈ visits, v.place = place) (hstored : (stored disk place).isSome) :
    ((∀ p ∈ Visit.history disk visits, ¬IsSpoiling p) →
      (stored (Visit.after disk visits) place).isSome ∧
      ∀ w, Known disk place visits w → ∀ (moment : Moment) (start : String) (s : Store),
        placeFrom start s = place → ∃ w', w.SameOwner w' ∧
          outcome (s.load (moment.host start)) (Visit.after disk visits) =
            (.ok (some w'), Visit.after disk visits)) ∧
    ((∃ p ∈ Visit.history disk visits, IsSpoiling p) →
      stored (Visit.after disk visits) place = none ∧
      ∀ (moment : Moment) (start : String) (s : Store), placeFrom start s = place →
        ∃ fault, outcome (s.load (moment.host start)) (Visit.after disk visits) =
          (.error fault, Visit.after disk visits)) := by
  refine ⟨fun hfinite => ?_, fun ⟨p, hp, hspoiling⟩ => ?_⟩
  · obtain ⟨image, himage, hknown⟩ := after_of_finite hplace hstored hfinite
    refine ⟨by simp [himage], fun w hw moment start s hs => ?_⟩
    obtain ⟨w', hw', howner⟩ := hknown w hw
    exact ⟨w', howner, hw' ▸ outcome_load moment (hs.symm ▸ himage)⟩
  · have hnone := after_of_spoiling hplace hp hspoiling
    exact ⟨hnone, fun moment start s hs => outcome_load_of_unreadable moment (hs.symm ▸ hnone)⟩

/-- The sample wallet is still loaded after it was given a balance. -/
theorem readable_after_ten :
    (sampleVisit (.setBalance none ten)).place = ["data"] ∧
    (stored (sampleDisk (sampleImage (.zero false))) ["data"]).isSome ∧
    ∀ moment : Moment, ∃ w, (sampleWallet (.zero false)).SameOwner w ∧
      (outcome (Store.load (moment.host "/") ⟨"data"⟩)
        (Visit.after (sampleDisk (sampleImage (.zero false)))
          [sampleVisit (.setBalance none ten)])).1 = .ok (some w) := by
  have hplace := place_sampleVisit (.setBalance none ten)
  have hstored := stored_sampleDisk readsBack_zero
  refine ⟨hplace, by rw [hstored]; rfl, fun moment => ?_⟩
  have hfinite : ∀ p ∈ Visit.history (sampleDisk (sampleImage (.zero false)))
      [sampleVisit (.setBalance none ten)], ¬IsSpoiling p := by
    rw [Visit.history]
    refine List.forall_mem_singleton.mpr fun hspoiling => ?_
    cases hspoiling.2
  have hreadable := (readable_until_spoiled (List.forall_mem_singleton.mpr hplace)
    (by rw [hstored]; rfl)).1 hfinite
  obtain ⟨w, howner, hload⟩ := hreadable.2 _ (.inl ⟨_, hstored, _, rfl, .refl _⟩)
    moment "/" ⟨"data"⟩ hplace
  exact ⟨w, howner, congrArg Prod.fst hload⟩

/-- What is no number can be written, and then no handle can load the wallet. -/
theorem unreadable_after_nan :
    (stored (sampleDisk (sampleImage (.zero false))) ["data"]).isSome ∧
    ((sampleVisit (.setBalance none .nan)).run (sampleDisk (sampleImage (.zero false)))).1.isOk ∧
    stored (Visit.after (sampleDisk (sampleImage (.zero false)))
      [sampleVisit (.setBalance none .nan)]) ["data"] = none ∧
    ∀ moment : Moment, ∃ fault, (outcome (Store.load (moment.host "/") ⟨"data"⟩)
      (Visit.after (sampleDisk (sampleImage (.zero false)))
        [sampleVisit (.setBalance none .nan)])).1 = .error fault := by
  have hplace := place_sampleVisit (.setBalance none .nan)
  have hstored := stored_sampleDisk readsBack_zero
  have hok : ((sampleVisit (.setBalance none .nan)).run
      (sampleDisk (sampleImage (.zero false)))).1.isOk = true := by
    rw [outcome_run_of_ready (hplace.symm ▸ ready_sampleDisk _) (hplace.symm ▸ hstored)]
    rfl
  have hnone := after_of_spoiling (List.forall_mem_singleton.mpr hplace)
    (mem_history_cons _ _ _) (isSpoiling_intro hok rfl)
  refine ⟨by rw [hstored]; rfl, hok, hnone, fun moment => ?_⟩
  have hthere : placeFrom "/" ⟨"data"⟩ = ["data"] := hplace
  obtain ⟨fault, hfault⟩ := outcome_load_of_unreadable moment (hthere.symm ▸ hnone)
  exact ⟨fault, congrArg Prod.fst hfault⟩

end Store
end WalletEngine
