import WalletEngine.Proofs.Store.Readability

/-! # What holds after any calls

A store in a directory that was empty at the start never fails for reasons of the machine, as long
as every balance that is set reads back from its text. Its wallet is made once and is that of its
secret, the version counts what changed the wallet, and the overview of the services is the one that
was stored last.
-/

namespace WalletEngine.Store

open Steps

/-- A place that leads to a directory with nothing in it. -/
structure IsEmptyPlace (disk : Disk) (place : Disk.Path) : Prop where
  directory : disk.find place = .ok .directory
  nothing : ∀ name, disk.find (place ++ [name]) = .error .notFound

/-- A call that sets no balance but one that is read back from its text. -/
def Call.ReadsBack : Call → Prop
  | .setBalance _ balance => balance.ReadsBack
  | _ => True

/-- Whether a call makes the wallet or changes its balance. -/
def Call.changesWallet : Call → Image → Bool
  | .create, i => i.wallet.isNone
  | .setBalance _ balance, i => i.wallet.any fun w => !w.balance.equals balance
  | _, _ => false

/-- The overview that was stored last. -/
def lastRecorded (history : List (Visit × Except Fault Answer)) : Option Liveness.Overview :=
  history.foldl (fun last p => match p.1.call, p.2 with
    | .recordHealth overview, .ok _ => some overview
    | _, _ => last) none

/-- What holds of the image after any calls, given the calls with their outcomes. -/
structure Reached (history : List (Visit × Except Fault Answer)) (i : Image) : Prop where
  /-- Every wallet that a call ever answered with is the stored one, but for its balance. -/
  created : ∀ v w, (v, .ok (.created w)) ∈ history → i.Has w
  derived : ∀ w ∈ i.wallet,
    w.address = Keyring.address w.secret ∧ w.identity = Keyring.identity w.secret
  version : i.version.toNat ≤ history.length
  health : i.health = lastRecorded history

/-- What one more call does to an image. -/
structure Lawful (v : Visit) (i next : Image) (outcome : Except Fault Answer) : Prop where
  /-- The machine is never in the way. -/
  unhindered : ∀ fault, outcome = .error fault → ¬fault.IsHindrance
  /-- A wallet that is there is answered with as it is, and stays. -/
  create : v.call = .create → ∀ w, i.wallet = some w → outcome = .ok (.created w)
  keeps : ∀ w, i.Has w → next.Has w
  version : next.version = i.version + if outcome.isOk && v.call.changesWallet i then 1 else 0
  recordHealth : ∀ overview, v.call = .recordHealth overview →
    next.wallet = i.wallet ∧ next.version = i.version ∧ next.health = some overview
  health : (∀ overview, v.call ≠ .recordHealth overview) → next.health = i.health
  readsHealth : v.call = .health → outcome = .ok (.health i.health)

/-! ## One call -/

/-- An image that is stored where nothing is in the way and that is read back as it is. -/
structure Stable (disk : Disk) (place : Disk.Path) (i : Image) : Prop where
  ready : Ready disk place
  stored : stored disk place = some i
  readsBack : ∀ w ∈ i.wallet, w.balance.ReadsBack

/-- The image after a call, if nothing is in the way. -/
def Call.next (moment : Moment) (call : Call) (i : Image) : Image :=
  match call.onImage moment i with
  | .ok (_, some next) => next
  | _ => i

/-- What a call does to an image if nothing is in the way. -/
inductive Step (v : Visit) (i : Image) : Image → Except Fault Answer → Prop
  | refused {fault : Fault} (h : Refusing v.moment i v.call fault) : Step v i i (.error fault)
  | answered {a : Answer} (h : Reading i v.call a) : Step v i i (.ok a)
  | changed {a : Answer} {next : Image} (h : Change v.moment i v.call a next) :
      Step v i next (.ok a)

theorem Change.readsBack {moment : Moment} {i next : Image} {call : Call} {a : Answer}
    (h : Change moment i call a next) (hcall : call.ReadsBack)
    (hi : ∀ w ∈ i.wallet, w.balance.ReadsBack) : ∀ w ∈ next.wallet, w.balance.ReadsBack := by
  cases h with
  | created =>
      rintro w ⟨⟩
      exact readsBack_zero
  | updated =>
      rintro w ⟨⟩
      exact hcall
  | recorded => exact hi

/-- A call leaves its image where nothing is in the way. -/
theorem stable_run {v : Visit} {disk : Disk} {i : Image} (h : Stable disk v.place i)
    (hcall : v.call.ReadsBack) : Stable (v.run disk).2 v.place (v.call.next v.moment i) := by
  have hready := ready_run v h.ready
  have hcomes := (visit_spec v disk).1
  have heffect := effect_of_onImage v.moment i v.call
  rw [Call.next]
  generalize v.run disk = out at hcomes hready ⊢
  cases hcomes with
  | hindered hfault hplace => exact absurd ⟨h.ready, by simp [h.stored]⟩ hplace
  | refused hstored hperform hsame =>
      cases hstored.symm.trans h.stored
      rw [hperform]
      exact ⟨hready, (stored_congr hsame).trans h.stored, h.readsBack⟩
  | answered hstored hperform hsame =>
      cases hstored.symm.trans h.stored
      rw [hperform]
      exact ⟨hready, (stored_congr hsame).trans h.stored, h.readsBack⟩
  | written hstored hperform hnext =>
      cases hstored.symm.trans h.stored
      rw [hperform] at heffect ⊢
      cases heffect with
      | change hchange =>
          have hreads := hchange.readsBack hcall h.readsBack
          exact ⟨hready, stored_of_readsBack hnext hreads, hreads⟩

theorem stable_sampleDisk {balance : Binary64} (h : balance.ReadsBack) :
    Stable (sampleDisk (sampleImage balance)) ["data"] (sampleImage balance) :=
  ⟨ready_sampleDisk _, stored_sampleDisk h, by rintro w ⟨⟩; exact h⟩

theorem stable_sampleVisit {disk : Disk} {i : Image} (call : Call) (h : Stable disk ["data"] i)
    (hcall : call.ReadsBack) : Stable ((sampleVisit call).run disk).2 ["data"]
      (call.next (sampleVisit call).moment i) := by
  have hplace := place_sampleVisit call
  rw [← hplace] at h ⊢
  exact stable_run h hcall

theorem outcome_sampleVisit {disk : Disk} {i : Image} (call : Call) (h : Stable disk ["data"] i) :
    ((sampleVisit call).run disk).1 =
      (call.onImage (sampleVisit call).moment i).map Prod.fst :=
  outcome_sampleVisit_of_ready call h.ready h.stored

theorem Refusing.not_isHindrance {moment : Moment} {i : Image} {call : Call} {fault : Fault}
    (h : Refusing moment i call fault) : ¬fault.IsHindrance := by
  cases h <;> exact id

theorem Refusing.lawful {v : Visit} {i : Image} {fault : Fault}
    (h : Refusing v.moment i v.call fault) : Lawful v i i (.error fault) where
  unhindered := by
    rintro fault ⟨⟩
    exact h.not_isHindrance
  create hcall w hw := by
    rw [hcall] at h
    cases h with
    | keyring hwallet => cases hwallet.symm.trans hw
  keeps _ := id
  version := (UInt64.add_zero _).symm
  recordHealth overview hcall := by
    rw [hcall] at h
    cases h
  health _ := rfl
  readsHealth hcall := by
    rw [hcall] at h
    cases h

theorem Reading.not_changesWallet {i : Image} {call : Call} {a : Answer} (h : Reading i call a) :
    call.changesWallet i = false := by
  cases h with
  | existing hwallet => rw [Call.changesWallet, hwallet]; rfl
  | equal hwallet _ hbalance => simp [Call.changesWallet, hwallet, hbalance]
  | _ => rfl

theorem Reading.lawful {v : Visit} {i : Image} {a : Answer} (h : Reading i v.call a) :
    Lawful v i i (.ok a) where
  unhindered := by rintro fault ⟨⟩
  create hcall w hw := by
    rw [hcall] at h
    cases h with
    | existing hwallet =>
        cases hwallet.symm.trans hw
        rfl
  keeps _ := id
  version := by
    rw [h.not_changesWallet, Bool.and_false]
    exact (UInt64.add_zero _).symm
  recordHealth overview hcall := by
    rw [hcall] at h
    cases h
  health _ := rfl
  readsHealth hcall := by
    rw [hcall] at h
    cases h
    rfl

theorem Change.version {moment : Moment} {i next : Image} {call : Call} {a : Answer}
    (h : Change moment i call a next) :
    next.version = i.version + if call.changesWallet i then 1 else 0 := by
  cases h with
  | created hwallet => simp [Call.changesWallet, hwallet, Image.withWallet]
  | updated hwallet _ hbalance => simp [Call.changesWallet, hwallet, hbalance, Image.withWallet]
  | recorded => exact (UInt64.add_zero _).symm

theorem Change.health {moment : Moment} {i next : Image} {call : Call} {a : Answer}
    (h : Change moment i call a next) (hcall : ∀ overview, call ≠ .recordHealth overview) :
    next.health = i.health := by
  cases h with
  | recorded => exact absurd rfl (hcall _)
  | _ => rfl

theorem Change.lawful {v : Visit} {i next : Image} {a : Answer}
    (h : Change v.moment i v.call a next) : Lawful v i next (.ok a) where
  unhindered := by rintro fault ⟨⟩
  create hcall w hw := by
    rw [hcall] at h
    cases h with
    | created hwallet => cases hwallet.symm.trans hw
  keeps _ := h.has
  version := h.version
  recordHealth overview hcall := by
    rw [hcall] at h
    cases h
    exact ⟨rfl, rfl, rfl⟩
  health := h.health
  readsHealth hcall := by
    rw [hcall] at h
    cases h

theorem Step.lawful {v : Visit} {i next : Image} {outcome : Except Fault Answer}
    (h : Step v i next outcome) : Lawful v i next outcome := by
  cases h with
  | refused h => exact h.lawful
  | answered h => exact h.lawful
  | changed h => exact h.lawful

/-! ## Runs -/

theorem Change.derived {moment : Moment} {i next : Image} {call : Call} {a : Answer}
    (h : Change moment i call a next) (hi : ∀ w ∈ i.wallet,
      w.address = Keyring.address w.secret ∧ w.identity = Keyring.identity w.secret) :
    ∀ w ∈ next.wallet,
      w.address = Keyring.address w.secret ∧ w.identity = Keyring.identity w.secret := by
  cases h with
  | created =>
      rintro w ⟨⟩
      exact ⟨rfl, rfl⟩
  | @updated w' _ _ hwallet =>
      rintro w ⟨⟩
      exact hi w' hwallet
  | recorded => exact hi

theorem Change.has_created {moment : Moment} {i next : Image} {call : Call} {w : Wallet}
    (h : Change moment i call (.created w) next) : next.Has w := by
  cases h
  exact ⟨_, rfl, .refl _⟩

theorem Reading.has_created {i : Image} {call : Call} {w : Wallet}
    (h : Reading i call (.created w)) : i.Has w := by
  cases h with
  | existing hwallet => exact ⟨w, hwallet, .refl w⟩

theorem version_le {version : UInt64} (b : Bool) :
    (version + if b then 1 else 0).toNat ≤ version.toNat + 1 := by
  rw [UInt64.toNat_add]
  refine (Nat.mod_le _ _).trans (Nat.add_le_add_left ?_ _)
  cases b <;> decide

theorem lastRecorded_append (history : List (Visit × Except Fault Answer)) (v : Visit)
    (outcome : Except Fault Answer) :
    lastRecorded (history ++ [(v, outcome)]) = match v.call, outcome with
      | .recordHealth overview, .ok _ => some overview
      | _, _ => lastRecorded history := by
  rw [lastRecorded, List.foldl_append]
  rfl

theorem Step.ok_of_recordHealth {v : Visit} {i next : Image} {outcome : Except Fault Answer}
    (h : Step v i next outcome) {overview : Liveness.Overview}
    (hcall : v.call = .recordHealth overview) : ∃ a, outcome = .ok a := by
  cases h with
  | refused h =>
      rw [hcall] at h
      cases h
  | answered h => exact ⟨_, rfl⟩
  | changed h => exact ⟨_, rfl⟩

theorem Reached.step {history : List (Visit × Except Fault Answer)} {v : Visit} {i next : Image}
    {outcome : Except Fault Answer} (h : Reached history i) (hstep : Step v i next outcome) :
    Reached (history ++ [(v, outcome)]) next := by
  have hlawful := hstep.lawful
  refine ⟨fun u w hu => ?_, ?_, ?_, ?_⟩
  -- A wallet answered with before is kept; one answered with now is the stored one.
  · rcases List.mem_append.mp hu with hold | hnew
    · exact hlawful.keeps w (h.created u w hold)
    · obtain ⟨rfl, rfl⟩ := Prod.mk.inj (List.mem_singleton.mp hnew)
      cases hstep with
      | answered h => exact h.has_created
      | changed h => exact h.has_created
  · cases hstep with
    | refused => exact h.derived
    | answered => exact h.derived
    | changed hchange => exact hchange.derived h.derived
  · rw [hlawful.version, List.length_append, List.length_singleton]
    exact (version_le _).trans (Nat.add_le_add_right h.version 1)
  · rw [lastRecorded_append]
    split
    next overview a hcall => exact (hlawful.recordHealth overview hcall).2.2
    next hother =>
      refine (hlawful.health fun overview hcall => ?_).trans h.health
      obtain ⟨a, rfl⟩ := hstep.ok_of_recordHealth hcall
      exact hother overview a hcall rfl

theorem ready_of_isEmptyPlace {disk : Disk} {place : Disk.Path} (h : IsEmptyPlace disk place) :
    Ready disk place := by
  have hway := Disk.way_of_find h.directory
  have htakes (name : String) : disk.Takes place name := by
    refine ⟨hway, fun hdirectory => ?_⟩
    have hnothing := h.nothing name
    rw [Disk.find_name, hway, hdirectory] at hnothing
    cases hnothing
  exact ⟨htakes _, htakes _, htakes _⟩

theorem stable_of_isEmptyPlace {disk : Disk} {place : Disk.Path} (h : IsEmptyPlace disk place) :
    Stable disk place .empty := by
  refine ⟨ready_of_isEmptyPlace h, ?_, by rintro w ⟨⟩⟩
  rw [stored, imageAt, h.nothing]

/-- A disk with nothing in its only directory. -/
def emptyDisk : Disk := ⟨[(["data"], .directory)]⟩

theorem isEmptyPlace_emptyDisk : IsEmptyPlace emptyDisk ["data"] := ⟨rfl, fun _ => rfl⟩

end WalletEngine.Store
