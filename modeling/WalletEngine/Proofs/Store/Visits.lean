import WalletEngine.Proofs.Store.Transactions

/-! # Visits to a store

A visit is one call through one handle. Several handles, also those of several processes, visit one
place; what a visit does there is known from the image alone.
-/

namespace WalletEngine.Store

open Steps

/-- A call of a store. -/
inductive Call where
  | load
  | snapshot
  | version
  | health
  | create
  | setBalance (expected : Option UInt64) (balance : Binary64)
  | recordHealth (overview : Liveness.Overview)

/-- The answer to a call. -/
inductive Answer where
  | wallet (found : Option Wallet)
  | snapshot (found : Option (UInt64 × Wallet))
  | version (version : UInt64)
  | health (found : Option Liveness.Overview)
  | created (wallet : Wallet)
  /-- The version after an update of the balance. -/
  | updated (version : UInt64)
  | recorded

/-- Makes a call. -/
def Call.perform {m : Type → Type} [Monad m] (host : Host m) (s : Store) :
    Call → ExceptT Fault m Answer
  | .load => .wallet <$> s.load host
  | .snapshot => .snapshot <$> s.snapshot host
  | .version => .version <$> s.version host
  | .health => .health <$> s.health host
  | .create => .created <$> s.create host
  | .setBalance expected balance => .updated <$> s.setBalance host expected balance
  | .recordHealth overview => (fun _ => .recorded) <$> s.recordHealth host overview

/-- A call through a handle of a process that stands in `start`. -/
structure Visit where
  start : String
  store : Store
  moment : Moment
  call : Call

namespace Visit

/-- The place that is visited. -/
def place (v : Visit) : Disk.Path := placeFrom v.start v.store

/-- The outcome of a visit and the disk that it leaves. -/
def run (v : Visit) (disk : Disk) : Except Fault Answer × Disk :=
  outcome (v.call.perform (v.moment.host v.start) v.store) disk

/-- The disk after visits. -/
def after (disk : Disk) (visits : List Visit) : Disk :=
  visits.foldl (fun disk v => (v.run disk).2) disk

/-- Visits with their outcomes. -/
def history (disk : Disk) : List Visit → List (Visit × Except Fault Answer)
  | [] => []
  | v :: rest => (v, (v.run disk).1) :: history (v.run disk).2 rest

end Visit

/-! ## Calls as functions of the image -/

/-- The answer to a call, and the new image if one is written. -/
def Call.onImage (moment : Moment) : Call → Image → Except Fault (Answer × Option Image)
  | .load, i => .ok (.wallet i.wallet, none)
  | .snapshot, i => .ok (.snapshot (i.wallet.map (i.version, ·)), none)
  | .version, i => .ok (.version i.version, none)
  | .health, i => .ok (.health i.health, none)
  | .create, i =>
    match i.wallet, moment.secret with
    | some w, _ => .ok (.created w, none)
    | none, .ok secret =>
      let w := Wallet.ofSecret secret moment.now
      .ok (.created w, some (i.withWallet w))
    | none, .error fault => .error (.keyring fault)
  | .setBalance expected balance, i =>
    match i.setBalance expected balance with
    | .ok (current, changed) => .ok (.updated current, changed)
    | .error conflict => .error (.conflict conflict)
  | .recordHealth overview, i => .ok (.recorded, some (i.withHealth overview))

/-- A call that writes an image. -/
inductive Change (moment : Moment) (i : Image) : Call → Answer → Image → Prop
  | created {secret : Keyring.Secret} (hwallet : i.wallet = none)
      (hsecret : moment.secret = .ok secret) :
      Change moment i .create (.created (.ofSecret secret moment.now))
        (i.withWallet (.ofSecret secret moment.now))
  | updated {w : Wallet} {expected : Option UInt64} {balance : Binary64}
      (hwallet : i.wallet = some w) (hexpected : ∀ v ∈ expected, v = i.version)
      (hbalance : w.balance.equals balance = false) :
      Change moment i (.setBalance expected balance) (.updated (i.version + 1))
        (i.withWallet { w with balance })
  | recorded {overview : Liveness.Overview} :
      Change moment i (.recordHealth overview) .recorded (i.withHealth overview)

/-- A call that finds nothing to write. -/
inductive Reading (i : Image) : Call → Answer → Prop
  | load : Reading i .load (.wallet i.wallet)
  | snapshot : Reading i .snapshot (.snapshot (i.wallet.map (i.version, ·)))
  | version : Reading i .version (.version i.version)
  | health : Reading i .health (.health i.health)
  | existing {w : Wallet} (hwallet : i.wallet = some w) : Reading i .create (.created w)
  | equal {w : Wallet} {expected : Option UInt64} {balance : Binary64}
      (hwallet : i.wallet = some w) (hexpected : ∀ v ∈ expected, v = i.version)
      (hbalance : w.balance.equals balance = true) :
      Reading i (.setBalance expected balance) (.updated i.version)

/-- A call that an image refuses. -/
inductive Refusing (moment : Moment) (i : Image) : Call → Fault → Prop
  | keyring {fault : Keyring.Fault} (hwallet : i.wallet = none)
      (hsecret : moment.secret = .error fault) : Refusing moment i .create (.keyring fault)
  | version {v : UInt64} {balance : Binary64} (hversion : v ≠ i.version) :
      Refusing moment i (.setBalance (some v) balance) (.conflict (.version v i.version))
  | noWallet {expected : Option UInt64} {balance : Binary64}
      (hexpected : ∀ v ∈ expected, v = i.version) (hwallet : i.wallet = none) :
      Refusing moment i (.setBalance expected balance) (.conflict .noWallet)

/-- What a call does to an image. -/
inductive Effect (moment : Moment) (i : Image) (call : Call) :
    Except Fault (Answer × Option Image) → Prop
  | change {a : Answer} {next : Image} (h : Change moment i call a next) :
      Effect moment i call (.ok (a, some next))
  | reading {a : Answer} (h : Reading i call a) : Effect moment i call (.ok (a, none))
  | refusing {fault : Fault} (h : Refusing moment i call fault) :
      Effect moment i call (.error fault)

theorem effect_setBalance (moment : Moment) (i : Image) (expected : Option UInt64)
    (balance : Binary64) :
    Effect moment i (.setBalance expected balance)
      ((Call.setBalance expected balance).onImage moment i) := by
  simp only [Call.onImage, Image.setBalance]
  cases hfilter : expected.filter (· != i.version) with
  | some v =>
      obtain ⟨rfl, hv⟩ := Option.filter_eq_some_iff.mp hfilter
      exact .refusing (.version (by simpa using hv))
  | none =>
      have hexpected : ∀ v ∈ expected, v = i.version := by
        intro v hv
        simpa using Option.filter_eq_none_iff.mp hfilter v hv
      cases hwallet : i.wallet with
      | none => exact .refusing (.noWallet hexpected hwallet)
      | some w =>
          cases hbalance : w.balance.equals balance with
          | true =>
              simp only [hbalance, if_true]
              exact .reading (.equal hwallet hexpected hbalance)
          | false =>
              simp only [hbalance, Bool.false_eq_true, if_false]
              exact .change (.updated hwallet hexpected hbalance)

/-- Whatever a call does to an image is a change, a reading or a refusal. -/
theorem effect_of_onImage (moment : Moment) (i : Image) (call : Call) :
    Effect moment i call (call.onImage moment i) := by
  cases call with
  | load => exact .reading .load
  | snapshot => exact .reading .snapshot
  | version => exact .reading .version
  | health => exact .reading .health
  | create =>
      rw [Call.onImage]
      cases hwallet : i.wallet with
      | some w => exact .reading (.existing hwallet)
      | none =>
          cases hsecret : moment.secret with
          | ok secret => exact .change (.created hwallet hsecret)
          | error fault => exact .refusing (.keyring hwallet hsecret)
  | setBalance expected balance => exact effect_setBalance moment i expected balance
  | recordHealth overview => exact .change .recorded

/-! ## What a visit does -/

theorem Comes.map {α β : Type} {disk : Disk} {place : Disk.Path}
    {perform : Image → Except Fault (α × Option Image)} {out : Except Fault α × Disk} (f : α → β)
    (h : Comes disk place perform out) :
    Comes disk place (fun i => (perform i).map fun (a, changed) => (f a, changed))
      (out.1.map f, out.2) := by
  cases h with
  | hindered hfault hplace hsame => exact .hindered hfault hplace hsame
  | refused hstored hperform hsame => exact .refused hstored (by rw [hperform]; rfl) hsame
  | answered hstored hperform hsame => exact .answered hstored (by rw [hperform]; rfl) hsame
  | written hstored hperform hnext hready =>
      exact .written hstored (by rw [hperform]; rfl) hnext hready

theorem Comes.of_eq {α : Type} {disk : Disk} {place : Disk.Path}
    {perform onImage : Image → Except Fault (α × Option Image)} {out : Except Fault α × Disk}
    (heq : ∀ i, perform i = onImage i) (h : Comes disk place perform out) :
    Comes disk place onImage out :=
  (funext heq : perform = onImage) ▸ h

/-- A visit comes out as its call does on the stored image, and files that could be written still
can. -/
def Visit.IsFaithful (v : Visit) (disk : Disk) : Prop :=
  Comes disk v.place (v.call.onImage v.moment) (v.run disk) ∧
    (Ready disk v.place → Ready (v.run disk).2 v.place)

theorem isFaithful_of_reading (v : Visit) (disk : Disk) (view : Image → Answer)
    (hperform : v.call.perform (v.moment.host v.start) v.store =
      view <$> v.store.read (v.moment.host v.start))
    (honImage : ∀ i, Except.ok (view i, none) = v.call.onImage v.moment i) : v.IsFaithful disk := by
  have hspec := reading_spec v.moment v.start v.store disk view
  rw [← hperform] at hspec
  rw [Visit.IsFaithful, Visit.run, Visit.place]
  exact ⟨hspec.1.of_eq honImage, hspec.2⟩

theorem isFaithful_of_transact {α : Type} (v : Visit) (disk : Disk) (f : α → Answer)
    {change : Image → ExceptT Fault (StateM Disk) (α × Option Image)}
    (perform : Image → Except Fault (α × Option Image))
    (hperform : v.call.perform (v.moment.host v.start) v.store =
      f <$> v.store.transact (v.moment.host v.start) change)
    (hchange : ∀ i disk, outcome (change i) disk = (perform i, disk))
    (honImage : ∀ i, (perform i).map (fun (a, changed) => (f a, changed)) =
      v.call.onImage v.moment i) : v.IsFaithful disk := by
  have hspec := transact_spec v.moment v.start v.store disk hchange
  have hrun : v.run disk = _ := hperform ▸ outcome_map f _ disk
  rw [Visit.IsFaithful, hrun, Visit.place]
  refine ⟨(hspec.1.map f).of_eq honImage, ?_⟩
  dsimp only
  exact hspec.2

theorem isFaithful_create (start : String) (s : Store) (moment : Moment) (disk : Disk) :
    (Visit.mk start s moment .create).IsFaithful disk := by
  refine isFaithful_of_transact _ _ Answer.created (fun i => match i.wallet, moment.secret with
    | some w, _ => .ok (w, none)
    | none, .ok secret =>
      .ok (.ofSecret secret moment.now, some (i.withWallet (.ofSecret secret moment.now)))
    | none, .error fault => .error (.keyring fault)) rfl ?_ ?_
  · intro i disk
    cases hwallet : i.wallet with
    | some w => rfl
    | none =>
        -- A secret is drawn only where there is no wallet.
        have hsecret : outcome (ε := Fault) (liftM (moment.host start).freshSecret) disk =
            (.ok moment.secret, disk) := rfl
        rw [outcome_bind_of_ok hsecret]
        cases moment.secret <;> rfl
  · intro i
    simp only [Call.onImage]
    cases i.wallet with
    | some w => rfl
    | none => cases moment.secret <;> rfl

theorem visit_spec (v : Visit) (disk : Disk) : v.IsFaithful disk := by
  obtain ⟨start, s, moment, call⟩ := v
  cases call with
  | load =>
      refine isFaithful_of_reading _ _ (fun i => .wallet i.wallet) ?_ fun _ => rfl
      simp only [Call.perform, load, bind_pure_comp, Functor.map_map]
  | snapshot =>
      refine isFaithful_of_reading _ _ (fun i => .snapshot (i.wallet.map (i.version, ·))) ?_
        fun _ => rfl
      simp only [Call.perform, snapshot, bind_pure_comp, Functor.map_map]
  | version =>
      refine isFaithful_of_reading _ _ (fun i => .version i.version) ?_ fun _ => rfl
      simp only [Call.perform, version, bind_pure_comp, Functor.map_map]
  | health =>
      refine isFaithful_of_reading _ _ (fun i => .health i.health) ?_ fun _ => rfl
      simp only [Call.perform, health, bind_pure_comp, Functor.map_map]
  | create => exact isFaithful_create start s moment disk
  | setBalance expected balance =>
      refine isFaithful_of_transact _ _ Answer.updated
        (fun i => (i.setBalance expected balance).mapError .conflict) rfl
        (fun _ _ => outcome_lift_except _ _) fun i => ?_
      simp only [Call.onImage]
      cases i.setBalance expected balance <;> rfl
  | recordHealth overview =>
      exact isFaithful_of_transact _ _ (fun _ => Answer.recorded)
        (fun i => .ok ((), some (i.withHealth overview))) (by rw [Call.perform, recordHealth])
        (fun _ _ => outcome_pure _ _) fun _ => rfl

/-- What can happen at a visit. -/
inductive Happens (v : Visit) (disk : Disk) : Except Fault Answer × Disk → Prop
  | hindered {fault : Fault} {after : Disk} (hfault : fault.IsHindrance)
      (hplace : ¬(Ready disk v.place ∧ (stored disk v.place).isSome))
      (hsame : after.find (imageAt v.place) = disk.find (imageAt v.place)) :
      Happens v disk (.error fault, after)
  | refused {i : Image} {fault : Fault} {after : Disk} (hstored : stored disk v.place = some i)
      (hrefusing : Refusing v.moment i v.call fault)
      (hsame : after.find (imageAt v.place) = disk.find (imageAt v.place)) :
      Happens v disk (.error fault, after)
  | answered {i : Image} {a : Answer} {after : Disk} (hstored : stored disk v.place = some i)
      (hreading : Reading i v.call a)
      (hsame : after.find (imageAt v.place) = disk.find (imageAt v.place)) :
      Happens v disk (.ok a, after)
  | changed {i next : Image} {a : Answer} {after : Disk} (hstored : stored disk v.place = some i)
      (hchange : Change v.moment i v.call a next)
      (hnext : after.find (imageAt v.place) = .ok (.file (Bytes.ofText next.text)))
      (hready : Ready disk v.place) : Happens v disk (.ok a, after)

theorem happens_of_comes {v : Visit} {disk : Disk} {out : Except Fault Answer × Disk}
    (h : Comes disk v.place (v.call.onImage v.moment) out) : Happens v disk out := by
  have heffect := fun i => effect_of_onImage v.moment i v.call
  cases h with
  | hindered hfault hplace hsame => exact .hindered hfault hplace hsame
  | @refused i _ _ hstored hperform hsame =>
      have hi := heffect i
      rw [hperform] at hi
      cases hi with
      | refusing h => exact .refused hstored h hsame
  | @answered i _ _ hstored hperform hsame =>
      have hi := heffect i
      rw [hperform] at hi
      cases hi with
      | reading h => exact .answered hstored h hsame
  | @written i _ _ _ hstored hperform hnext hready =>
      have hi := heffect i
      rw [hperform] at hi
      cases hi with
      | change h => exact .changed hstored h hnext hready

theorem run_happens (v : Visit) (disk : Disk) : Happens v disk (v.run disk) :=
  happens_of_comes (visit_spec v disk).1

/-- Files that could be written before a visit can be written after it. -/
theorem ready_run (v : Visit) {disk : Disk} (h : Ready disk v.place) :
    Ready (v.run disk).2 v.place :=
  (visit_spec v disk).2 h

/-- Where nothing is in the way, a visit answers as its call does on the stored image. -/
theorem outcome_run_of_ready {v : Visit} {disk : Disk} {i : Image} (hready : Ready disk v.place)
    (hstored : stored disk v.place = some i) :
    (v.run disk).1 = (v.call.onImage v.moment i).map Prod.fst := by
  have hcomes := (visit_spec v disk).1
  generalize v.run disk = out at hcomes ⊢
  cases hcomes with
  | hindered hfault hplace => exact absurd ⟨hready, by simp [hstored]⟩ hplace
  | refused himage hperform =>
      cases himage.symm.trans hstored
      rw [hperform]
      rfl
  | answered himage hperform =>
      cases himage.symm.trans hstored
      rw [hperform]
      rfl
  | written himage hperform =>
      cases himage.symm.trans hstored
      rw [hperform]
      rfl

end WalletEngine.Store
