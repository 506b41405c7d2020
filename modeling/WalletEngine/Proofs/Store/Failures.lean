import WalletEngine.Proofs.Store.Runs

/-! # Failures leave the stored file alone

Whatever a call is hindered by or refused for, the stored file is what it was. Of a file system this
takes only that writing a draft is not writing the stored file, however it ends, and that the draft
gets the name of the stored file in one step or not at all. Pure disks are such file systems.
-/

namespace WalletEngine.Store

open Steps

variable {σ α β γ : Type}

/-! ## Actions that leave a view of the state -/

/-- An action leaves what is seen of the state. -/
def Keeps (view : σ → γ) (x : ExceptT Fault (StateM σ) α) : Prop :=
  ∀ st, view (outcome x st).2 = view st

/-- An action leaves what is seen of the state if it fails. -/
def KeepsOnError (view : σ → γ) (x : ExceptT Fault (StateM σ) α) : Prop :=
  ∀ st fault, (outcome x st).1 = .error fault → view (outcome x st).2 = view st

section Actions
variable {view : σ → γ} {x : ExceptT Fault (StateM σ) α} {f : α → ExceptT Fault (StateM σ) β}

theorem keeps_pure (a : α) : Keeps view (pure a) := fun _ => rfl

theorem keeps_lift_except (known : Except Fault α) : Keeps view (liftM known) := by
  intro st
  rw [outcome_lift_except]

theorem keeps_lift {x : StateM σ α} (h : ∀ st, view (x.run st).2 = view st) :
    Keeps view (liftM x : ExceptT Fault (StateM σ) α) := h

theorem Keeps.onError (h : Keeps view x) : KeepsOnError view x := fun st _ _ => h st

theorem Keeps.bind (hx : Keeps view x) (hf : ∀ a, Keeps view (f a)) : Keeps view (x >>= f) := by
  intro st
  have hst := hx st
  rw [outcome_bind]
  generalize outcome x st = out at hst ⊢
  rcases out with ⟨_ | a, rest⟩
  · exact hst
  · exact (hf a rest).trans hst

/-- What comes first keeps the view whether it fails or not, so only the end may change it. -/
theorem Keeps.bind_onError (hx : Keeps view x) (hf : ∀ a, KeepsOnError view (f a)) :
    KeepsOnError view (x >>= f) := by
  intro st fault hfault
  have hst := hx st
  rw [outcome_bind] at hfault ⊢
  generalize outcome x st = out at hst hfault ⊢
  rcases out with ⟨_ | a, rest⟩
  · exact hst
  · exact (hf a rest fault hfault).trans hst

theorem KeepsOnError.map (h : KeepsOnError view x) (g : α → β) : KeepsOnError view (g <$> x) := by
  intro st fault hfault
  have hst := h st
  rw [outcome_map] at hfault ⊢
  generalize outcome x st = out at hst hfault ⊢
  rcases out with ⟨cause | a, rest⟩
  · exact hst cause rfl
  · cases hfault

/-- A change of the view is the last thing that an action does. -/
theorem KeepsOnError.bind_pure (h : KeepsOnError view x) (g : α → β) :
    KeepsOnError view (x >>= fun a => pure (g a)) := by
  rw [bind_pure_comp]
  exact h.map g

end Actions

/-! ## File systems -/

/-- A file system on which the stored file, as far as it is seen, changes only when the draft gets its
name. -/
structure Spares (host : Host (StateM σ)) (s : Store) (view : σ → γ) : Prop where
  isPresent : ∀ st, view ((host.isPresent s.path).run st).2 = view st
  readText : ∀ st, view ((host.readText s.path).run st).2 = view st
  freshSecret : ∀ st, view (host.freshSecret.run st).2 = view st
  now : ∀ st, view (host.now.run st).2 = view st
  /-- Writing may fail half way, and then leave any draft. -/
  writeText : ∀ text st, view ((host.writeText s.draftPath text).run st).2 = view st
  /-- A draft that does not get the name of the stored file does not replace it. -/
  rename : ∀ st fault, ((host.rename s.draftPath s.path).run st).1 = .error fault →
    view ((host.rename s.draftPath s.path).run st).2 = view st
  /-- Nothing is seen of taking the lock and giving it back. -/
  withLock : ∀ {α : Type} (action : StateM σ α) (st : σ),
    (∃ fault, ((host.withLock s.lockPath action).run st).1 = .error fault ∧
      view ((host.withLock s.lockPath action).run st).2 = view st) ∨
    ∃ locked, view locked = view st ∧
      ((host.withLock s.lockPath action).run st).1 = .ok (action.run locked).1 ∧
      view ((host.withLock s.lockPath action).run st).2 = view (action.run locked).2
  /-- What is seen tells whether there is a file, and its text if that can be read. -/
  seen : ∀ st st', view st = view st' →
    ((host.isPresent s.path).run st).1 = ((host.isPresent s.path).run st').1 ∧
    ∀ text text', ((host.readText s.path).run st).1 = .ok text →
      ((host.readText s.path).run st').1 = .ok text' → text = text'

section Hosts
variable {host : Host (StateM σ)} {s : Store} {view : σ → γ}

theorem outcome_read_host (host : Host (StateM σ)) (s : Store) (st : σ) :
    let present := (host.isPresent s.path).run st
    let text := (host.readText s.path).run present.2
    outcome (s.read host) st = if present.1 then
      ((do Image.parse (← check "read" s.path text.1)), text.2) else (.ok .empty, present.2) := by
  intro present text
  have hpresent : outcome (ε := Fault) (liftM (host.isPresent s.path)) st =
      (.ok present.1, present.2) := outcome_lift _ st
  have htext : outcome (ε := Fault) (liftM (host.readText s.path)) present.2 =
      (.ok text.1, text.2) := outcome_lift _ present.2
  rw [read, outcome_bind_of_ok hpresent]
  split
  next =>
    rw [outcome_bind_of_ok htext, outcome_bind, outcome_lift_except]
    cases check "read" s.path text.1 with
    | error fault => rfl
    | ok text => exact outcome_lift_except _ _
  next => rfl

theorem keeps_read (h : Spares host s view) : Keeps view (s.read host) := by
  intro st
  rw [outcome_read_host]
  split
  next => exact (h.readText _).trans (h.isPresent st)
  next => exact h.isPresent st

/-- The same file is read as the same image, if it can be read both times. -/
theorem read_congr (h : Spares host s view) {st st' : σ} (hview : view st = view st') {i i' : Image}
    (hi : (outcome (s.read host) st).1 = .ok i) (hi' : (outcome (s.read host) st').1 = .ok i') :
    i = i' := by
  obtain ⟨hpresent, -⟩ := h.seen st st' hview
  rw [outcome_read_host] at hi hi'
  rw [← hpresent] at hi'
  split at hi
  next htrue =>
    rw [if_pos htrue] at hi'
    obtain ⟨-, htext⟩ := h.seen _ _ ((h.isPresent st).trans (hview.trans (h.isPresent st').symm))
    dsimp only at hi hi'
    generalize ((host.readText s.path).run ((host.isPresent s.path).run st).2).1 = text
      at hi htext
    generalize ((host.readText s.path).run ((host.isPresent s.path).run st').2).1 = text'
      at hi' htext
    cases text with
    | error fault => cases hi
    | ok text =>
        cases text' with
        | error fault => cases hi'
        | ok text' =>
            rw [← htext text text' rfl rfl] at hi'
            exact Except.ok.inj (hi.symm.trans hi')
  next hfalse =>
    rw [if_neg hfalse] at hi'
    cases hi
    exact (Except.ok.inj hi')

/-- Writing an image fails before the draft gets the name of the stored file or not at all. -/
theorem keepsOnError_write (h : Spares host s view) (i : Image) :
    KeepsOnError view (s.write host i) := by
  refine (keeps_lift (h.writeText i.text)).bind_onError fun written => ?_
  refine (keeps_lift_except (check "write" s.draftPath written)).bind_onError fun _ => ?_
  intro st fault hfault
  have hrename : outcome (ε := Fault) (liftM (host.rename s.draftPath s.path)) st =
      (.ok ((host.rename s.draftPath s.path).run st).1, _) := outcome_lift _ st
  rw [outcome_bind_of_ok hrename, outcome_lift_except] at hfault ⊢
  cases hrun : ((host.rename s.draftPath s.path).run st).1 with
  | ok =>
      rw [hrun] at hfault
      cases hfault
  | error cause => exact h.rename st cause hrun

/-! ## Calls -/

section Changes
variable {change : Image → ExceptT Fault (StateM σ) (α × Option Image)}

theorem keepsOnError_amend (h : Spares host s view) (hchange : ∀ i, Keeps view (change i)) :
    KeepsOnError view (s.amend host change) := by
  refine (keeps_read h).bind_onError fun i => (hchange i).bind_onError fun (answer, changed) => ?_
  cases changed with
  | none => exact (keeps_pure answer).onError
  | some next => exact (keepsOnError_write h next).bind_pure fun _ => answer

/-- A change under the lock is refused the lock, or it is made under the lock. -/
theorem outcome_transact_host (h : Spares host s view)
    (change : Image → ExceptT Fault (StateM σ) (α × Option Image)) (st : σ) :
    (∃ fault, (outcome (s.transact host change) st).1 = .error fault ∧
      view (outcome (s.transact host change) st).2 = view st) ∨
    ∃ locked, view locked = view st ∧
      (outcome (s.transact host change) st).1 = (outcome (s.amend host change) locked).1 ∧
      view (outcome (s.transact host change) st).2 =
        view (outcome (s.amend host change) locked).2 := by
  have htransact : s.transact host change =
      liftM (host.withLock s.lockPath (s.amend host change).run) >>= _ := rfl
  let held := (host.withLock s.lockPath (s.amend host change).run).run st
  have hlift : outcome (ε := Fault) (liftM (host.withLock s.lockPath (s.amend host change).run)) st =
      (.ok held.1, held.2) := outcome_lift _ st
  rw [htransact, outcome_bind_of_ok hlift]
  rcases h.withLock (s.amend host change).run st with
    ⟨fault, hfault, hview⟩ | ⟨locked, hlocked, hanswer, hview⟩
  · rw [show held.1 = _ from hfault]
    exact .inl ⟨_, rfl, hview⟩
  · have hmade : held.1 = .ok (outcome (s.amend host change) locked).1 := hanswer
    rw [hmade]
    refine .inr ⟨locked, hlocked, ?_⟩
    dsimp only
    rw [outcome_lift_except]
    exact ⟨rfl, hview⟩

theorem keepsOnError_transact (h : Spares host s view) (hchange : ∀ i, Keeps view (change i)) :
    KeepsOnError view (s.transact host change) := by
  intro st fault hfault
  rcases outcome_transact_host h change st with
    ⟨-, -, hview⟩ | ⟨locked, hlocked, hanswer, hview⟩
  · exact hview
  · rw [hview, ← hlocked]
    exact keepsOnError_amend h hchange locked fault (hanswer.symm.trans hfault)

end Changes

/-- A call that fails leaves the stored file. -/
theorem keepsOnError_perform (h : Spares host s view) (call : Call) :
    KeepsOnError view (call.perform host s) := by
  have hread (f : Image → Answer) : KeepsOnError view (f <$> s.read host) :=
    (keeps_read h).onError.map f
  cases call with
  | load => simpa only [Call.perform, load, bind_pure_comp, Functor.map_map] using hread _
  | snapshot => simpa only [Call.perform, snapshot, bind_pure_comp, Functor.map_map] using hread _
  | version => simpa only [Call.perform, version, bind_pure_comp, Functor.map_map] using hread _
  | health => simpa only [Call.perform, health, bind_pure_comp, Functor.map_map] using hread _
  | create =>
      refine (keepsOnError_transact h fun i => ?_).map _
      cases i.wallet with
      | some w => exact keeps_pure _
      | none =>
          refine (keeps_lift h.freshSecret).bind fun drawn => ?_
          cases drawn with
          | ok secret => exact (keeps_lift h.now).bind fun _ => keeps_pure _
          | error fault => exact fun _ => rfl
  | setBalance expected balance =>
      exact (keepsOnError_transact h fun i => keeps_lift_except _).map _
  | recordHealth overview => exact (keepsOnError_transact h fun i => keeps_pure _).map _

/-- Under the lock nothing is done with a file that cannot be read. -/
theorem transact_of_unreadable (h : Spares host s view) {st : σ}
    (hread : ∀ st', view st' = view st → (outcome (s.read host) st').1.isOk = false)
    (change : Image → ExceptT Fault (StateM σ) (α × Option Image)) :
    (outcome (s.transact host change) st).1.isOk = false := by
  rcases outcome_transact_host h change st with
    ⟨fault, hfault, -⟩ | ⟨locked, hlocked, hanswer, -⟩
  · rw [hfault]
    rfl
  · have hfirst := hread locked hlocked
    rw [hanswer, amend, outcome_bind]
    generalize outcome (s.read host) locked = found at hfirst ⊢
    rcases found with ⟨_ | i, rest⟩
    · rfl
    · cases hfirst

theorem isOk_map {α β : Type} {x : ExceptT Fault (StateM σ) α} (g : α → β) (st : σ) :
    (outcome (g <$> x) st).1.isOk = (outcome x st).1.isOk := by
  rw [outcome_map]
  cases (outcome x st).1 <;> rfl

/-- Every call fails on a file that cannot be read. -/
theorem perform_of_unreadable (h : Spares host s view) {st : σ}
    (hread : ∀ st', view st' = view st → (outcome (s.read host) st').1.isOk = false)
    (call : Call) : (outcome (call.perform host s) st).1.isOk = false := by
  have hreading (f : Image → Answer) : (outcome (f <$> s.read host) st).1.isOk = false :=
    (isOk_map f st).trans (hread st rfl)
  cases call with
  | load => simpa only [Call.perform, load, bind_pure_comp, Functor.map_map] using hreading _
  | snapshot =>
      simpa only [Call.perform, snapshot, bind_pure_comp, Functor.map_map] using hreading _
  | version => simpa only [Call.perform, version, bind_pure_comp, Functor.map_map] using hreading _
  | health => simpa only [Call.perform, health, bind_pure_comp, Functor.map_map] using hreading _
  | create => exact (isOk_map _ st).trans (transact_of_unreadable h hread _)
  | setBalance expected balance =>
      exact (isOk_map _ st).trans (transact_of_unreadable h hread _)
  | recordHealth overview => exact (isOk_map _ st).trans (transact_of_unreadable h hread _)

/-- An update after which the version is the same has no image to write. -/
theorem changed_of_same_version {i : Image} {expected : Option UInt64} {balance : Binary64}
    {changed : Option Image} (h : i.setBalance expected balance = .ok (i.version, changed)) :
    changed = none := by
  rw [Image.setBalance] at h
  split at h
  next => cases h
  next => cases h
  next w hexpected hwallet =>
    split at h
    next =>
      cases h
      rfl
    next =>
      have hversion : i.version + 1 = i.version := congrArg Prod.fst (Except.ok.inj h)
      simp at hversion

/-- A change under the lock that answers with the version that there was leaves the stored file. -/
theorem amend_of_same_version (h : Spares host s view) {locked : σ} {expected : Option UInt64}
    {balance : Binary64} {i : Image} (hread : (outcome (s.read host) locked).1 = .ok i)
    (hupdate : (outcome (s.amend host fun i =>
      liftM ((i.setBalance expected balance).mapError Fault.conflict)) locked).1 =
        .ok i.version) :
    view (outcome (s.amend host fun i =>
      liftM ((i.setBalance expected balance).mapError Fault.conflict)) locked).2 = view locked := by
  rw [amend] at hupdate ⊢
  obtain ⟨i', hi', hrest⟩ := exists_of_bind_ok hupdate
  cases hread.symm.trans hi'
  rw [hrest] at hupdate ⊢
  obtain ⟨⟨current, changed⟩, hset, hlast⟩ := exists_of_bind_ok hupdate
  rw [hlast] at hupdate ⊢
  rw [outcome_lift_except] at hset hupdate ⊢
  have hsame : i.setBalance expected balance = .ok (current, changed) := by
    cases hresult : i.setBalance expected balance with
    | error conflict =>
        rw [hresult] at hset
        cases hset
    | ok p =>
        rw [hresult] at hset
        cases hset
        rfl
  have hcurrent : current = i.version := by
    cases changed with
    | none => exact Except.ok.inj hupdate
    | some next =>
        obtain ⟨written, -, hanswer⟩ := exists_of_bind_ok hupdate
        rw [hanswer] at hupdate
        exact Except.ok.inj hupdate
  subst hcurrent
  cases changed_of_same_version hsame
  exact keeps_read h locked

/-- An update that answers with the version that there was leaves the stored file. -/
theorem setBalance_of_same_version (h : Spares host s view) {st : σ} {expected : Option UInt64}
    {balance : Binary64} {v : UInt64} (hversion : (outcome (s.version host) st).1 = .ok v)
    (hupdate : (outcome (s.setBalance host expected balance) st).1 = .ok v) :
    view (outcome (s.setBalance host expected balance) st).2 = view st := by
  rw [version] at hversion
  obtain ⟨i, hi, hanswer⟩ := exists_of_bind_ok hversion
  rw [hanswer] at hversion
  obtain rfl : i.version = v := Except.ok.inj hversion
  rcases outcome_transact_host h
      (fun i => liftM ((i.setBalance expected balance).mapError Fault.conflict)) st with
    ⟨fault, hfault, -⟩ | ⟨locked, hlocked, hamend, hview⟩
  · cases hfault.symm.trans hupdate
  · have hdone := hamend.symm.trans hupdate
    obtain ⟨i', hi', -⟩ := exists_of_bind_ok hdone
    -- The image that is read under the lock is the one that the version was read from.
    cases read_congr h hlocked.symm hi hi'
    exact hview.trans ((amend_of_same_version h hi' hdone).trans hlocked)

end Hosts

/-! ## Pure disks -/

/-- What a disk has under the name of the stored file. -/
abbrev atImage (place : Disk.Path) (disk : Disk) : Except FileFault Disk.Node :=
  disk.find (imageAt place)

/-- A write to another name of the directory leaves the stored file, done or not. -/
theorem atImage_settle (place : Disk.Path) (disk : Disk) {name : String}
    (hname : "wallet.json" ≠ name) (change : Option Bytes → Bytes) :
    atImage place (disk.settle (disk.writeBytes (place ++ [name]) change)).2 =
      atImage place disk := by
  by_cases htakes : disk.Takes place name
  · rw [Disk.writeBytes_of_takes htakes]
    exact Disk.find_put_other _ hname
  · obtain ⟨fault, hfault⟩ := Disk.writeBytes_of_not_takes htakes change
    rw [hfault]
    rfl

/-- Pure disks spare the stored file. -/
theorem spares_disk (moment : Moment) (start : String) (s : Store) :
    Spares (moment.host start) s (atImage (placeFrom start s)) where
  isPresent disk := by rw [run_isPresent]
  readText disk := by rw [run_readText]
  freshSecret disk := rfl
  now disk := rfl
  writeText text disk := by
    rw [run_writeText, parts_draftPath]
    exact atImage_settle _ _ (by decide) _
  rename disk fault hfault := by
    rw [run_rename] at hfault ⊢
    generalize disk.move _ _ = moved at hfault ⊢
    cases moved with
    | ok after => cases hfault
    | error cause => rfl
  withLock action disk := by
    have hkept := atImage_settle (placeFrom start s) disk
      (show "wallet.json" ≠ "wallet.lock" by decide) (·.getD [])
    rw [run_withLock, parts_lockPath]
    generalize disk.writeBytes (placeFrom start s ++ ["wallet.lock"]) (·.getD []) = taken at hkept ⊢
    cases taken with
    | error fault => exact .inl ⟨fault, rfl, rfl⟩
    | ok locked => exact .inr ⟨locked, hkept, rfl, rfl⟩
  seen disk disk' hview := by
    have hfind : disk.find (imageAt (placeFrom start s)) =
      disk'.find (imageAt (placeFrom start s)) := hview
    simp only [run_isPresent, run_readText, parts_path, Disk.readText, Disk.readBytes, hfind,
      true_and]
    intro text text' htext htext'
    exact Except.ok.inj (htext.symm.trans htext')

/-! ## Main result -/

/-- A call that fails leaves the stored file as it was, be there none, be it no image or no file at
all. So no call does anything with a file that cannot be read, and in particular none puts a new
wallet in its place. An update that answers with the version that there was leaves the file as well.
This holds on every file system that replaces a file in one step or not at all; it holds of a pure disk
whatever there is at the place of the store. -/
theorem failures_spare_the_file :
    (∀ {σ γ : Type} (host : Host (StateM σ)) (s : Store) (view : σ → γ), Spares host s view →
      ∀ st : σ,
        (∀ call fault, (outcome (Call.perform host s call) st).1 = .error fault →
          view (outcome (Call.perform host s call) st).2 = view st) ∧
        ((∀ st', view st' = view st → (outcome (s.read host) st').1.isOk = false) →
          ∀ call, (outcome (Call.perform host s call) st).1.isOk = false) ∧
        ∀ expected balance v, (outcome (s.version host) st).1 = .ok v →
          (outcome (s.setBalance host expected balance) st).1 = .ok v →
          view (outcome (s.setBalance host expected balance) st).2 = view st) ∧
    ∀ (v : Visit) (disk : Disk),
      (∀ fault, (v.run disk).1 = .error fault →
        (v.run disk).2.find (imageAt v.place) = disk.find (imageAt v.place)) ∧
      (stored disk v.place = none → (v.run disk).1.isOk = false ∧
        (v.run disk).2.find (imageAt v.place) = disk.find (imageAt v.place)) ∧
      ∀ i expected balance, stored disk v.place = some i → v.call = .setBalance expected balance →
        (v.run disk).1 = .ok (.updated i.version) →
        (v.run disk).2.find (imageAt v.place) = disk.find (imageAt v.place) := by
  refine ⟨fun host s view h st => ⟨fun call fault => keepsOnError_perform h call st fault,
    fun hread call => perform_of_unreadable h hread call,
    fun expected balance v => setBalance_of_same_version h⟩, fun v disk => ?_⟩
  have hfails : ∀ fault, (v.run disk).1 = .error fault →
      (v.run disk).2.find (imageAt v.place) = disk.find (imageAt v.place) := fun fault =>
    keepsOnError_perform (spares_disk v.moment v.start v.store) v.call disk fault
  refine ⟨hfails, fun hnone => ?_, fun i expected balance hstored hcall hanswer => ?_⟩
  · obtain ⟨⟨fault, hfault⟩, -⟩ := run_of_unreadable v hnone
    exact ⟨by rw [hfault]; rfl, hfails fault hfault⟩
  · have hhappens := run_happens v disk
    generalize v.run disk = out at hanswer hhappens ⊢
    cases hhappens with
    | hindered => cases hanswer
    | refused => cases hanswer
    | answered hi hreading hsame => exact hsame
    | changed hi hchange hnext =>
        -- A written update has counted the version on.
        cases hi.symm.trans hstored
        rw [hcall] at hchange
        cases hchange with
        | updated hwallet hexpected hbalance => simp at hanswer

/-- A place with a file that is no text. -/
def spoiledDisk : Disk :=
  ⟨[(["data"], .directory), (["data", "wallet.json"], .file [0xff])]⟩

theorem stored_spoiledDisk : stored spoiledDisk ["data"] = none := by
  have hdecode : Utf8.decode? [0xff] = none := by decide +kernel
  change (Utf8.decode? [0xff]).bind _ = none
  rw [hdecode]
  rfl

/-- What is no text is not replaced by a new wallet, and neither a stale update nor one to an equal
balance touches the stored file. -/
theorem failures_spare_sample :
    (((sampleVisit .create).run spoiledDisk).1.isOk = false ∧
      ((sampleVisit .create).run spoiledDisk).2.find ["data", "wallet.json"] =
        .ok (.file [0xff])) ∧
    ((sampleVisit (.setBalance (some 5) ten)).run (sampleDisk (sampleImage ten))).2.find
        ["data", "wallet.json"] = .ok (.file (Bytes.ofText (sampleImage ten).text)) ∧
    ((sampleVisit (.setBalance none ten)).run (sampleDisk (sampleImage ten))).2.find
        ["data", "wallet.json"] = .ok (.file (Bytes.ofText (sampleImage ten).text)) := by
  obtain ⟨hhosts, hdisks⟩ := failures_spare_the_file
  have hplace : placeFrom "/" ⟨"data"⟩ = ["data"] := place_sampleVisit .create
  have hstable := stable_sampleDisk readsBack_ten
  refine ⟨?_, ?_, ?_⟩
  · have hspoiled := (hdisks (sampleVisit .create) spoiledDisk).2.1
    rw [place_sampleVisit] at hspoiled
    exact hspoiled stored_spoiledDisk
  · have hspares := spares_disk (sampleVisit .create).moment "/" ⟨"data"⟩
    rw [hplace] at hspares
    exact (hhosts _ _ _ hspares (sampleDisk (sampleImage ten))).1 (.setBalance (some 5) ten) _
      (outcome_sampleVisit (.setBalance (some 5) ten) hstable)
  · have hequal := (hdisks (sampleVisit (.setBalance none ten)) (sampleDisk (sampleImage ten))).2.2
    rw [place_sampleVisit] at hequal
    exact hequal _ none ten hstable.stored rfl (outcome_sampleVisit _ hstable)

end WalletEngine.Store
