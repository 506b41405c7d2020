import WalletEngine.Proofs.Steps
import WalletEngine.Proofs.Store.Place

/-! # Transactions on a disk

A transaction sees only the image at the place of its store. Whatever the handle is, it either is
hindered by the machine or does to the image what a pure function says, and one that writes nothing
leaves the stored file as it was.
-/

namespace WalletEngine

open Steps

/-- What the outside gives to a call: the time, and what is drawn if anything is. -/
structure Moment where
  now : Time.Instant
  millis : Int64
  secret : Except Keyring.Fault Keyring.Secret
  nonce : String

/-- The machine of a process that stands in a directory of a disk. -/
def Moment.host (moment : Moment) (start : String) : Host (StateM Disk) where
  toFiles := Disk.files start modifyGet
  now := pure moment.now
  millis := pure moment.millis
  freshSecret := pure moment.secret
  freshNonce := pure moment.nonce

namespace Store

/-! ## What is stored -/

/-- The path of the image of a store at a place. -/
abbrev imageAt (place : Disk.Path) : Disk.Path := place ++ ["wallet.json"]

/-- The image at a place, if it can be read; a place without one has the empty image. -/
def stored (disk : Disk) (place : Disk.Path) : Option Image :=
  match disk.find (imageAt place) with
  | .error _ => some .empty
  | .ok .directory => none
  | .ok (.file content) => (Utf8.decode? content).bind fun text => (Image.parse text).toOption

/-- The files of a store can be written at a place. -/
structure Ready (disk : Disk) (place : Disk.Path) : Prop where
  image : disk.Takes place "wallet.json"
  draft : disk.Takes place "wallet.json.tmp"
  lock : disk.Takes place "wallet.lock"

/-- A fault that comes from the machine or from the stored text. -/
def Fault.IsHindrance : Fault → Prop
  | .file .. | .unreadable _ | .lock .. => True
  | .conflict _ | .keyring _ => False

theorem stored_congr {disk after : Disk} {place : Disk.Path}
    (h : after.find (imageAt place) = disk.find (imageAt place)) :
    stored after place = stored disk place := by
  rw [stored, stored, h]

/-- What is written is what its text is read as. -/
theorem stored_of_written {after : Disk} {place : Disk.Path} {i : Image}
    (h : after.find (imageAt place) = .ok (.file (Bytes.ofText i.text))) :
    stored after place = (Image.parse i.text).toOption := by
  simp only [stored, h, Utf8.decode?_ofText, Option.bind_some]

variable (moment : Moment) (start : String) (s : Store) (disk : Disk)

/-- The place of a store for a process that stands in `start`. -/
abbrev placeFrom (start : String) (s : Store) : Disk.Path := placeOf start s.directory

theorem parts_path :
    Disk.parts (joinPath start s.path) = imageAt (placeFrom start s) :=
  parts_joinPath_joinPath start s.directory isPlain_image

theorem parts_draftPath :
    Disk.parts (joinPath start s.draftPath) = placeFrom start s ++ ["wallet.json.tmp"] := by
  rw [draftPath_eq]
  exact parts_joinPath_joinPath start s.directory isPlain_draft

theorem parts_lockPath :
    Disk.parts (joinPath start s.lockPath) = placeFrom start s ++ ["wallet.lock"] :=
  parts_joinPath_joinPath start s.directory isPlain_lock

/-! ## Reading and writing -/

theorem run_modifyGet {β : Type} (f : Disk → β × Disk) :
    (modifyGet f : StateM Disk β).run disk = f disk := rfl

theorem run_isPresent (path : String) : ((moment.host start).isPresent path).run disk =
    ((disk.find (Disk.parts (joinPath start path))).isOk, disk) := by
  simp only [Moment.host, Disk.files, run_modifyGet]

theorem run_readText (path : String) : ((moment.host start).readText path).run disk =
    (disk.readText (Disk.parts (joinPath start path)), disk) := by
  simp only [Moment.host, Disk.files, run_modifyGet]

theorem run_writeText (path text : String) : ((moment.host start).writeText path text).run disk =
    disk.settle (disk.writeBytes (Disk.parts (joinPath start path)) fun _ => Bytes.ofText text) := by
  simp only [Moment.host, Disk.files, run_modifyGet]

theorem run_rename (source target : String) : ((moment.host start).rename source target).run disk =
    disk.settle (disk.move (Disk.parts (joinPath start source))
      (Disk.parts (joinPath start target))) := by
  simp only [Moment.host, Disk.files, run_modifyGet]

theorem run_withLock {β : Type} (path : String) (action : StateM Disk β) :
    ((moment.host start).withLock path action).run disk =
      match disk.writeBytes (Disk.parts (joinPath start path)) (·.getD []) with
      | .ok locked => (.ok (action.run locked).1, (action.run locked).2)
      | .error fault => (.error fault, disk) := by
  simp only [Moment.host, Disk.files, StateT.run_bind, run_modifyGet]
  cases disk.writeBytes (Disk.parts (joinPath start path)) (·.getD []) <;>
    simp only [Disk.settle] <;> rfl

theorem outcome_read_of_absent {fault : FileFault}
    (h : disk.find (imageAt (placeFrom start s)) = .error fault) :
    outcome (s.read (moment.host start)) disk = (.ok .empty, disk) := by
  have hpresent : outcome (ε := Fault) (liftM ((moment.host start).isPresent s.path)) disk =
      (.ok false, disk) := by
    rw [outcome_lift, run_isPresent, parts_path, h]
    rfl
  rw [read, outcome_bind_of_ok hpresent]
  rfl

theorem outcome_read_of_present {node : Disk.Node}
    (h : disk.find (imageAt (placeFrom start s)) = .ok node) :
    outcome (s.read (moment.host start)) disk =
      ((do Image.parse (← check "read" s.path (disk.readText (imageAt (placeFrom start s))))),
        disk) := by
  have hpresent : outcome (ε := Fault) (liftM ((moment.host start).isPresent s.path)) disk =
      (.ok true, disk) := by
    rw [outcome_lift, run_isPresent, parts_path, h]
    rfl
  have htext : outcome (ε := Fault) (liftM ((moment.host start).readText s.path)) disk =
      (.ok (disk.readText (imageAt (placeFrom start s))), disk) := by
    rw [outcome_lift, run_readText, parts_path]
    rfl
  rw [read, outcome_bind_of_ok hpresent, if_pos rfl, outcome_bind_of_ok htext, outcome_bind,
    outcome_lift_except]
  cases check "read" s.path (disk.readText (imageAt (placeFrom start s))) with
  | error fault => rfl
  | ok text => exact outcome_lift_except _ _

theorem isHindrance_of_parse {text : String} {fault : Fault} (h : Image.parse text = .error fault) :
    fault.IsHindrance := by
  rw [Image.parse] at h
  cases hdecode : Image.decoder.decode (Symbol.ofText text) with
  | ok image =>
      rw [hdecode] at h
      cases h
  | error problem =>
      rw [hdecode] at h
      cases h
      trivial

theorem readText_of_file {path : Disk.Path} {content : Bytes}
    (hfind : disk.find path = .ok (.file content)) :
    (disk.readText path).toOption = Utf8.decode? content := by
  cases hdecode : Utf8.decode? content <;>
    simp only [Disk.readText, Disk.readBytes, hfind, bind, Except.bind, hdecode] <;> rfl

theorem toOption_parse (path : String) (text : Except FileFault String) :
    Except.toOption (do Image.parse (← check "read" path text)) =
      text.toOption.bind fun t => (Image.parse t).toOption := by
  cases text <;> rfl

/-- Reading gives the image at the place and changes nothing. -/
theorem read_spec : ∃ found, outcome (s.read (moment.host start)) disk = (found, disk) ∧
    found.toOption = stored disk (placeFrom start s) ∧
    ∀ fault, found = .error fault → fault.IsHindrance := by
  cases hfind : disk.find (imageAt (placeFrom start s)) with
  | error fault =>
      refine ⟨_, outcome_read_of_absent moment start s disk hfind, ?_, ?_⟩
      · rw [stored, hfind]
        rfl
      · rintro fault ⟨⟩
  | ok node =>
      refine ⟨_, outcome_read_of_present moment start s disk hfind, ?_, ?_⟩
      · rw [toOption_parse, stored, hfind]
        cases node with
        | directory =>
            rw [Disk.readText, Disk.readBytes, hfind]
            rfl
        | file content => rw [readText_of_file disk hfind]
      · intro fault hfault
        cases hread : disk.readText (imageAt (placeFrom start s)) with
        | error cause =>
            rw [hread] at hfault
            cases hfault
            trivial
        | ok text =>
            rw [hread] at hfault
            exact isHindrance_of_parse hfault

/-- An operation on a file, with the path that its fault is about. -/
abbrev checked (operation path : String) (x : StateM Disk (Except FileFault Unit)) :
    ExceptT Fault (StateM Disk) Unit :=
  liftM x >>= fun done => liftM (check operation path done)

theorem outcome_checked_ok {x : StateM Disk (Except FileFault Unit)} {disk after : Disk}
    (operation path : String) (h : x.run disk = disk.settle (.ok after)) :
    outcome (checked operation path x) disk = (.ok (), after) := by
  have hlift : outcome (ε := Fault) (liftM x) disk = (.ok (.ok ()), after) := by
    rw [outcome_lift, h]
    rfl
  rw [checked, outcome_bind_of_ok hlift]
  rfl

theorem outcome_checked_error {x : StateM Disk (Except FileFault Unit)} {disk : Disk}
    {fault : FileFault} (operation path : String) (h : x.run disk = disk.settle (.error fault)) :
    outcome (checked operation path x) disk = (.error (.file operation path fault), disk) := by
  have hlift : outcome (ε := Fault) (liftM x) disk = (.ok (.error fault), disk) := by
    rw [outcome_lift, h]
    rfl
  rw [checked, outcome_bind_of_ok hlift]
  rfl

/-- The disk when the draft has become the image. -/
def replaced (disk : Disk) (place : Disk.Path) (bytes : Bytes) : Disk :=
  ((disk.put (place ++ ["wallet.json.tmp"]) (.file bytes)).erase
    (place ++ ["wallet.json.tmp"])).put (imageAt place) (.file bytes)

theorem way_drafted {place : Disk.Path} (bytes : Bytes) (hway : disk.way place = .ok ()) :
    ((disk.put (place ++ ["wallet.json.tmp"]) (.file bytes)).erase
      (place ++ ["wallet.json.tmp"])).way place = .ok () := by
  rw [Disk.way_erase, Disk.way_put, hway]

theorem ready_replaced {place : Disk.Path} (bytes : Bytes) (h : Ready disk place) :
    Ready (replaced disk place bytes) place := by
  have hway := way_drafted disk bytes h.draft.way
  refine ⟨Disk.takes_put_name _ hway, ?_, ?_⟩
  · refine (Disk.takes_put_other _ (by decide)).mpr ?_
    exact Disk.takes_erase_name (Disk.way_erase.symm.trans hway)
  · refine (Disk.takes_put_other _ (by decide)).mpr ?_
    refine (Disk.takes_erase_other (by decide)).mpr ?_
    exact (Disk.takes_put_other _ (by decide)).mpr h.lock

/-- Writing replaces the image, or leaves it as it was if the machine is in the way. -/
theorem write_spec (i : Image) :
    (∃ after, outcome (s.write (moment.host start) i) disk = (.ok (), after) ∧
      after.find (imageAt (placeFrom start s)) = .ok (.file (Bytes.ofText i.text)) ∧
      (disk.Takes (placeFrom start s) "wallet.lock" →
        Ready disk (placeFrom start s) ∧ Ready after (placeFrom start s))) ∨
    (∃ fault after, outcome (s.write (moment.host start) i) disk = (.error fault, after) ∧
      fault.IsHindrance ∧ ¬Ready disk (placeFrom start s) ∧
      after.find (imageAt (placeFrom start s)) = disk.find (imageAt (placeFrom start s))) := by
  generalize hplace : placeFrom start s = place
  generalize hbytes : Bytes.ofText i.text = bytes
  have hwrite : ((moment.host start).writeText s.draftPath i.text).run disk =
      disk.settle (disk.writeBytes (place ++ ["wallet.json.tmp"]) fun _ => bytes) := by
    rw [run_writeText, parts_draftPath, hplace, hbytes]
  have hrename (middle : Disk) : ((moment.host start).rename s.draftPath s.path).run middle =
      middle.settle (middle.move (place ++ ["wallet.json.tmp"]) (imageAt place)) := by
    rw [run_rename, parts_draftPath, parts_path, hplace]
  have hchecked : s.write (moment.host start) i =
      checked "write" s.draftPath ((moment.host start).writeText s.draftPath i.text) >>= fun _ =>
        checked "rename" s.path ((moment.host start).rename s.draftPath s.path) := by
    rw [write, checked, bind_assoc]
  rw [hchecked]
  by_cases hdraft : disk.Takes place "wallet.json.tmp"
  · rw [Disk.writeBytes_of_takes hdraft] at hwrite
    rw [outcome_bind_of_ok (outcome_checked_ok _ _ hwrite)]
    -- The draft is there now; whether it can take the place of the image has not changed.
    have himage : (disk.put (place ++ ["wallet.json.tmp"]) (.file bytes)).Takes place
        "wallet.json" ↔ disk.Takes place "wallet.json" := Disk.takes_put_other _ (by decide)
    by_cases htakes : disk.Takes place "wallet.json"
    · have hmoved := Disk.move_put_of_takes bytes hdraft.way (himage.mpr htakes)
      refine .inl ⟨replaced disk place bytes, outcome_checked_ok _ _ (hmoved ▸ hrename _),
        Disk.find_put_name _ (way_drafted disk bytes hdraft.way), fun hlock => ?_⟩
      have hready : Ready disk place := ⟨htakes, hdraft, hlock⟩
      exact ⟨hready, ready_replaced disk bytes hready⟩
    · obtain ⟨cause, hcause⟩ := Disk.move_of_not_takes (place ++ ["wallet.json.tmp"])
        (mt himage.mp htakes)
      exact .inr ⟨_, _, outcome_checked_error _ _ (hcause ▸ hrename _), trivial,
        fun h => htakes h.image, Disk.find_put_other _ (by decide)⟩
  · obtain ⟨cause, hcause⟩ := Disk.writeBytes_of_not_takes hdraft fun _ => bytes
    rw [hcause] at hwrite
    exact .inr ⟨_, disk, outcome_bind_of_error (outcome_checked_error _ _ hwrite), trivial,
      fun h => hdraft h.draft, rfl⟩

theorem disk_of_reading {β : Type} (view : Image → β) :
    (outcome (view <$> s.read (moment.host start)) disk).2 = disk := by
  obtain ⟨found, hread, -⟩ := read_spec moment start s disk
  rw [outcome_map, hread]

/-- What a call that only reads finds, unless it fails. -/
theorem toOption_of_reading {β : Type} (view : Image → β) :
    (outcome (view <$> s.read (moment.host start)) disk).1.toOption =
      (stored disk (placeFrom start s)).map view := by
  obtain ⟨found, hread, hfound, -⟩ := read_spec moment start s disk
  rw [outcome_map, hread, ← hfound]
  cases found <;> rfl

/-! ## Changing the image -/

/-- How a call comes out at a place where it does to the image what `perform` says. -/
inductive Comes {α : Type} (disk : Disk) (place : Disk.Path)
    (perform : Image → Except Fault (α × Option Image)) : Except Fault α × Disk → Prop
  /-- The machine was in the way, or what is stored could not be read. -/
  | hindered {fault : Fault} {after : Disk} (hfault : fault.IsHindrance)
      (hplace : ¬(Ready disk place ∧ (stored disk place).isSome))
      (hsame : after.find (imageAt place) = disk.find (imageAt place)) :
      Comes disk place perform (.error fault, after)
  | refused {image : Image} {fault : Fault} {after : Disk} (hstored : stored disk place = some image)
      (hperform : perform image = .error fault)
      (hsame : after.find (imageAt place) = disk.find (imageAt place)) :
      Comes disk place perform (.error fault, after)
  | answered {image : Image} {a : α} {after : Disk} (hstored : stored disk place = some image)
      (hperform : perform image = .ok (a, none))
      (hsame : after.find (imageAt place) = disk.find (imageAt place)) :
      Comes disk place perform (.ok a, after)
  | written {image next : Image} {a : α} {after : Disk} (hstored : stored disk place = some image)
      (hperform : perform image = .ok (a, some next))
      (hnext : after.find (imageAt place) = .ok (.file (Bytes.ofText next.text)))
      (hready : Ready disk place) : Comes disk place perform (.ok a, after)

/-- What a change does under the lock. -/
def amend {m : Type → Type} [Monad m] {α : Type} (host : Host m) (s : Store)
    (change : Image → ExceptT Fault m (α × Option Image)) : ExceptT Fault m α := do
  let (answer, changed) ← change (← s.read host)
  if let some image := changed then s.write host image
  return answer

theorem outcome_transact {α : Type}
    (change : Image → ExceptT Fault (StateM Disk) (α × Option Image)) :
    outcome (s.transact (moment.host start) change) disk =
      match disk.writeBytes (placeFrom start s ++ ["wallet.lock"]) (·.getD []) with
      | .ok locked => outcome (s.amend (moment.host start) change) locked
      | .error fault => (.error (.lock s.lockPath fault), disk) := by
  have htransact : s.transact (moment.host start) change =
      liftM ((moment.host start).withLock s.lockPath (s.amend (moment.host start) change).run) >>=
        _ := rfl
  have hlock := run_withLock moment start disk s.lockPath (s.amend (moment.host start) change).run
  rw [parts_lockPath] at hlock
  rw [htransact, outcome_bind, outcome_lift]
  cases hwrite : disk.writeBytes (placeFrom start s ++ ["wallet.lock"]) (·.getD []) with
  | error fault =>
      rw [hwrite] at hlock
      rw [hlock]
      rfl
  | ok locked =>
      rw [hwrite] at hlock
      change _ = outcome (s.amend (moment.host start) change) locked
      rcases hamend : outcome (s.amend (moment.host start) change) locked with ⟨answer, after⟩
      have hdone : ((moment.host start).withLock s.lockPath
          (s.amend (moment.host start) change).run).run disk = (.ok answer, after) := by
        rw [hlock]
        exact congrArg (fun p => (Except.ok p.1, p.2)) hamend
      rw [hdone]
      exact outcome_lift_except answer after

variable {α : Type} {change : Image → ExceptT Fault (StateM Disk) (α × Option Image)}
  {perform : Image → Except Fault (α × Option Image)}

theorem amend_spec (hchange : ∀ i disk, outcome (change i) disk = (perform i, disk))
    (hlock : disk.Takes (placeFrom start s) "wallet.lock") :
    Comes disk (placeFrom start s) perform (outcome (s.amend (moment.host start) change) disk) ∧
      (Ready disk (placeFrom start s) →
        Ready (outcome (s.amend (moment.host start) change) disk).2 (placeFrom start s)) := by
  obtain ⟨found, hread, hfound, hfault⟩ := read_spec moment start s disk
  rw [amend]
  cases found with
  | error fault =>
      have hnone : (stored disk (placeFrom start s)).isSome = false := by
        rw [← hfound]
        rfl
      rw [outcome_bind_of_error hread]
      exact ⟨.hindered (hfault fault rfl) (by simp [hnone]) rfl, id⟩
  | ok image =>
      have hstored : stored disk (placeFrom start s) = some image := hfound.symm
      rw [outcome_bind_of_ok hread]
      cases hperform : perform image with
      | error fault =>
          rw [outcome_bind_of_error ((hchange image disk).trans (by rw [hperform]))]
          exact ⟨.refused hstored hperform rfl, id⟩
      | ok p =>
          obtain ⟨a, changed⟩ := p
          rw [outcome_bind_of_ok ((hchange image disk).trans (by rw [hperform]))]
          cases changed with
          | none => exact ⟨.answered hstored hperform rfl, id⟩
          | some next =>
              rcases write_spec moment start s disk next with
                ⟨after, hwrite, hnext, hready⟩ | ⟨fault, after, hwrite, hfault, hnot, hsame⟩
              · have hdone : outcome (do
                    s.write (moment.host start) next
                    return a) disk = (.ok a, after) := outcome_bind_of_ok hwrite
                exact hdone ▸ ⟨.written hstored hperform hnext (hready hlock).1,
                  fun _ => (hready hlock).2⟩
              · have hdone : outcome (do
                    s.write (moment.host start) next
                    return a) disk = (.error fault, after) := outcome_bind_of_error hwrite
                exact hdone ▸ ⟨.hindered hfault (fun h => hnot h.1) hsame, fun h => absurd h hnot⟩

/-- Holding the lock changes nothing that is stored. -/
theorem ready_put_lock {place : Disk.Path} (bytes : Bytes) (hlock : disk.Takes place "wallet.lock") :
    Ready (disk.put (place ++ ["wallet.lock"]) (.file bytes)) place ↔ Ready disk place := by
  have hother : ∀ other, other ≠ "wallet.lock" →
      ((disk.put (place ++ ["wallet.lock"]) (.file bytes)).Takes place other ↔
        disk.Takes place other) := fun _ => Disk.takes_put_other _
  have himage := hother "wallet.json" (by decide)
  have hdraft := hother "wallet.json.tmp" (by decide)
  exact ⟨fun h => ⟨himage.mp h.image, hdraft.mp h.draft, hlock⟩,
    fun h => ⟨himage.mpr h.image, hdraft.mpr h.draft, Disk.takes_put_name _ hlock.way⟩⟩

theorem Comes.congr {β : Type} {disk locked : Disk} {place : Disk.Path}
    {perform : Image → Except Fault (β × Option Image)} {out : Except Fault β × Disk}
    (hfind : locked.find (imageAt place) = disk.find (imageAt place))
    (hready : Ready locked place ↔ Ready disk place) (h : Comes locked place perform out) :
    Comes disk place perform out := by
  have hstored := stored_congr hfind
  cases h with
  | hindered hfault hplace hsame =>
      exact .hindered hfault (by rwa [hready, hstored] at hplace) (hsame.trans hfind)
  | refused himage hperform hsame =>
      exact .refused (hstored ▸ himage) hperform (hsame.trans hfind)
  | answered himage hperform hsame =>
      exact .answered (hstored ▸ himage) hperform (hsame.trans hfind)
  | written himage hperform hnext hthere =>
      exact .written (hstored ▸ himage) hperform hnext (hready.mp hthere)

/-- A change under the lock comes out as a pure function of the image says. -/
theorem transact_spec (hchange : ∀ i disk, outcome (change i) disk = (perform i, disk)) :
    Comes disk (placeFrom start s) perform (outcome (s.transact (moment.host start) change) disk) ∧
      (Ready disk (placeFrom start s) →
        Ready (outcome (s.transact (moment.host start) change) disk).2 (placeFrom start s)) := by
  rw [outcome_transact]
  by_cases hlock : disk.Takes (placeFrom start s) "wallet.lock"
  · rw [Disk.writeBytes_of_takes hlock]
    have hready := ready_put_lock disk
      ((disk.content? (placeFrom start s) "wallet.lock").getD []) hlock
    obtain ⟨hcomes, hafter⟩ := amend_spec moment start s (disk.put
      (placeFrom start s ++ ["wallet.lock"])
      (.file ((disk.content? (placeFrom start s) "wallet.lock").getD []))) hchange
      (Disk.takes_put_name _ hlock.way)
    exact ⟨hcomes.congr (Disk.find_put_other _ (by decide)) hready, fun h => hafter (hready.mpr h)⟩
  · obtain ⟨cause, hcause⟩ := Disk.writeBytes_of_not_takes hlock (·.getD [])
    rw [hcause]
    exact ⟨.hindered trivial (fun h => hlock h.1.lock) rfl, id⟩

/-- What succeeds has taken the lock. -/
theorem takes_lock_of_isOk {a : α}
    (hok : (outcome (s.transact (moment.host start) change) disk).1 = .ok a) :
    disk.Takes (placeFrom start s) "wallet.lock" := by
  refine Classical.byContradiction fun hlock => ?_
  obtain ⟨cause, hcause⟩ := Disk.writeBytes_of_not_takes hlock (·.getD [])
  rw [outcome_transact, hcause] at hok
  cases hok

/-- Where nothing is to be written, the lock is all that a change needs. -/
theorem outcome_transact_of_answered {image : Image} {a : α}
    (hchange : ∀ i disk, outcome (change i) disk = (perform i, disk))
    (hlock : disk.Takes (placeFrom start s) "wallet.lock")
    (hstored : stored disk (placeFrom start s) = some image)
    (hperform : perform image = .ok (a, none)) :
    outcome (s.transact (moment.host start) change) disk =
      (.ok a, disk.put (placeFrom start s ++ ["wallet.lock"])
        (.file ((disk.content? (placeFrom start s) "wallet.lock").getD []))) := by
  rw [outcome_transact, Disk.writeBytes_of_takes hlock]
  generalize (disk.content? (placeFrom start s) "wallet.lock").getD [] = bytes
  obtain ⟨found, hread, hfound, -⟩ := read_spec moment start s
    (disk.put (placeFrom start s ++ ["wallet.lock"]) (.file bytes))
  rw [stored_congr (Disk.find_put_other _ (by decide)), hstored] at hfound
  cases found with
  | error fault => cases hfound
  | ok image' =>
      cases hfound
      dsimp only
      rw [amend, outcome_bind_of_ok hread,
        outcome_bind_of_ok ((hchange _ _).trans (by rw [hperform]))]
      rfl

/-- A reading comes out as a function of the image says. -/
theorem reading_spec {β : Type} (view : Image → β) :
    Comes disk (placeFrom start s) (fun i => .ok (view i, none))
        (outcome (view <$> s.read (moment.host start)) disk) ∧
      (Ready disk (placeFrom start s) →
        Ready (outcome (view <$> s.read (moment.host start)) disk).2 (placeFrom start s)) := by
  obtain ⟨found, hread, hfound, hfault⟩ := read_spec moment start s disk
  rw [← bind_pure_comp]
  cases found with
  | error fault =>
      have hnone : (stored disk (placeFrom start s)).isSome = false := by
        rw [← hfound]
        rfl
      rw [outcome_bind_of_error hread]
      exact ⟨.hindered (hfault fault rfl) (by simp [hnone]) rfl, id⟩
  | ok image =>
      rw [outcome_bind_of_ok hread]
      exact ⟨.answered hfound.symm rfl rfl, id⟩

end Store
end WalletEngine
