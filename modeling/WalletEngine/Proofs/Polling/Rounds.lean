import WalletEngine.Proofs.Polling.Situation
import WalletEngine.Proofs.Store.Versions

/-! # A round never overwrites what is newer

The balance that a round writes is based on the version that its snapshot had. Whatever the order in
which the ledger replies and the calls of others happen, the store refuses it if the wallet was
changed after the snapshot.
-/

namespace WalletEngine.Polling

open Scheduler Steps
open Store (Visit imageAt changes stored IsRefusedAsStale)

/-- The calls of others. -/
def visitsOf (happenings : List Happening) : List Visit :=
  happenings.filterMap fun
    | .visit v => some v
    | _ => none

/-- A happening in which the scheduler's balance is written. -/
def Happening.writesBalance : Happening → Bool
  | .done (.writeBalance ..) .. => true
  | _ => false

section Runs
variable {P : UInt64 → Prop} {s : Situation} {handle : Handle}

/-- The disk is changed by the calls of others and by the balance that is written for the scheduler,
and by nothing else. -/
theorem disk_step {happening : Happening} (hnot : happening.writesBalance = false) :
    (s.step handle happening).disk = Visit.after s.disk (visitsOf [happening]) := by
  cases happening with
  | visit v => rfl
  | signal now signal => rfl
  | told now index =>
      rw [Situation.step]
      split <;> rfl
  | done effect moment replies =>
      have hdisk : (handle.carryOut moment replies s.disk effect).2 = s.disk := by
        cases effect with
        | writeBalance => cases hnot
        | readSnapshot =>
            simp only [Handle.carryOut, Store.snapshot, bind_pure_comp]
            exact Store.disk_of_reading ..
        | reload =>
            simp only [Handle.carryOut, Store.load, bind_pure_comp]
            exact Store.disk_of_reading ..
        | _ => rfl
      rw [Situation.step]
      split
      next => exact hdisk
      next => rfl

theorem Orderly.run (h : Orderly P s) {happenings : List Happening}
    (hnone : ∀ happening ∈ happenings, happening.readsSnapshot = false) :
    Orderly P (s.run handle happenings) := by
  induction happenings using List.reverseRecOn with
  | nil => exact h
  | append_singleton happenings happening ih =>
      obtain ⟨hbefore, hlast⟩ := List.forall_mem_append.mp hnone
      rw [run_append]
      exact (ih hbefore).step (hlast happening (List.mem_singleton_self _))

/-- Whatever happens, at most one thing is under way between the scheduler and its store. -/
theorem orderly_of_isFresh (handle : Handle) (h : IsFresh s) (happenings : List Happening) :
    Orderly (fun _ => True) (s.run handle happenings) := by
  induction happenings using List.reverseRecOn with
  | nil => exact .of_isFresh h
  | append_singleton happenings happening ih =>
      rw [run_append]
      -- A new snapshot may bring any version, so nothing is claimed of it here.
      cases hreads : happening.readsSnapshot with
      | false => exact ih.step hreads
      | true =>
          cases happening with
          | done effect moment replies =>
              exact ih.done moment replies effect fun _ _ _ _ => trivial
          | _ => cases hreads

/-- A snapshot is taken only when nothing is known of the store. -/
theorem Orderly.snapshot {Q : UInt64 → Prop} (h : Orderly P s) (moment : Moment)
    (replies : Replies) (hmem : .readSnapshot ∈ s.asked)
    (hfound : ∀ found, (handle.carryOut moment replies s.disk .readSnapshot).1 = .snapshot found →
      ∀ p ∈ found, Q p.1) : Orderly Q (s.step handle (.done .readSnapshot moment replies)) := by
  refine orderly_done h moment replies hmem rfl fun stage htraffic => ?_
  cases htraffic
  exact .read (hfound _ rfl)

/-- Once its balance is written, a round writes no other. -/
theorem Orderly.spent (h : Orderly P s) (moment : Moment) (replies : Replies) {version : UInt64}
    {balance : Binary64} (hmem : .writeBalance version balance ∈ s.asked) :
    Orderly (fun _ => False)
      (s.step handle (.done (.writeBalance version balance) moment replies)) := by
  refine orderly_done h moment replies hmem rfl fun stage htraffic => ?_
  cases htraffic
  exact .written

theorem Orderly.of_asked (h : Orderly P s) {version : UInt64} {balance : Binary64}
    (hmem : .writeBalance version balance ∈ s.asked) : P version := by
  have htraffic := h.traffic
  obtain ⟨hasked, -⟩ := htraffic.alone_of_asked (List.mem_filter.mpr ⟨hmem, rfl⟩)
  rw [hasked] at htraffic
  generalize s.scheduler.stage = stage at htraffic
  generalize s.back.filter Event.isStore = back at htraffic
  cases htraffic with
  | toWrite h => exact h

theorem visitsOf_append (happenings : List Happening) (happening : Happening) :
    visitsOf (happenings ++ [happening]) = visitsOf happenings ++ visitsOf [happening] :=
  List.filterMap_append

/-- Between a snapshot and the next, the disk is changed by the calls of others only, until the
balance of the round is written. -/
theorem run_until_written (h : Orderly P s) {happenings : List Happening}
    (hnone : ∀ happening ∈ happenings, happening.readsSnapshot = false) :
    (s.run handle happenings).disk = Visit.after s.disk (visitsOf happenings) ∨
      Orderly (fun _ => False) (s.run handle happenings) := by
  -- Once the balance was written there is no version left to write on, and that is kept.
  induction happenings using List.reverseRecOn with
  | nil => exact .inl rfl
  | append_singleton happenings happening ih =>
      obtain ⟨hbefore, hlast⟩ := List.forall_mem_append.mp hnone
      have hnot := hlast happening (List.mem_singleton_self _)
      rw [run_append]
      rcases ih hbefore with hdisk | hspent
      · cases hwrites : happening.writesBalance with
        | false =>
            left
            rw [disk_step hwrites, hdisk, visitsOf_append, Visit.after, Visit.after, Visit.after,
              List.foldl_append]
        | true =>
            cases happening with
            | done effect moment replies =>
                cases effect with
                | writeBalance version balance =>
                    by_cases hmem : .writeBalance version balance ∈ (s.run handle happenings).asked
                    · exact .inr ((h.run hbefore).spent moment replies hmem)
                    · left
                      rw [Situation.step, if_neg hmem, hdisk, visitsOf_append]
                      change _ = Visit.after s.disk (visitsOf happenings ++ [])
                      rw [List.append_nil]
                | _ => cases hwrites
            | _ => cases hwrites
      · exact .inr (hspent.step hnot)

/-- A balance that waits to be written is based on the version that was stored at the snapshot, and
up to any moment since then the disk was changed by the calls of others only. -/
theorem base_of_writing (h : Orderly P s) (moment : Moment) (replies : Replies)
    (hread : .readSnapshot ∈ s.asked) {before behind : List Happening}
    (hnone : ∀ happening ∈ before ++ behind, happening.readsSnapshot = false) {version : UInt64}
    {balance : Binary64} (hwrite : .writeBalance version balance ∈
      ((s.step handle (.done .readSnapshot moment replies)).run handle (before ++ behind)).asked) :
    ((s.step handle (.done .readSnapshot moment replies)).run handle before).disk =
      Visit.after s.disk (visitsOf before) ∧
    ∃ i, stored s.disk handle.place = some i ∧ i.version = version := by
  have hsnapshot : Orderly (fun version => ∃ i, stored s.disk handle.place = some i ∧
      i.version = version) (s.step handle (.done .readSnapshot moment replies)) := by
    refine h.snapshot moment replies hread ?_
    rw [carryOut_readSnapshot]
    rintro found ⟨⟩ p hp
    obtain ⟨i, hi, hfound⟩ := Option.bind_eq_some_iff.mp hp
    obtain ⟨w, -, rfl⟩ := Option.map_eq_some_iff.mp hfound
    exact ⟨i, hi, rfl⟩
  have hdisk : (s.step handle (.done .readSnapshot moment replies)).disk = s.disk :=
    disk_step rfl
  refine ⟨?_, (hsnapshot.run hnone).of_asked hwrite⟩
  obtain ⟨hbefore, hbehind⟩ := List.forall_mem_append.mp hnone
  -- What still waits to be written was not written before.
  rcases run_until_written hsnapshot hbefore with hafter | hspent
  · rw [hafter, hdisk]
  · rw [Situation.run, List.foldl_append] at hwrite
    exact ((hspent.run hbehind).of_asked hwrite).elim

/-- The balance of a round is written as any other handle would write it. -/
theorem disk_write {version : UInt64} {balance : Binary64} (moment : Moment) (replies : Replies)
    (hmem : .writeBalance version balance ∈ s.asked) :
    (s.step handle (.done (.writeBalance version balance) moment replies)).disk =
      (Visit.run ⟨handle.start, handle.store, moment, .setBalance (some version) balance⟩
        s.disk).2 := by
  obtain ⟨result, hcarry, -⟩ :=
    carryOut_writeBalance handle moment replies s.disk version balance
  rw [Situation.step, if_pos hmem, hcarry]

end Runs

/-! ## A round on a disk with one store -/

section Sample
open Store (sampleDisk sampleImage sampleVisit sampleWallet ten)

/-- A scheduler that has not begun anything, on a disk with one store. -/
def sampleSituation : Situation :=
  { disk := sampleDisk (sampleImage ten), scheduler := { panel := {} } }

/-- The handle of that scheduler. -/
def sampleHandle : Handle := ⟨"/", ⟨"data"⟩⟩

/-- What a ledger says that has another balance. -/
def sampleReplies : Replies where
  balance := .ok .nan
  history := .ok []
  overview := ⟨⟨true, none, none, .epoch⟩, ⟨true, none, none, .epoch⟩⟩

/-- What begins the round. -/
def sampleTick : List Happening := [.signal .epoch .refreshTick]

/-- The replies of the ledger reach the scheduler after its snapshot. -/
def sampleReturns (moment : Moment) : List Happening :=
  [.told .epoch 0, .done (.fetchBalance "a1") moment sampleReplies, .told .epoch 0,
    .done (.fetchHistory "a1") moment sampleReplies, .told .epoch 0]

theorem place_sampleHandle : sampleHandle.place = ["data"] := Store.place_sampleVisit .snapshot

theorem snapshot_sampleSituation (moment : Moment) (replies : Replies) :
    sampleHandle.carryOut moment replies sampleSituation.disk .readSnapshot =
      (.snapshot (some (1, sampleWallet ten)), sampleSituation.disk) := by
  have hstored : Store.stored sampleSituation.disk ["data"] = some (sampleImage ten) :=
    Store.stored_sampleDisk Store.readsBack_ten
  rw [carryOut_readSnapshot, place_sampleHandle, hstored]
  rfl

theorem asks_sampleSituation :
    .readSnapshot ∈ (sampleSituation.run sampleHandle sampleTick).asked :=
  List.mem_singleton_self _

theorem writes_sampleSituation (moment : Moment) (u : Visit) :
    .writeBalance 1 .nan ∈ (((sampleSituation.run sampleHandle sampleTick).step sampleHandle
      (.done .readSnapshot moment sampleReplies)).run sampleHandle
        (.visit u :: sampleReturns moment)).asked := by
  have hdisk : (sampleSituation.run sampleHandle sampleTick).disk = sampleSituation.disk := rfl
  rw [Situation.step, if_pos asks_sampleSituation, hdisk, snapshot_sampleSituation]
  exact List.mem_singleton_self _

theorem visitsOf_sampleReturns (moment : Moment) (u : Visit) :
    visitsOf (.visit u :: sampleReturns moment) = [u] := rfl

theorem changesWallet_sample {disk : Disk} (h : Store.Stable disk ["data"] (sampleImage ten)) :
    (sampleVisit (.setBalance none (.zero false))).changesWallet disk = true := by
  rw [Visit.changesWallet, Store.outcome_sampleVisit _ h, Store.place_sampleVisit, h.stored]
  rfl

end Sample

/-- A change of the wallet is never overwritten by an update that is based on an older snapshot, until
the counter of versions has come round. The update may be that of any handle after any calls of
others, or that of a scheduler's round: whatever happens in whatever order after the snapshot of the
round was taken, the balance of the round is refused if the wallet was changed meanwhile. -/
theorem newer_change_survives :
    (∀ (disk : Disk) (place : Disk.Path) (snap u cas : Visit) (before behind : List Visit)
      (version : UInt64) (w : Wallet) (balance : Binary64),
      (∀ v ∈ snap :: cas :: (before ++ u :: behind), v.place = place) →
      snap.call = .snapshot →
      (snap.run disk).1 = .ok (.snapshot (some (version, w))) →
      u.changesWallet (Visit.after (snap.run disk).2 before) = true →
      changes (snap.run disk).2 (before ++ u :: behind) < UInt64.size →
      cas.call = .setBalance (some version) balance →
      IsRefusedAsStale version cas (Visit.after (snap.run disk).2 (before ++ u :: behind))) ∧
    (∀ (handle : Handle) (fresh : Situation) (earlier before behind : List Happening) (u : Visit)
      (moment moment' : Moment) (replies replies' : Replies) (version : UInt64)
      (balance : Binary64),
      IsFresh fresh →
      .readSnapshot ∈ (fresh.run handle earlier).asked →
      let taken := (fresh.run handle earlier).step handle (.done .readSnapshot moment replies)
      let later := taken.run handle (before ++ .visit u :: behind)
      (∀ happening ∈ before ++ .visit u :: behind, happening.readsSnapshot = false) →
      (∀ v ∈ visitsOf (before ++ .visit u :: behind), v.place = handle.place) →
      u.changesWallet (taken.run handle before).disk = true →
      changes taken.disk (visitsOf (before ++ .visit u :: behind)) < UInt64.size →
      .writeBalance version balance ∈ later.asked →
      IsRefusedAsStale version
        ⟨handle.start, handle.store, moment', .setBalance (some version) balance⟩ later.disk ∧
      (later.step handle (.done (.writeBalance version balance) moment' replies')).disk.find
        (imageAt handle.place) = later.disk.find (imageAt handle.place)) := by
  constructor
  · intro disk place snap u cas before behind version w balance hplace hsnap hanswer hu hsize hcas
    obtain ⟨hsnapPlace, hrest⟩ := List.forall_mem_cons.mp hplace
    obtain ⟨hcasPlace, hvisits⟩ := List.forall_mem_cons.mp hrest
    obtain ⟨i, hi, rfl, -⟩ := Store.stored_of_snapshot hsnap hanswer
    exact Store.isRefusedAsStale_after hvisits hcasPlace (hsnapPlace ▸ hi) hcas
      (Store.changes_pos hu) hsize
  · intro handle fresh earlier before behind u moment moment' replies replies' version balance
      hfresh hread taken later hnone hplace hu hsize hwrite
    -- The version that the round writes on is the one that was stored when its snapshot was taken.
    have horderly := orderly_of_isFresh handle hfresh earlier
    have hwriteAll : .writeBalance version balance ∈
        (taken.run handle ((before ++ .visit u :: behind) ++ [])).asked := by
      rwa [List.append_nil]
    obtain ⟨hbefore, i, hi, hversion⟩ :=
      base_of_writing horderly moment replies hread hnone hwrite
    obtain ⟨hlater, -⟩ :=
      base_of_writing horderly moment replies hread (by simpa using hnone) hwriteAll
    subst hversion
    have htaken : taken.disk = (fresh.run handle earlier).disk := disk_step rfl
    have hvisits : visitsOf (before ++ .visit u :: behind) =
        visitsOf before ++ u :: visitsOf behind := List.filterMap_append
    have hpos : 0 < changes (fresh.run handle earlier).disk
        (visitsOf (before ++ .visit u :: behind)) := by
      rw [hvisits]
      exact Store.changes_pos (hbefore ▸ hu)
    rw [htaken] at hsize
    have hrefused : IsRefusedAsStale i.version
        ⟨handle.start, handle.store, moment', .setBalance (some i.version) balance⟩ later.disk := by
      rw [show later.disk = _ from hlater]
      exact Store.isRefusedAsStale_after hplace rfl hi rfl hpos hsize
    refine ⟨hrefused, ?_⟩
    rw [disk_write moment' replies' hwrite]
    exact hrefused.untouched

/-- The balance that others have written since the snapshot stays, whoever comes too late. -/
theorem newer_balance_survives_sample :
    IsRefusedAsStale 1 (Store.sampleVisit (.setBalance (some 1) .nan))
      (Visit.after ((Store.sampleVisit .snapshot).run
          (Store.sampleDisk (Store.sampleImage Store.ten))).2
        [Store.sampleVisit (.setBalance none (.zero false))]) ∧
    ∀ moment : Moment,
      let later := ((sampleSituation.run sampleHandle sampleTick).step sampleHandle
        (.done .readSnapshot moment sampleReplies)).run sampleHandle
          (.visit (Store.sampleVisit (.setBalance none (.zero false))) :: sampleReturns moment)
      (later.step sampleHandle (.done (.writeBalance 1 .nan) moment sampleReplies)).disk.find
        (imageAt sampleHandle.place) = later.disk.find (imageAt sampleHandle.place) := by
  have hstart := Store.stable_sampleDisk Store.readsBack_ten
  refine ⟨newer_change_survives.1 _ ["data"] (Store.sampleVisit .snapshot)
    (Store.sampleVisit (.setBalance none (.zero false))) _ [] [] 1 (Store.sampleWallet Store.ten)
    .nan ?_ rfl ?_ ?_ (Nat.lt_of_le_of_lt (Store.changes_le_length _ _) (by decide)) rfl,
    fun moment => ?_⟩
  · exact List.forall_mem_cons.mpr ⟨Store.place_sampleVisit _, List.forall_mem_cons.mpr
      ⟨Store.place_sampleVisit _, List.forall_mem_singleton.mpr (Store.place_sampleVisit _)⟩⟩
  · rw [Store.outcome_sampleVisit _ hstart]
    rfl
  · rw [Store.after_nil]
    exact changesWallet_sample (Store.stable_sampleVisit _ hstart trivial)
  · have hdisk : ((sampleSituation.run sampleHandle sampleTick).step sampleHandle
        (.done .readSnapshot moment sampleReplies)).disk = sampleSituation.disk := disk_step rfl
    refine (newer_change_survives.2 sampleHandle sampleSituation sampleTick [] _ _ moment moment
      sampleReplies sampleReplies 1 .nan ⟨rfl, rfl, rfl, rfl⟩ asks_sampleSituation ?_ ?_ ?_
      (Nat.lt_of_le_of_lt (Store.changes_le_length _ _) ?_) (writes_sampleSituation moment _)).2
    · rintro happening hmem
      simp only [List.nil_append, sampleReturns, List.mem_cons, List.not_mem_nil, or_false] at hmem
      rcases hmem with rfl | rfl | rfl | rfl | rfl | rfl <;> rfl
    · rw [List.nil_append, visitsOf_sampleReturns]
      exact List.forall_mem_singleton.mpr rfl
    · exact changesWallet_sample (hdisk.symm ▸ hstart)
    · rw [List.nil_append, visitsOf_sampleReturns]
      decide

end WalletEngine.Polling

namespace WalletEngine.Store

/-- An update to an equal balance succeeds and goes unseen: an update that is based on a snapshot from
before it succeeds as well, and replaces the balance. -/
theorem equal_update_unseen :
    ((sampleVisit .snapshot).run (sampleDisk (sampleImage ten))).1 =
      .ok (.snapshot (some (1, sampleWallet ten))) ∧
    ((sampleVisit (.setBalance none ten)).run
      (Visit.after (sampleDisk (sampleImage ten)) [sampleVisit .snapshot])).1 = .ok (.updated 1) ∧
    ((sampleVisit (.setBalance (some 1) (.zero false))).run
      (Visit.after (sampleDisk (sampleImage ten))
        [sampleVisit .snapshot, sampleVisit (.setBalance none ten)])).1 = .ok (.updated 2) ∧
    stored (Visit.after (sampleDisk (sampleImage ten))
        [sampleVisit .snapshot, sampleVisit (.setBalance none ten),
          sampleVisit (.setBalance (some 1) (.zero false))]) ["data"] =
      some ⟨2, some (sampleWallet (.zero false)), none⟩ := by
  have hstart := stable_sampleDisk readsBack_ten
  have hsnap := stable_sampleVisit .snapshot hstart trivial
  have hequal := stable_sampleVisit (.setBalance none ten) hsnap readsBack_ten
  have hcas := stable_sampleVisit (.setBalance (some 1) (.zero false)) hequal readsBack_zero
  refine ⟨?_, ?_, ?_, ?_⟩
  · rw [outcome_sampleVisit _ hstart]
    rfl
  · rw [after_cons, after_nil, outcome_sampleVisit _ hsnap]
    rfl
  · rw [after_cons, after_cons, after_nil, outcome_sampleVisit _ hequal]
    rfl
  · rw [after_cons, after_cons, after_cons, after_nil]
    exact hcas.stored

end WalletEngine.Store
