import WalletEngine.Crew.Surroundings
import WalletEngine.Proofs.Polling.Passes

/-! # The lamps of a panel

The lamps show the overview that was shown last. A wallet round lights none of them; it puts the
lamp of the node out if it is short of a balance or a history. Mostly that is because the ledger
did not tell them, but not always: the round is also short of a balance if somebody else has
changed the wallet meanwhile and it cannot be read again.
-/

namespace WalletEngine.Polling

open Scheduler Steps

/-! ## What a round shows -/

/-- At this incident a round shows what one of its passes has found. -/
structure Shows (handle : Handle) (start : Situation) (incidents : List Incident) (i : Incident)
    (f : Findings) : Prop where
  publishes : (start.undergo handle incidents).Publishes handle i
  yields : ∃ before since a, incidents = before ++ since ∧ Pass handle start before since a ∧
    (a.told ((start.undergo handle incidents).hears? i)).Yields f

section Shows
variable {handle : Handle} {start s : Situation} {before since incidents : List Incident}
  {a : Account} {i : Incident} {f : Findings}

theorem Pass.panel_of_publishes (hstart : SingleFlight start)
    (h : Pass handle start before since a)
    (hshows : (start.undergo handle (before ++ since)).Publishes handle i) :
    ∃ now f, (a.told ((start.undergo handle (before ++ since)).hears? i)).Yields f ∧
      ((start.undergo handle (before ++ since)).meet handle i).scheduler.panel =
        (start.undergo handle (before ++ since)).scheduler.panel.showFindings f now := by
  obtain ⟨now, event, f, -, -, hyields, hpanel⟩ :=
    (h.meets hstart i).shows hshows.1 hshows.2
  exact ⟨now, f, hyields, hpanel⟩

theorem Shows.panel (hstart : SingleFlight start) (h : Shows handle start incidents i f) :
    ∃ now, ((start.undergo handle incidents).meet handle i).scheduler.panel =
      (start.undergo handle incidents).scheduler.panel.showFindings f now := by
  obtain ⟨before, since, a, rfl, hpass, hyields⟩ := h.yields
  obtain ⟨now, g, hg, hpanel⟩ := hpass.panel_of_publishes hstart h.publishes
  exact ⟨now, hg.unique hyields ▸ hpanel⟩

theorem exists_shows (hstart : SingleFlight start) (hidle : start.scheduler.stage = none)
    (hshows : (start.undergo handle incidents).Publishes handle i) :
    ∃ f, Shows handle start incidents i f := by
  obtain ⟨before, since, a, rfl, hpass⟩ :=
    exists_pass hstart hidle (round_of_publishes hstart hshows)
  obtain ⟨-, f, hyields, -⟩ := hpass.panel_of_publishes hstart hshows
  exact ⟨f, hshows, before, since, a, rfl, hpass, hyields⟩

/-- What is shown stays but for overviews and what rounds show. -/
theorem panel_meet (hstart : SingleFlight start) (hidle : start.scheduler.stage = none)
    (hother : ∀ now o, (start.undergo handle incidents).hears? i ≠ some (now, .overview o))
    (hnot : ¬(start.undergo handle incidents).Publishes handle i) :
    ((start.undergo handle incidents).meet handle i).scheduler.panel =
      (start.undergo handle incidents).scheduler.panel := by
  obtain ⟨a, hmeets⟩ := meets_of_run handle hstart hidle incidents i
  rcases hmeets.panel hother with ⟨hkept, -⟩ | ⟨-, -, -, -, -, -, -, hshown⟩
  · exact hkept
  · exact absurd ⟨hshown, hother⟩ hnot

end Shows

/-! ## What explains the lamps -/

/-- A scheduler that was just started with a handle, showing what its store has cached. -/
def Situation.opened (handle : Handle) (moment : Moment) (disk : Disk) : Situation :=
  .started disk
    ((Crew.Poller.firstPanel (moment.host handle.start) handle.store).run disk).run.1

/-- The overview that a store has cached, if it can be read. -/
def Handle.cached (handle : Handle) (disk : Disk) : Option Liveness.Overview :=
  (Store.stored disk handle.place).bind (·.health)

/-- The overview that was shown last, or the cached one, where none was shown since the incidents
`before`. -/
inductive ShownLast (handle : Handle) (start : Situation) (cached : Option Liveness.Overview) :
    List Incident → List Incident → Option Liveness.Overview → Prop
  | cached : ShownLast handle start cached [] [] cached
  | shown {earlier : List Incident} {i : Incident} {now : Time.Instant} {o : Liveness.Overview}
      (hhears : (start.undergo handle earlier).hears? i = some (now, .overview o)) :
      ShownLast handle start cached (earlier ++ [i]) [] (some o)
  | goesOn {before since : List Incident} {last : Option Liveness.Overview} {i : Incident}
      (h : ShownLast handle start cached before since last)
      (hother : ∀ now o,
        (start.undergo handle (before ++ since)).hears? i ≠ some (now, .overview o)) :
      ShownLast handle start cached before (since ++ [i]) last

/-- A part is missing from what a round has shown at some incident among those `since`. -/
def LackedSince (handle : Handle) (start : Situation) (before since : List Incident) : Prop :=
  ∃ part i, part ++ [i] <+: since ∧ ∃ f, Shows handle start (before ++ part) i f ∧
    (f.balance = none ∨ f.history = none)

section Explained
variable {handle : Handle} {start : Situation} {cached last : Option Liveness.Overview}
  {before since incidents : List Incident} {i : Incident}

theorem panel_opened (handle : Handle) (moment : Moment) (disk : Disk) :
    (Situation.opened handle moment disk).scheduler.panel =
      .start ((Store.stored disk handle.place).bind (·.wallet)) (handle.cached disk) := by
  have hpanel : (Situation.opened handle moment disk).scheduler.panel =
      .start (outcome (handle.store.load (moment.host handle.start)) disk).1.toOption.join
        (outcome (handle.store.health (moment.host handle.start))
          (outcome (handle.store.load (moment.host handle.start)) disk).2).1.toOption.join := by
    rw [Situation.opened, Crew.Poller.firstPanel]
    generalize handle.store.load (moment.host handle.start) = load
    generalize handle.store.health (moment.host handle.start) = health
    rfl
  simp only [hpanel, Store.load, Store.health, bind_pure_comp, Store.disk_of_reading,
    Store.toOption_of_reading, Handle.cached, Handle.place]
  cases Store.stored disk (Store.placeFrom handle.start handle.store) <;> rfl

theorem exists_shownLast (handle : Handle) (start : Situation)
    (cached : Option Liveness.Overview) (incidents : List Incident) :
    ∃ before since last, incidents = before ++ since ∧
      ShownLast handle start cached before since last := by
  induction incidents using List.reverseRecOn with
  | nil => exact ⟨[], [], cached, rfl, .cached⟩
  | append_singleton incidents i ih =>
      by_cases hhears : ∃ now o, (start.undergo handle incidents).hears? i = some (now, .overview o)
      · obtain ⟨now, o, hhears⟩ := hhears
        exact ⟨incidents ++ [i], [], some o, (List.append_nil _).symm, .shown hhears⟩
      · obtain ⟨before, since, last, rfl, hlast⟩ := ih
        refine ⟨before, since ++ [i], last, List.append_assoc .., hlast.goesOn ?_⟩
        exact fun now o h => hhears ⟨now, o, h⟩

theorem not_lackedSince_nil : ¬LackedSince handle start before [] := by
  rintro ⟨part, i, hfront, -⟩
  simp at hfront

theorem lackedSince_snoc : LackedSince handle start before (since ++ [i]) ↔
    LackedSince handle start before since ∨
      ∃ f, Shows handle start (before ++ since) i f ∧ (f.balance = none ∨ f.history = none) :=
  exists_front_snoc

/-- An overview is shown as it is. -/
theorem panel_of_overview {s : Situation} {now : Time.Instant} {o : Liveness.Overview}
    (hhears : s.hears? i = some (now, .overview o)) :
    (s.meet handle i).scheduler.panel = s.scheduler.panel.showOverview o := by
  rw [Situation.scheduler_meet, hhears]
  rfl

/-- The lamps after a round has shown something. -/
theorem Shows.lamps {f : Findings} (hstart : SingleFlight start)
    (h : Shows handle start incidents i f) :
    let before := (start.undergo handle incidents).scheduler.panel
    let after := ((start.undergo handle incidents).meet handle i).scheduler.panel
    after.simulatorConnected = before.simulatorConnected ∧
      (after.nodeConnected = true ↔
        before.nodeConnected = true ∧ ¬(f.balance = none ∨ f.history = none)) := by
  intro before after
  obtain ⟨now, hpanel⟩ := h.panel hstart
  have hafter : after = _ := hpanel
  rw [hafter, Panel.showFindings]
  refine ⟨rfl, ?_⟩
  rw [Bool.and_assoc, Bool.and_eq_true_iff, Bool.and_eq_true_iff, Option.isSome_iff_ne_none,
    Option.isSome_iff_ne_none, not_or]

theorem ShownLast.lamps (hstart : SingleFlight start) (hidle : start.scheduler.stage = none)
    (hsimulator : start.scheduler.panel.simulatorConnected = cached.any (·.simulator.connected))
    (hnode : start.scheduler.panel.nodeConnected = cached.any (·.node.connected))
    (h : ShownLast handle start cached before since last) :
    let panel := (start.undergo handle (before ++ since)).scheduler.panel
    panel.simulatorConnected = last.any (·.simulator.connected) ∧
      (panel.nodeConnected = true ↔
        last.any (·.node.connected) = true ∧ ¬LackedSince handle start before since) := by
  induction h with
  | cached =>
      exact ⟨hsimulator, by simp [not_lackedSince_nil, Situation.undergo, hnode]⟩
  | shown hhears =>
      rw [List.append_nil, Situation.undergo_snoc, panel_of_overview hhears]
      exact ⟨rfl, by simp [not_lackedSince_nil, Panel.showOverview]⟩
  | @goesOn before since last i _ hother ih =>
      rw [← List.append_assoc, Situation.undergo_snoc, lackedSince_snoc]
      by_cases hshows : (start.undergo handle (before ++ since)).Publishes handle i
      · obtain ⟨f, hf⟩ := exists_shows hstart hidle hshows
        obtain ⟨hkept, hlamp⟩ := hf.lamps hstart
        refine ⟨hkept.trans ih.1, ?_⟩
        rw [hlamp, ih.2]
        constructor
        · rintro ⟨hbefore, hwhole⟩
          refine ⟨hbefore.1, ?_⟩
          rintro (hlacked | ⟨g, hg, hmissing⟩)
          · exact hbefore.2 hlacked
          · have hlit := hlamp.mpr ⟨ih.2.mpr hbefore, hwhole⟩
            exact ((hg.lamps hstart).2.mp hlit).2 hmissing
        · rintro ⟨hlast, hnever⟩
          exact ⟨⟨hlast, fun hlacked => hnever (.inl hlacked)⟩,
            fun hmissing => hnever (.inr ⟨f, hf, hmissing⟩)⟩
      · rw [panel_meet hstart hidle hother hshows]
        refine ⟨ih.1, ih.2.trans ?_⟩
        have hnone : ¬∃ f, Shows handle start (before ++ since) i f ∧
            (f.balance = none ∨ f.history = none) := fun ⟨f, hf, _⟩ => hshows hf.publishes
        rw [or_iff_left hnone]

end Explained

/-- Whatever happens to a scheduler in whatever order, its lamps are explained by the overview that
was shown last, which is the cached one at first: the lamp of the simulator shows what this
overview says, and the lamp of the node is lit exactly if this overview says so and no round has
shown anything since then that lacked a balance or a history. A round lights no lamp. -/
theorem lamps_explained (handle : Handle) (moment : Moment) (disk : Disk)
    (incidents : List Incident) :
    let start := Situation.opened handle moment disk
    let s := start.undergo handle incidents
    (∃ before since last, incidents = before ++ since ∧
      ShownLast handle start (handle.cached disk) before since last) ∧
    (∀ before since last, incidents = before ++ since →
      ShownLast handle start (handle.cached disk) before since last →
      s.scheduler.panel.simulatorConnected = last.any (·.simulator.connected) ∧
      (s.scheduler.panel.nodeConnected = true ↔
        last.any (·.node.connected) = true ∧ ¬LackedSince handle start before since)) ∧
    ∀ i, s.Publishes handle i →
      (s.meet handle i).scheduler.panel.simulatorConnected =
        s.scheduler.panel.simulatorConnected ∧
      ((s.meet handle i).scheduler.panel.nodeConnected = true →
        s.scheduler.panel.nodeConnected = true) := by
  intro start s
  have hstart : SingleFlight start := singleFlight_started _ _
  have hpanel : start.scheduler.panel = _ := panel_opened handle moment disk
  refine ⟨exists_shownLast .., ?_, ?_⟩
  · rintro before since last rfl hlast
    refine hlast.lamps hstart rfl ?_ ?_
    · rw [hpanel]
      cases handle.cached disk <;> rfl
    · rw [hpanel]
      cases handle.cached disk <;> rfl
  · intro i hshows
    obtain ⟨f, hf⟩ := exists_shows hstart rfl hshows
    obtain ⟨hkept, hlamp⟩ := hf.lamps hstart
    exact ⟨hkept, fun hlit => (hlamp.mp hlit).1⟩

/-! ## Whom a round blames -/

namespace Account

/-- The ledger did not tell the balance, or did not tell the history. -/
def LedgerFailed (a : Account) : Prop :=
  (∃ fault, a.balance = some (.error fault)) ∨ ∃ fault, a.history = some (.error fault)

/-- Somebody else had changed the wallet, and it could not be read again. -/
def WalletLost (a : Account) : Prop := a.Conflicts ∧ a.reloaded = some none

/-- The lamp of the node goes out if the ledger has failed, and stays as it was otherwise. -/
structure BlamesLedgerOnly (a : Account) (lit after : Bool) : Prop where
  failed : a.LedgerFailed → after = false
  spared : ¬a.LedgerFailed → after = lit

/-- A pass is short of nothing unless the ledger has failed or the wallet is lost. -/
theorem Yields.whole_iff {a : Account} {f : Findings} (h : a.Yields f) :
    (f.balance.isSome && f.history.isSome) = true ↔ ¬a.LedgerFailed ∧ ¬a.WalletLost := by
  have hhistory (entries : Except Ledger.Fault (List Transfer.HistoryEntry)) :
      entries.toOption.isSome = true ↔ ∀ fault, entries ≠ .error fault := by
    cases entries <;> simp [Except.toOption]
  cases h with
  | withheld _ hbalance =>
      simp only [Option.isSome_none, Bool.false_and, Bool.false_eq_true, false_iff]
      exact fun hno => hno.1 (.inl ⟨_, hbalance⟩)
  | fetched _ hbalance hentries _ hconflict =>
      simp [LedgerFailed, WalletLost, hbalance, hentries, hconflict, hhistory]
  | @overtaken _ _ _ _ now _ hbalance hentries hconflict hreloaded =>
      cases now <;>
        simp [LedgerFailed, WalletLost, hbalance, hentries, hconflict, hreloaded, hhistory]

end Account

/-- A round that waits for the wallet to be read again has both balance and history. -/
theorem Knows.not_ledgerFailed {address : String} {entries : List Transfer.HistoryEntry}
    {a : Account} (h : Knows (.reloading address (some entries)) a) (wallet : Option Wallet) :
    ¬(a.hear (.reloaded wallet)).LedgerFailed := by
  generalize hstage : Stage.reloading address (some entries) = stage at h
  cases h with
  | @reloading _ _ _ _ _ outcome =>
      obtain ⟨-, hentries⟩ := Stage.reloading.inj hstage
      rintro (⟨fault, ⟨⟩⟩ | ⟨fault, hfault⟩)
      cases hfault
      cases hentries
  | _ => cases hstage

/-- Whatever others do to the disk during a round that shows something, the lamp of the node is lit
afterwards exactly if it was lit before, the ledger has told both balance and history, and the
wallet could be read again if somebody else had changed it. So the round blames the ledger only,
unless the lamp was lit, the ledger has told both, and yet the wallet was lost. -/
theorem lamp_after_round_iff (handle : Handle) (disk : Disk) (panel : Panel)
    (incidents : List Incident) (i : Incident) :
    let start := Situation.started disk panel
    let s := start.undergo handle incidents
    let lit := s.scheduler.panel.nodeConnected
    let after := (s.meet handle i).scheduler.panel.nodeConnected
    s.Publishes handle i →
      (∃ before since known, incidents = before ++ since ∧ Pass handle start before since known) ∧
      ∀ before since known, incidents = before ++ since → Pass handle start before since known →
        let a := known.told (s.hears? i)
        (after = true ↔ lit = true ∧ ¬a.LedgerFailed ∧ ¬a.WalletLost) ∧
        (a.BlamesLedgerOnly lit after ↔ ¬(lit = true ∧ ¬a.LedgerFailed ∧ a.WalletLost)) := by
  intro start s lit after hshows
  have hstart : SingleFlight start := singleFlight_started disk panel
  refine ⟨?_, ?_⟩
  · obtain ⟨before, since, a, hsplit, hpass⟩ :=
      exists_pass hstart rfl (round_of_publishes hstart hshows)
    exact ⟨before, since, a, hsplit, hpass⟩
  · rintro before since known rfl hpass a
    obtain ⟨now, f, hyields, hpanel⟩ := hpass.panel_of_publishes hstart hshows
    have hafter : after = true ↔ lit = true ∧ ¬a.LedgerFailed ∧ ¬a.WalletLost := by
      rw [← hyields.whole_iff, show after = _ from congrArg Panel.nodeConnected hpanel,
        Panel.showFindings, Bool.and_assoc, Bool.and_eq_true_iff]
    refine ⟨hafter, ?_⟩
    constructor
    · rintro hblames ⟨hlit, hledger, hlost⟩
      exact (hafter.mp ((hblames.spared hledger).trans hlit)).2.2 hlost
    · intro hnot
      refine ⟨fun hledger => ?_, fun hledger => ?_⟩
      · exact Bool.eq_false_iff.mpr fun hlamp => (hafter.mp hlamp).2.1 hledger
      · rw [Bool.eq_iff_iff, hafter]
        exact ⟨fun h => h.1, fun hlit => ⟨hlit, hledger, fun hlost => hnot ⟨hlit, hledger, hlost⟩⟩⟩

section Sample

/-- The round shows what it has found. -/
theorem publishes_emptiedRound :
    (litSituation.undergo sampleHandle emptiedRound).Publishes sampleHandle
      (.usual (.told .epoch 0)) := by
  rw [undergo_emptiedRound]
  refine ⟨rfl, ?_⟩
  rintro now o ⟨⟩

theorem lit_emptiedRound :
    (litSituation.undergo sampleHandle emptiedRound).scheduler.panel.nodeConnected = true := by
  rw [undergo_emptiedRound]
  rfl

theorem out_emptiedRound : ((litSituation.undergo sampleHandle emptiedRound).meet sampleHandle
    (.usual (.told .epoch 0))).scheduler.panel.nodeConnected = false := by
  rw [undergo_emptiedRound]
  rfl

/-- What has put the lamp out is that the wallet was lost. -/
theorem lamp_after_round_sample :
    (litSituation.undergo sampleHandle emptiedRound).Publishes sampleHandle
      (.usual (.told .epoch 0)) ∧
    ∃ before since known, emptiedRound = before ++ since ∧
      Pass sampleHandle litSituation before since known ∧
      (known.told ((litSituation.undergo sampleHandle emptiedRound).hears?
        (.usual (.told .epoch 0)))).WalletLost := by
  obtain ⟨before, since, known, hsplit, hpass, hknows⟩ := pass_emptiedRound
  have hledger : ¬(known.told ((litSituation.undergo sampleHandle emptiedRound).hears?
      (.usual (.told .epoch 0)))).LedgerFailed := by
    rw [undergo_emptiedRound]
    exact hknows.not_ledgerFailed none
  refine ⟨publishes_emptiedRound, before, since, known, hsplit, hpass, ?_⟩
  obtain ⟨hlamp, -⟩ := (lamp_after_round_iff sampleHandle _ _ emptiedRound _
    publishes_emptiedRound).2 before since known hsplit hpass
  by_contra hlost
  have hlit := hlamp.mpr ⟨lit_emptiedRound, hledger, hlost⟩
  cases hlit.symm.trans out_emptiedRound

/-- The ledger has told both balance and history, and yet the lamp of the node goes out. -/
theorem lamp_out_for_lost_wallet :
    let s := litSituation.undergo sampleHandle emptiedRound
    let i := Incident.usual (.told .epoch 0)
    s.Publishes sampleHandle i ∧ s.scheduler.panel.nodeConnected = true ∧
      (s.meet sampleHandle i).scheduler.panel.nodeConnected = false ∧
      ∃ before since known, emptiedRound = before ++ since ∧
        Pass sampleHandle litSituation before since known ∧
        ¬(known.told (s.hears? i)).LedgerFailed := by
  obtain ⟨before, since, known, hsplit, hpass, hknows⟩ := pass_emptiedRound
  refine ⟨publishes_emptiedRound, lit_emptiedRound, out_emptiedRound, before, since, known, hsplit,
    hpass, ?_⟩
  rw [undergo_emptiedRound]
  exact hknows.not_ledgerFailed none

end Sample

end WalletEngine.Polling
