import WalletEngine.Proofs.Surface.PageSigning

/-! # Two ways to send

The owner sends with a form, and a page sends through the coordinator. Where the page is connected to
the stored wallet and the owner approves of everything, both come to the same: the same record is handed
in once and answered alike, or nothing is handed in for the same fault.
-/

namespace WalletEngine

open Relay Steps

/-- A text that is a number is judged as that number. -/
theorem Transfer.readAmount_of_parse {typed : String} {amount : Binary64}
    (h : Decimal.Literal.parse? (Text.trim typed) = some amount) :
    readAmount typed = checkAmount amount := by
  have hnonempty : ¬(Text.trim typed).isEmpty = true := by
    intro hempty
    have hnone : Decimal.Literal.parse? "" = none := by decide +kernel
    rw [String.isEmpty_iff.mp hempty, hnone] at h
    cases h
  rw [readAmount, if_neg hnonempty, h]

namespace Surface

/-- A recipient and an amount for which a transfer can be made. -/
structure CanBeSent (typed : String) (amount : Binary64) : Prop where
  named : Text.trim typed ≠ ""
  finite : amount.isFinite = true
  positive : amount.isPositive = true

/-- What is asked to be sent, if it can be. -/
def wanted (typed : String) (amount : Binary64) : Except Fault (String × Binary64) :=
  if (Text.trim typed).isEmpty then .error .missingRecipient
  else ((Transfer.checkAmount amount).mapError Fault.invalidAmount).map (Text.trim typed, ·)

theorem wanted_of_canBeSent {typed : String} {amount : Binary64} (h : CanBeSent typed amount) :
    wanted typed amount = .ok (Text.trim typed, amount) := by
  rw [wanted, if_neg (mt String.isEmpty_iff.mp h.named),
    Transfer.checkAmount_eq_ok_iff.mpr ⟨rfl, h.finite, h.positive⟩]
  rfl

theorem wanted_of_not {typed : String} {amount : Binary64} (h : ¬CanBeSent typed amount) :
    ∃ fault, wanted typed amount = .error fault := by
  rw [wanted]
  split
  next => exact ⟨_, rfl⟩
  next hnamed =>
    cases hamount : Transfer.checkAmount amount with
    | error fault => exact ⟨_, rfl⟩
    | ok checked =>
        obtain ⟨-, hfinite, hpositive⟩ := Transfer.checkAmount_eq_ok_iff.mp hamount
        exact absurd ⟨mt String.isEmpty_iff.mpr hnamed, hfinite, hpositive⟩ h

theorem check_of_parse {typed raw : String} {amount : Binary64}
    (h : Decimal.Literal.parse? (Text.trim raw) = some amount) :
    SendForm.check ⟨typed, raw⟩ = wanted typed amount := by
  rw [SendForm.check_eq, Transfer.readAmount_of_parse h, wanted]

section Page
variable (machine : Host (StateM (Till Office))) (moment : Moment) (line : Line (StateM Office))
  (answer : SignedTransfer → Except Ledger.Fault Ledger.Receipt)
  (others : Ledger (StateM (Till Office)))

/-- A page beside an office. Of its machine it uses the clock and the nonces. -/
def page : Page (StateM (Till Office)) where
  host := { machine with
    millis := pure moment.millis
    freshNonce := pure moment.nonce }
  line := ⟨fun request => Till.inside (line.request request)⟩
  ledger := Till.ledger answer others

variable {till : Till Office} {address typed : String} {amount : Binary64}

theorem send_of_fault {fault : Fault} (h : wanted typed amount = .error fault) :
    outcome ((page machine moment line answer others).send (some address) typed amount) till =
      (.error fault, till) := by
  have hconnected : outcome (Page.connected (m := StateM (Till Office)) (some address)) till =
      (.ok address, till) := rfl
  rw [Page.send, outcome_bind_of_ok hconnected]
  rw [wanted] at h
  split at h
  next hempty =>
    cases h
    rw [if_pos hempty]
    exact outcome_bind_of_error rfl
  next hnamed =>
    rw [if_neg hnamed]
    cases hamount : Transfer.checkAmount amount with
    | ok checked =>
        rw [hamount] at h
        cases h
    | error cause =>
        rw [hamount] at h
        cases h
        refine outcome_bind_of_error ((Signing.outcome_checkAmount amount till).trans ?_)
        rw [hamount]
        rfl

theorem sign_of_signed (address : String) {t : Transfer} {signature : String} {later : Office}
    (hline : (line.request (.sign t)).run till.world =
      (some (.signature (.signed signature)), later)) :
    outcome ((page machine moment line answer others).sign (some address) t) till =
      (.ok signature, { till with world := later }) := by
  exact Page.outcome_sign (p := page machine moment line answer others) address
    (Till.run_inside hline)

/-- A page hands in a transfer that the coordinator signs. -/
theorem send_of_signed (till : Till Office) {t : Transfer} {signature : String} {later : Office}
    (h : CanBeSent typed amount) (ht : t = transferAt moment address (Text.trim typed) amount)
    (hline : (line.request (.sign t)).run till.world =
      (some (.signature (.signed signature)), later)) :
    outcome ((page machine moment line answer others).send (some address) typed amount) till =
      ((answer (t.signed signature)).mapError .submission,
        { till with world := later, submitted := till.submitted ++ [t.signed signature] }) := by
  subst ht
  have hconnected : outcome (Page.connected (m := StateM (Till Office)) (some address)) till =
      (.ok address, till) := rfl
  have hnamed : ¬(Text.trim typed).isEmpty = true := mt String.isEmpty_iff.mp h.named
  have hcheck := Signing.outcome_checkAmount amount till
  rw [Transfer.checkAmount_eq_ok_iff.mpr ⟨rfl, h.finite, h.positive⟩] at hcheck
  have hsign := sign_of_signed machine moment line answer others address hline
  have hsubmit := Till.outcome_submit answer others
    ((transferAt moment address (Text.trim typed) amount).signed signature)
    { till with world := later }
  rw [Page.send, outcome_bind_of_ok hconnected, if_neg hnamed]
  refine (outcome_bind_of_ok hcheck).trans ((outcome_bind_of_ok hsign).trans ?_)
  refine (outcome_bind_of_ok hsubmit).trans ?_
  cases answer ((transferAt moment address (Text.trim typed) amount).signed signature) <;> rfl

end Page

section TwoWays
variable {start : String} {store : Store} {office : Office} {w : Wallet}

/-- The form of the owner and a page that is connected to the stored wallet come to the same, whatever
is typed, and whatever has happened at the office before. Their answers are equal. Either a transfer can
be made: then both hand in one record, the same, and answer what the ledger answers to it. Or none can
be made: then both fail before anything is handed in. For the page, the coordinator has to serve the
call that asks for the signature; while its desk is open it always can. -/
theorem two_ways_agree (hsound : Office.Sound start store office) (hopen : office.desk.isOpen = true)
    (hwallet : Store.storedWallet office.disk (Store.placeFrom start store) = some w)
    {raw : String} {amount : Binary64}
    (hread : Decimal.Literal.parse? (Text.trim raw) = some amount)
    (typed : String) (moment : Moment)
    (answer : SignedTransfer → Except Ledger.Fault Ledger.Receipt)
    (beside : Ledger (StateM (Till Disk))) (others : Ledger (StateM (Till Office)))
    (machine : Host (StateM (Till Office))) (triggered : Bool) (submitted : List SignedTransfer) :
    let record := recordAt moment w (Text.trim typed) amount
    let call := Request.sign record.unsigned
    (∀ schedule, (∀ happening ∈ schedule, Office.Obliges start store w happening) →
      (CanBeSent typed amount → office.Serves start store call schedule) →
      ∃ result left deskThen pageThen,
        ((desk moment start store answer beside triggered).submit ⟨typed, raw⟩).run
          { world := office.disk, submitted } = ((result, left), deskThen) ∧
        outcome ((page machine moment (Office.line start store schedule) answer others).send
          (some w.address) typed amount) { world := office, submitted } = (result, pageThen) ∧
        ((CanBeSent typed amount ∧ deskThen.submitted = submitted ++ [record] ∧
            pageThen.submitted = submitted ++ [record] ∧
            result = (answer record).mapError .submission) ∨
          ¬CanBeSent typed amount ∧ deskThen.submitted = submitted ∧
            pageThen.submitted = submitted ∧ ∃ fault, result = .error fault)) ∧
    ∀ schedule, (∀ happening ∈ schedule, Office.Obliges start store w happening) →
      .close ∉ schedule → ∃ more, (∀ happening ∈ more, Office.Obliges start store w happening) ∧
        office.Serves start store call (schedule ++ more) := by
  intro record call
  have hkeys : HasKeys start store w office.disk := ⟨w, hwallet, rfl, rfl⟩
  refine ⟨fun schedule hobliges hserves => ?_, fun schedule hobliges hstays => ?_⟩
  · by_cases hsent : CanBeSent typed amount
    · have hline := Office.signed_of_serves hsound hopen hkeys hobliges rfl hsent.finite
        hsent.positive (hserves hsent)
      have hpage := send_of_signed machine moment _ answer others { world := office, submitted }
        hsent rfl hline
      have hnames : SendForm.Names ⟨typed, raw⟩ (Text.trim typed) amount :=
        SendForm.check_eq_ok_iff.mp ((check_of_parse hread).trans (wanted_of_canBeSent hsent))
      have hhanded := handIn_of_names moment start store answer beside triggered
        { world := office.disk, submitted } hnames hwallet
      obtain ⟨left, refreshes, hdesk⟩ :=
        submit_of_handIn moment start store answer beside triggered hhanded
      exact ⟨_, _, _, _, hdesk, hpage, .inl ⟨hsent, rfl, rfl, rfl⟩⟩
    · obtain ⟨fault, hwanted⟩ := wanted_of_not hsent
      have hcheck := (check_of_parse hread).trans hwanted
      have hdesk := submit_of_error moment start store answer beside triggered
        (handIn_of_fault moment start store answer beside triggered hcheck
          { world := office.disk, submitted })
      exact ⟨_, _, _, _, hdesk, send_of_fault machine moment _ answer others hwanted,
        .inr ⟨hsent, rfl, rfl, fault, rfl⟩⟩
  · obtain ⟨more, hmore, hends⟩ := Office.exists_serves hsound hopen call hstays fun _ => true
    exact ⟨more, fun happening h => Office.obliges_of_proceeds (hmore happening h), hends⟩

/-- Ten is sent from the sample wallet, with a form and by a page. -/
theorem two_ways_agree_sample :
    let office : Office := { disk := walletDisk }
    let w := Store.sampleWallet (.zero false)
    let moment := (Store.sampleVisit .load).moment
    let record := recordAt moment w (Text.trim " c3") Store.ten
    let schedule := Office.prompt moment fun _ => true
    let answer : SignedTransfer → Except Ledger.Fault Ledger.Receipt := fun _ => .ok ⟨some "h"⟩
    (Office.Sound "/" ⟨"data"⟩ office ∧ office.desk.isOpen = true ∧
      Store.storedWallet office.disk (Store.placeFrom "/" ⟨"data"⟩) = some w ∧
      Decimal.Literal.parse? (Text.trim " 10 ") = some Store.ten) ∧
    ((∀ happening ∈ schedule, Office.Obliges "/" ⟨"data"⟩ w happening) ∧
      office.Serves "/" ⟨"data"⟩ (.sign record.unsigned) schedule) ∧
    ∀ beside others machine, ∃ left deskThen pageThen,
      ((desk moment "/" ⟨"data"⟩ answer beside true).submit ⟨" c3", " 10 "⟩).run
        { world := office.disk } = ((.ok ⟨some "h"⟩, left), deskThen) ∧
      outcome ((page machine moment (Office.line "/" ⟨"data"⟩ schedule) answer others).send
        (some w.address) " c3" Store.ten) { world := office } = (.ok ⟨some "h"⟩, pageThen) ∧
      deskThen.submitted = [record] ∧ pageThen.submitted = [record] := by
  intro office w moment record schedule answer
  have hsound : Office.Sound "/" ⟨"data"⟩ office := Office.sound_opened walletDisk
  have hwallet : Store.storedWallet office.disk (Store.placeFrom "/" ⟨"data"⟩) = some w :=
    storedWallet_sampleStore
  have hread : Decimal.Literal.parse? (Text.trim " 10 ") = some Store.ten := by decide +kernel
  have hobliges : ∀ happening ∈ schedule, Office.Obliges "/" ⟨"data"⟩ w happening :=
    Office.obliges_prompt moment fun _ => rfl
  have hserves : office.Serves "/" ⟨"data"⟩ (.sign record.unsigned) schedule := by
    obtain ⟨result, hbegin, -⟩ :=
      begin_sign moment "/" ⟨"data"⟩ (fun _ => true) walletDisk record.unsigned
    exact Office.serves_prompt hbegin
  refine ⟨⟨hsound, rfl, hwallet, hread⟩, ⟨hobliges, hserves⟩, fun beside others machine => ?_⟩
  obtain ⟨htwo, -⟩ :=
    two_ways_agree hsound rfl hwallet hread " c3" moment answer beside others machine true []
  obtain ⟨result, left, deskThen, pageThen, hdesk, hpage, hsame⟩ :=
    htwo schedule hobliges fun _ => hserves
  have hsent : CanBeSent " c3" Store.ten := ⟨by decide +kernel, rfl, rfl⟩
  rcases hsame with ⟨-, hdeskThen, hpageThen, rfl⟩ | ⟨hnot, -⟩
  · exact ⟨left, deskThen, pageThen, hdesk, hpage, hdeskThen, hpageThen⟩
  · exact absurd hsent hnot

end TwoWays

end Surface
end WalletEngine
