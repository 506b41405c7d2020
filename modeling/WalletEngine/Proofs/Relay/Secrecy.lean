import WalletEngine.Proofs.Relay.Signatures

/-! # What a reply tells of the secret

Two stores that differ in nothing but the secret of the wallet are told apart by the signature of a
transfer at most. All that is said besides is the same, also whether there is a signature and why there
is none, and a wallet is shown without its secret.
-/

namespace WalletEngine

open Steps

/-! ## Another secret -/

/-- The wallet with another secret. Nothing is derived anew. -/
def Wallet.withSecret (w : Wallet) (secret : Keyring.Secret) : Wallet := { w with secret }

/-- The image whose wallet, if there is one, has another secret. -/
def Store.Image.withSecret (i : Store.Image) (secret : Keyring.Secret) : Store.Image :=
  { i with wallet := i.wallet.map (·.withSecret secret) }

/-- The view of a wallet does not depend on its secret. -/
theorem Wallet.view_withSecret (w : Wallet) (secret : Keyring.Secret) :
    (w.withSecret secret).view = w.view := rfl

theorem Wallet.shown_withSecret (w : Wallet) (secret : Keyring.Secret) :
    (w.withSecret secret).shown = w.shown := rfl

/-! ## Signing -/

namespace Signing

/-- What signing comes to where this image is stored. -/
def onImage (i : Store.Image) (t : Transfer) : Except Fault String := do
  discard <| (Transfer.checkAmount t.amount).mapError Fault.invalidAmount
  match i.wallet with
  | some w => signWith w t
  | none => .error .noWallet

theorem outcome_sign {moment : Moment} {start : String} {store : Store} {disk : Disk}
    {i : Store.Image} (h : Store.stored disk (Store.placeFrom start store) = some i)
    (t : Transfer) : outcome (sign (moment.host start) store t) disk = (onImage i t, disk) := by
  have hload : outcome (Action.ofStore (store.load (moment.host start))) disk =
      (.ok i.wallet, disk) := by
    rw [Action.ofStore, outcome_adapt, Store.outcome_load moment h]
    rfl
  rw [sign, outcome_bind, outcome_discard_checkAmount, onImage]
  cases Transfer.checkAmount t.amount with
  | error fault => rfl
  | ok amount =>
      change outcome (loadWallet (moment.host start) store >>= _) disk = _
      rw [loadWallet, bind_assoc, outcome_bind_of_ok hload]
      cases i.wallet with
      | none => rfl
      | some w => exact outcome_lift_except _ _

/-- Another secret makes another signature, but it makes one in the same cases. -/
theorem signWith_withSecret (w : Wallet) (secret : Keyring.Secret) (t : Transfer) :
    (signWith (w.withSecret secret) t).map (fun _ => ()) = (signWith w t).map fun _ => () := by
  have haddress : (w.withSecret secret).address = w.address := rfl
  rw [signWith, signWith, haddress]
  split
  next => simp only [Except.map]
  next => simp only [Except.map]

theorem onImage_withSecret (i : Store.Image) (secret : Keyring.Secret) (t : Transfer) :
    (onImage (i.withSecret secret) t).map (fun _ => ()) = (onImage i t).map fun _ => () := by
  obtain ⟨version, wallet, health⟩ := i
  rw [onImage, onImage]
  cases discard ((Transfer.checkAmount t.amount).mapError Fault.invalidAmount) with
  | error fault => rfl
  | ok =>
      cases wallet with
      | none => rfl
      | some w => exact signWith_withSecret w secret t

end Signing

/-! ## Replies -/

namespace Relay

/-- A reply with its signature struck out. -/
def Reply.masked : Reply → Reply
  | .signature result => .signature { result with signature := result.signature.map fun _ => "" }
  | reply => reply

/-- What is told of a signature but the signature itself depends only on whether there is one and why
there is none. -/
theorem masked_ofOutcome {result result' : Except Fault String}
    (h : result'.map (fun _ => ()) = result.map fun _ => ()) :
    (Reply.signature (.ofOutcome result')).masked = (Reply.signature (.ofOutcome result)).masked := by
  cases result with
  | ok s =>
      cases result' with
      | ok s' => rfl
      | error fault => cases h
  | error fault =>
      cases result' with
      | ok s' => cases h
      | error fault' =>
          cases h
          rfl

/-- A way to probe services of which these are the outcomes. -/
def probing (outcomes : Liveness.Service → Except Ledger.Fault Liveness.Probe) (moment : Moment)
    (service : Liveness.Service) : StateM Disk Liveness.Report :=
  pure (.ofOutcome (outcomes service) moment.now)

/-- The reply about a service tells the outcome of the probe, not its time. -/
theorem ofReport_ofOutcome (outcome : Except Ledger.Fault Liveness.Probe)
    (now now' : Time.Instant) :
    Reply.ofReport (.ofOutcome outcome now') = Reply.ofReport (.ofOutcome outcome now) := by
  cases outcome <;> rfl

section Replies
variable {moment moment' : Moment} {start : String} {store : Store} {approver : Approver}
  {outcomes : Liveness.Service → Except Ledger.Fault Liveness.Probe} {disk disk' : Disk}
  {i : Store.Image}

theorem replyTo_walletStatus (probe : Liveness.Service → StateM Disk Liveness.Report)
    (h : Store.stored disk (Store.placeFrom start store) = some i) :
    replyTo moment start store approver disk probe .walletStatus = .wallet (.of i.wallet) := by
  have hload : (store.load (moment.host start)).run.run disk = (.ok i.wallet, disk) :=
    Store.outcome_load moment h
  have hbegin : ((coordinatorOn moment start store approver).begin .walletStatus).run disk =
      (.answered (.wallet (.of i.wallet)), disk) := by
    change ((store.load (moment.host start)).run >>= _).run disk = _
    rw [run_bind_of_run hload]
    rfl
  rw [replyTo, handle_of_answered moment start store approver disk probe hbegin]

theorem replyTo_sign (probe : Liveness.Service → StateM Disk Liveness.Report)
    (h : Store.stored disk (Store.placeFrom start store) = some i) (t : Transfer) :
    replyTo moment start store approver disk probe (.sign t) = .signature
      (if approver t then .ofOutcome (Signing.onImage i t)
        else .failed Fault.rejected.message) :=
  replyTo_of_outcome_sign moment start store approver disk probe (Signing.outcome_sign h t)

theorem replyTo_probe {request : Request} {service : Liveness.Service}
    (h : ∀ disk, ((coordinatorOn moment start store approver).begin request).run disk =
      (.probing service, disk)) (disk : Disk) :
    replyTo moment start store approver disk (probing outcomes moment) request =
      .ofReport (.ofOutcome (outcomes service) moment.now) :=
  handle_of_probing moment start store approver disk (probing outcomes moment) (h disk)

/-- Requests of other kinds are replied to without the secret. -/
theorem replyTo_withSecret {secret : Keyring.Secret}
    (h : Store.stored disk (Store.placeFrom start store) = some i)
    (h' : Store.stored disk' (Store.placeFrom start store) = some (i.withSecret secret))
    {request : Request} (hkind : request.kind ≠ .sign) :
    replyTo moment' start store approver disk' (probing outcomes moment') request =
      replyTo moment start store approver disk (probing outcomes moment) request := by
  cases request with
  | sign t => exact absurd rfl hkind
  | walletStatus =>
      rw [replyTo_walletStatus _ h, replyTo_walletStatus _ h']
      obtain ⟨version, wallet, health⟩ := i
      cases wallet <;> rfl
  | nodeHealth =>
      rw [replyTo_probe fun _ => rfl, replyTo_probe fun _ => rfl]
      exact ofReport_ofOutcome _ _ _
  | simulatorHealth =>
      rw [replyTo_probe fun _ => rfl, replyTo_probe fun _ => rfl]
      exact ofReport_ofOutcome _ _ _

/-- A request for a signature is replied to without the secret but for the signature. -/
theorem masked_replyTo_withSecret {secret : Keyring.Secret}
    (h : Store.stored disk (Store.placeFrom start store) = some i)
    (h' : Store.stored disk' (Store.placeFrom start store) = some (i.withSecret secret))
    (request : Request) :
    (replyTo moment' start store approver disk' (probing outcomes moment') request).masked =
      (replyTo moment start store approver disk (probing outcomes moment) request).masked := by
  by_cases hkind : request.kind = .sign
  · cases request with
    | sign t =>
        rw [replyTo_sign _ h, replyTo_sign _ h']
        cases approver t with
        | true => exact masked_ofOutcome (Signing.onImage_withSecret i secret t)
        | false => rfl
    | _ => cases hkind
  · rw [replyTo_withSecret h h' hkind]

end Replies

/-- The secret shows in signatures only. Whatever is stored, whatever the owner approves and whatever
the services answer, the replies on two disks whose stored images differ in the secret at most are the
same but for the string of the signature, and those to requests of other kinds are the same
altogether. This also holds of messages, which may be no requests. What is shown of a wallet, to others
or in a log, does not depend on its secret. -/
theorem secret_shows_in_signatures_only {moment moment' : Moment} {start : String} {store : Store}
    {disk disk' : Disk} {i : Store.Image} {secret : Keyring.Secret}
    (h : Store.stored disk (Store.placeFrom start store) = some i)
    (h' : Store.stored disk' (Store.placeFrom start store) = some (i.withSecret secret)) :
    (∀ (approver : Approver)
      (outcomes : Liveness.Service → Except Ledger.Fault Liveness.Probe),
      let reply := replyTo moment start store approver disk (probing outcomes moment)
      let reply' := replyTo moment' start store approver disk' (probing outcomes moment')
      let answer := replyToMessage moment start store approver disk (probing outcomes moment)
      let answer' := replyToMessage moment' start store approver disk' (probing outcomes moment')
      (∀ request : Request, request.kind ≠ .sign → reply' request = reply request) ∧
      (∀ request, (reply' request).masked = (reply request).masked) ∧
      (∀ message, (∀ t, Request.ofMessage message ≠ .ok (.sign t)) →
        answer' message = answer message) ∧
      ∀ message, (answer' message).masked = (answer message).masked) ∧
    ∀ w ∈ i.wallet, ∃ w' ∈ (i.withSecret secret).wallet, w'.secret = secret ∧
      w'.view = w.view ∧ w'.shown = w.shown := by
  refine ⟨fun approver outcomes => ⟨fun request => replyTo_withSecret h h',
    masked_replyTo_withSecret h h', fun message hmessage => ?_, fun message => ?_⟩, fun w hw => ?_⟩
  · cases hrequest : Request.ofMessage message with
    | error refusal =>
        rw [replyToMessage_of_error _ _ _ _ _ _ hrequest, replyToMessage_of_error _ _ _ _ _ _ hrequest]
    | ok request =>
        rw [replyToMessage_of_ok _ _ _ _ _ _ hrequest, replyToMessage_of_ok _ _ _ _ _ _ hrequest]
        refine replyTo_withSecret h h' fun hkind => ?_
        cases request with
        | sign t => exact hmessage t hrequest
        | _ => cases hkind
  · cases hrequest : Request.ofMessage message with
    | error refusal =>
        rw [replyToMessage_of_error _ _ _ _ _ _ hrequest, replyToMessage_of_error _ _ _ _ _ _ hrequest]
    | ok request =>
        rw [replyToMessage_of_ok _ _ _ _ _ _ hrequest, replyToMessage_of_ok _ _ _ _ _ _ hrequest]
        exact masked_replyTo_withSecret h h' request
  · refine ⟨w.withSecret secret, ?_, rfl, w.view_withSecret secret, w.shown_withSecret secret⟩
    rw [Store.Image.withSecret, Option.mem_def, Option.mem_def.mp hw]
    rfl

/-- Another secret than that of the sample wallet. -/
def otherSecret : Keyring.Secret := ⟨List.replicate 32 9, rfl⟩

/-- The disk with the sample wallet, but for its secret. -/
def otherDisk : Disk :=
  Store.sampleDisk ((Store.sampleImage (.zero false)).withSecret otherSecret)

theorem stored_otherDisk : Store.stored otherDisk ["data"] =
    some ((Store.sampleImage (.zero false)).withSecret otherSecret) :=
  Store.stored_of_readsBack rfl (by rintro w ⟨⟩; exact Store.readsBack_zero)

/-- The owner of either wallet is told the same, and is refused a signature for the same reason. -/
theorem secret_hidden_in_sample :
    let moment := (Store.sampleVisit .create).moment
    let probe := probing (fun _ => .error (.transport "")) moment
    let reply := replyTo moment "/" ⟨"data"⟩ (fun _ => true) walletDisk probe
    let reply' := replyTo moment "/" ⟨"data"⟩ (fun _ => true) otherDisk probe
    reply' .walletStatus = reply .walletStatus ∧ reply' .nodeHealth = reply .nodeHealth ∧
      (reply' (.sign sampleTransfer)).masked = (reply (.sign sampleTransfer)).masked := by
  have hplace : Store.placeFrom "/" ⟨"data"⟩ = ["data"] := Store.place_sampleVisit .create
  have h := Store.stored_sampleDisk Store.readsBack_zero
  have h' := stored_otherDisk
  rw [← hplace] at h h'
  obtain ⟨hother, hmasked, -⟩ := (secret_shows_in_signatures_only h h').1 (fun _ => true)
    fun _ => .error (.transport "")
  exact ⟨hother _ Kind.noConfusion, hother _ Kind.noConfusion, hmasked _⟩

end Relay
end WalletEngine
