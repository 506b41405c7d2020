import WalletEngine.Relay.Coordinator
import WalletEngine.Proofs.Signing
import WalletEngine.Proofs.Store.Readability

/-! # Who gets a signature

Of all messages that the coordinator can be given, exactly the requests to sign a transfer are
answered with a signature that the owner approves, whose amount is allowed and whose sender is the
stored wallet. The signature is the one of that wallet for that transfer.
-/

namespace WalletEngine.Relay

open Steps

/-- What is said of success, of a signature and of an error fits together. -/
structure SignatureResult.IsConsistent (r : SignatureResult) : Prop where
  success : r.success = true ↔ r.signature.isSome = true
  error : r.signature.isSome = true ↔ r.error = none

/-- A transfer that the stored wallet at a place may sign, with its signature. -/
structure IsAuthorised (approver : Approver) (disk : Disk) (place : Disk.Path) (t : Transfer)
    (s : String) : Prop where
  approved : approver t = true
  finite : t.amount.isFinite = true
  positive : t.amount.isPositive = true
  wallet : ∃ w, Store.storedWallet disk place = some w ∧ w.address = t.sender ∧
    s = Keyring.signature w.secret t.toJson

theorem SignatureResult.IsConsistent.eq_signed {r : SignatureResult} (h : r.IsConsistent)
    {s : String} (hsignature : r.signature = some s) : r = .signed s := by
  obtain ⟨success, signature, error⟩ := r
  cases hsignature
  cases h.success.mpr rfl
  cases h.error.mp rfl
  rfl

theorem isConsistent_signed (s : String) : (SignatureResult.signed s).IsConsistent :=
  ⟨by simp [SignatureResult.signed], by simp [SignatureResult.signed]⟩

theorem isConsistent_failed (e : String) : (SignatureResult.failed e).IsConsistent :=
  ⟨by simp [SignatureResult.failed], by simp [SignatureResult.failed]⟩

/-- A reply carries a signature if it is the outcome of a request for one, and has one. -/
theorem member?_signature (reply : Reply) :
    reply.toJson.member? "signature" = reply.signature?.map Json.string := by
  cases reply with
  | wallet status => rfl
  | health status =>
      obtain ⟨connected, status, error⟩ := status
      cases status <;> cases error <;> rfl
  | signature result =>
      obtain ⟨success, signature, error⟩ := result
      cases signature <;> cases error <;> rfl
  | error reply => rfl

section Coordinator
variable (moment : Moment) (start : String) (store : Store) (approver : Approver) (disk : Disk)

/-- The coordinator of a process on a disk. -/
def coordinatorOn : Coordinator (StateM Disk) :=
  { host := moment.host start, store, approver }

/-- What is told of an outcome of signing. -/
def SignatureResult.ofOutcome : Except Fault String → SignatureResult
  | .ok s => .signed s
  | .error fault => .failed fault.message

theorem run_sign_of_approved {t : Transfer} {result : Except Fault String}
    (happroved : approver t = true)
    (h : outcome (Signing.sign (moment.host start) store t) disk = (result, disk)) :
    ((coordinatorOn moment start store approver).sign t).run disk = (.ofOutcome result, disk) := by
  change (Signing.sign (moment.host start) store t).run.run disk = (result, disk) at h
  simp only [Coordinator.sign, coordinatorOn, happroved, Bool.not_true, Bool.false_eq_true,
    if_false, StateT.run_bind, h]
  cases result <;> rfl

theorem run_sign_of_denied {t : Transfer} (hdenied : approver t = false) :
    ((coordinatorOn moment start store approver).sign t).run disk =
      (.failed Fault.rejected.message, disk) := by
  simp only [Coordinator.sign, coordinatorOn, hdenied]
  rfl

theorem isConsistent_ofOutcome (result : Except Fault String) :
    (SignatureResult.ofOutcome result).IsConsistent := by
  cases result with
  | ok s => exact isConsistent_signed s
  | error fault => exact isConsistent_failed _

theorem signature_ofOutcome_iff {result : Except Fault String} {s : String} :
    (SignatureResult.ofOutcome result).signature = some s ↔ result = .ok s := by
  cases result <;> simp [SignatureResult.ofOutcome, SignatureResult.signed, SignatureResult.failed]

/-- A request for a signature gets one exactly if it is authorised, and leaves the disk as it was. -/
theorem sign_spec (t : Transfer) : ∃ result,
    ((coordinatorOn moment start store approver).sign t).run disk = (result, disk) ∧
      result.IsConsistent ∧ ∀ s, result.signature = some s ↔
        IsAuthorised approver disk (Store.placeFrom start store) t s := by
  -- Without approval nothing is read at all.
  cases happroved : approver t with
  | false =>
      refine ⟨_, run_sign_of_denied moment start store approver disk happroved,
        isConsistent_failed _, fun s => ⟨by rintro ⟨⟩, fun h => ?_⟩⟩
      cases happroved.symm.trans h.approved
  | true =>
      obtain ⟨result, hrun, hresult⟩ := Signing.sign_spec moment start store disk t
      refine ⟨_, run_sign_of_approved moment start store approver disk happroved hrun,
        isConsistent_ofOutcome result, fun s => ?_⟩
      rw [signature_ofOutcome_iff, hresult]
      exact ⟨fun ⟨hfinite, hpositive, hwallet⟩ => ⟨happroved, hfinite, hpositive, hwallet⟩,
        fun h => ⟨h.finite, h.positive, h.wallet⟩⟩

/-! ## Requests and messages -/

theorem handle_of_answered {request : Request} {reply : Reply} {later : Disk}
    (probe : Liveness.Service → StateM Disk Liveness.Report)
    (h : ((coordinatorOn moment start store approver).begin request).run disk =
      (.answered reply, later)) :
    ((coordinatorOn moment start store approver).handle probe request).run disk =
      (reply, later) := by
  rw [Coordinator.handle, run_bind_of_run h]
  rfl

theorem handle_of_probing {request : Request} {service : Liveness.Service} {later : Disk}
    (probe : Liveness.Service → StateM Disk Liveness.Report)
    (h : ((coordinatorOn moment start store approver).begin request).run disk =
      (.probing service, later)) :
    (((coordinatorOn moment start store approver).handle probe request).run disk).1 =
      .ofReport ((probe service).run later).1 := by
  rw [Coordinator.handle, run_bind_of_run h]
  rfl

theorem begin_walletStatus : ∃ reply later,
    ((coordinatorOn moment start store approver).begin .walletStatus).run disk =
      (.answered reply, later) ∧ ∀ result, reply ≠ .signature result := by
  rcases hload : (store.load (moment.host start)).run.run disk with ⟨fault | wallet, later⟩
  · refine ⟨.error ⟨fault.message⟩, later, ?_, fun _ => Reply.noConfusion⟩
    change ((store.load (moment.host start)).run >>= _).run disk = _
    rw [run_bind_of_run hload]
    rfl
  · refine ⟨.wallet (.of wallet), later, ?_, fun _ => Reply.noConfusion⟩
    change ((store.load (moment.host start)).run >>= _).run disk = _
    rw [run_bind_of_run hload]
    rfl

/-- What comes of signing is answered at once. -/
theorem begin_of_sign {t : Transfer} {result : SignatureResult}
    (h : ((coordinatorOn moment start store approver).sign t).run disk = (result, disk)) :
    ((coordinatorOn moment start store approver).begin (.sign t)).run disk =
      (.answered (.signature result), disk) := by
  rw [Coordinator.begin, run_bind_of_run h]
  rfl

theorem begin_sign (t : Transfer) : ∃ result,
    ((coordinatorOn moment start store approver).begin (.sign t)).run disk =
      (.answered (.signature result), disk) ∧ result.IsConsistent ∧
        ∀ s, result.signature = some s ↔
          IsAuthorised approver disk (Store.placeFrom start store) t s := by
  obtain ⟨result, hrun, hresult⟩ := sign_spec moment start store approver disk t
  exact ⟨result, begin_of_sign moment start store approver disk hrun, hresult⟩

/-- A request of another kind is answered neither with a signature nor with the lack of one. -/
theorem handle_of_not_sign {request : Request} (h : request.kind ≠ .sign)
    (probe : Liveness.Service → StateM Disk Liveness.Report) (result : SignatureResult) :
    (((coordinatorOn moment start store approver).handle probe request).run disk).1 ≠
      .signature result := by
  cases request with
  | sign t => exact absurd rfl h
  | walletStatus =>
      obtain ⟨reply, later, hbegin, hreply⟩ := begin_walletStatus moment start store approver disk
      rw [handle_of_answered moment start store approver disk probe hbegin]
      exact hreply result
  | nodeHealth =>
      rw [handle_of_probing moment start store approver disk probe rfl]
      exact Reply.noConfusion
  | simulatorHealth =>
      rw [handle_of_probing moment start store approver disk probe rfl]
      exact Reply.noConfusion

/-- The reply to a request for a signature. -/
theorem handle_sign (probe : Liveness.Service → StateM Disk Liveness.Report) (t : Transfer) :
    ∃ result, ((coordinatorOn moment start store approver).handle probe (.sign t)).run disk =
      (.signature result, disk) ∧ result.IsConsistent ∧
        ∀ s, result.signature = some s ↔
          IsAuthorised approver disk (Store.placeFrom start store) t s := by
  obtain ⟨result, hbegin, hresult⟩ := begin_sign moment start store approver disk t
  exact ⟨result, handle_of_answered moment start store approver disk probe hbegin, hresult⟩

theorem isConsistent_of_handle {probe : Liveness.Service → StateM Disk Liveness.Report}
    {request : Request} {result : SignatureResult}
    (h : (((coordinatorOn moment start store approver).handle probe request).run disk).1 =
      .signature result) : result.IsConsistent := by
  by_cases hkind : request.kind = .sign
  · cases request with
    | sign t =>
        obtain ⟨made, hrun, hmade, -⟩ := handle_sign moment start store approver disk probe t
        rw [hrun] at h
        cases h
        exact hmade
    | _ => cases hkind
  · exact absurd h (handle_of_not_sign moment start store approver disk hkind probe result)

variable (probe : Liveness.Service → StateM Disk Liveness.Report)

/-- What is replied to a request. -/
def replyTo (request : Request) : Reply :=
  (((coordinatorOn moment start store approver).handle probe request).run disk).1

/-- A request for a signature is answered with what signing comes to, if the owner approves. -/
theorem replyTo_of_outcome_sign {t : Transfer} {result : Except Fault String}
    (h : outcome (Signing.sign (moment.host start) store t) disk = (result, disk)) :
    replyTo moment start store approver disk probe (.sign t) = .signature
      (if approver t then .ofOutcome result else .failed Fault.rejected.message) := by
  have hsign : ((coordinatorOn moment start store approver).sign t).run disk =
      (if approver t then .ofOutcome result else .failed Fault.rejected.message, disk) := by
    cases happroved : approver t with
    | true => exact run_sign_of_approved moment start store approver disk happroved h
    | false => exact run_sign_of_denied moment start store approver disk happroved
  rw [replyTo, handle_of_answered moment start store approver disk probe
    (begin_of_sign moment start store approver disk hsign)]

/-- What is replied to a message. -/
def replyToMessage (message : Json) : Reply :=
  (((coordinatorOn moment start store approver).handleMessage probe message).run disk).1

theorem replyToMessage_of_ok {message : Json} {request : Request}
    (h : Request.ofMessage message = .ok request) :
    replyToMessage moment start store approver disk probe message =
      replyTo moment start store approver disk probe request := by
  rw [replyToMessage, Coordinator.handleMessage, h, replyTo]

theorem replyToMessage_of_error {message : Json} {refusal : Refusal}
    (h : Request.ofMessage message = .error refusal) :
    replyToMessage moment start store approver disk probe message = .error ⟨refusal.message⟩ := by
  rw [replyToMessage, Coordinator.handleMessage, h]
  rfl

theorem signature?_of_not_sign {request : Request} (h : request.kind ≠ .sign) :
    (replyTo moment start store approver disk probe request).signature? = none := by
  cases hreply : replyTo moment start store approver disk probe request with
  | signature result =>
      exact absurd hreply (handle_of_not_sign moment start store approver disk h probe result)
  | _ => rfl

theorem signature?_of_sign (t : Transfer) (s : String) :
    (replyTo moment start store approver disk probe (.sign t)).signature? = some s ↔
      IsAuthorised approver disk (Store.placeFrom start store) t s := by
  obtain ⟨result, hrun, -, hresult⟩ := handle_sign moment start store approver disk probe t
  rw [replyTo, hrun]
  exact hresult s

theorem signature?_of_message (message : Json) (s : String) :
    (replyToMessage moment start store approver disk probe message).signature? = some s ↔
      ∃ t, Request.ofMessage message = .ok (.sign t) ∧
        IsAuthorised approver disk (Store.placeFrom start store) t s := by
  cases hmessage : Request.ofMessage message with
  | error refusal =>
      rw [replyToMessage_of_error moment start store approver disk probe hmessage]
      exact ⟨by rintro ⟨⟩, by rintro ⟨t, ⟨⟩, -⟩⟩
  | ok request =>
      rw [replyToMessage_of_ok moment start store approver disk probe hmessage]
      by_cases hkind : request.kind = .sign
      · cases request with
        | sign t =>
            rw [signature?_of_sign]
            constructor
            · exact fun h => ⟨t, rfl, h⟩
            · rintro ⟨t', ⟨⟩, h⟩
              exact h
        | _ => cases hkind
      · rw [signature?_of_not_sign moment start store approver disk probe hkind]
        refine ⟨by rintro ⟨⟩, ?_⟩
        rintro ⟨t, ⟨⟩, -⟩
        exact absurd rfl hkind

/-- The exact condition under which a message is answered with a signature, whatever is stored and
whatever the owner approves: it asks to sign a transfer, the owner approves of that transfer, its
amount is allowed, and the stored wallet is that of its sender. The signature is then the one of that
wallet for that transfer. What is replied about signing is consistent, and a request of another kind
is not answered with a signature. -/
theorem signature_iff_authorised :
    (∀ message s, (replyToMessage moment start store approver disk probe message).toJson.member?
        "signature" = some (.string s) ↔ ∃ t, Request.ofMessage message = .ok (.sign t) ∧
          IsAuthorised approver disk (Store.placeFrom start store) t s) ∧
    (∀ message result, replyToMessage moment start store approver disk probe message =
      .signature result → result.IsConsistent) ∧
    (∀ request result, replyTo moment start store approver disk probe request =
      .signature result → result.IsConsistent) ∧
    ∀ request : Request, request.kind ≠ .sign →
      (replyTo moment start store approver disk probe request).toJson.member? "signature" =
        none := by
  refine ⟨fun message s => ?_, fun message result h => ?_, fun request result h => ?_,
    fun request h => ?_⟩
  · rw [← signature?_of_message moment start store approver disk probe, member?_signature]
    simp
  · cases hmessage : Request.ofMessage message with
    | error refusal =>
        rw [replyToMessage_of_error moment start store approver disk probe hmessage] at h
        cases h
    | ok request =>
        rw [replyToMessage_of_ok moment start store approver disk probe hmessage] at h
        exact isConsistent_of_handle moment start store approver disk h
  · exact isConsistent_of_handle moment start store approver disk h
  · rw [member?_signature, signature?_of_not_sign moment start store approver disk probe h]
    rfl

end Coordinator

/-- A transfer of the sample wallet. -/
def sampleTransfer : Transfer :=
  { sender := "a1", recipient := "c3", amount := Store.ten, timestamp := 0, nonce := "n" }

/-- A disk with the sample wallet. -/
def walletDisk : Disk := Store.sampleDisk (Store.sampleImage (.zero false))

theorem storedWallet_walletDisk :
    Store.storedWallet walletDisk ["data"] = some (Store.sampleWallet (.zero false)) := by
  rw [Store.storedWallet, walletDisk, Store.stored_sampleDisk Store.readsBack_zero]
  rfl

theorem storedWallet_sampleStore :
    Store.storedWallet walletDisk (Store.placeFrom "/" ⟨"data"⟩) =
      some (Store.sampleWallet (.zero false)) := by
  rw [show Store.placeFrom "/" ⟨"data"⟩ = ["data"] from Store.place_sampleVisit .create]
  exact storedWallet_walletDisk

/-- The owner of the sample wallet gets a signature for a transfer, but no signature without one. -/
theorem signature_of_sampleTransfer :
    Request.walletStatus.kind ≠ .sign ∧
    ∀ (moment : Moment) (probe : Liveness.Service → StateM Disk Liveness.Report),
      (replyToMessage moment "/" ⟨"data"⟩ (fun _ => true) walletDisk probe
        (Request.sign sampleTransfer).toJson).toJson.member? "signature" =
          some (.string (Keyring.signature Store.sampleSecret sampleTransfer.toJson)) ∧
      (replyTo moment "/" ⟨"data"⟩ (fun _ => true) walletDisk probe
        .walletStatus).toJson.member? "signature" = none := by
  have hkind : Request.walletStatus.kind ≠ .sign := Kind.noConfusion
  refine ⟨hkind, fun moment probe => ?_⟩
  obtain ⟨hsigned, -, -, hother⟩ :=
    signature_iff_authorised moment "/" ⟨"data"⟩ (fun _ => true) walletDisk probe
  refine ⟨(hsigned _ _).mpr ⟨sampleTransfer, rfl, rfl, rfl, rfl, ?_⟩, hother _ hkind⟩
  refine ⟨Store.sampleWallet (.zero false), ?_, rfl, rfl⟩
  rw [show Store.placeFrom "/" ⟨"data"⟩ = ["data"] from Store.place_sampleVisit .create]
  exact storedWallet_walletDisk

end WalletEngine.Relay
