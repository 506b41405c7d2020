import WalletEngine.Proofs.Relay.Obliging
import WalletEngine.Proofs.Surface.Sending
import WalletEngine.Surface.Page

/-! # Signing through a page

The coordinator tells a page of a signature or of a text, and the page knows a refusal by the owner from
its text. No other fault has that text, so what the page makes of a reply is what the owner would get by
signing directly: the same signature, or the text of the same fault.
-/

namespace WalletEngine

open Steps Relay

/-! ## The text of a refusal -/

/-- What a text starts with, it starts with whatever is added. -/
theorem starts_append {p : List Char} {s : String} (h : p <+: s.toList) (r : String) :
    p <+: (s ++ r).toList := by
  rw [String.toList_append]
  exact h.trans (List.prefix_append _ _)

/-- A text that starts in another way than the one of a refusal is not that text. -/
theorem ne_rejected_of_starts {p : List Char} {s : String} (h : p <+: s.toList)
    (hp : ¬p <+: Fault.rejected.message.toList) : s ≠ Fault.rejected.message := by
  rintro rfl
  exact hp h

theorem Keyring.Fault.message_ne_rejected (fault : Keyring.Fault) :
    fault.message ≠ WalletEngine.Fault.rejected.message := by
  cases fault with
  | notHex => exact ne_rejected_of_starts (p := ['i']) (starts_append (by decide) _) (by decide)
  | wrongLength =>
      refine ne_rejected_of_starts (p := ['i']) ?_ (by decide)
      exact starts_append (starts_append (starts_append (by decide) _) _) _
  | randomUnavailable =>
      exact ne_rejected_of_starts (p := ['r']) (starts_append (by decide) _) (by decide)

theorem Store.Fault.message_ne_rejected (fault : Store.Fault) :
    fault.message ≠ WalletEngine.Fault.rejected.message := by
  cases fault with
  | file =>
      refine ne_rejected_of_starts (p := ['s', 't']) ?_ (by decide)
      exact starts_append (starts_append (starts_append (starts_append (starts_append
        (by decide) _) _) _) _) _
  | unreadable =>
      exact ne_rejected_of_starts (p := ['s', 't']) (starts_append (by decide) _) (by decide)
  | conflict conflict =>
      cases conflict with
      | noWallet => decide
      | version =>
          refine ne_rejected_of_starts (p := ['v']) ?_ (by decide)
          exact starts_append (starts_append (starts_append (by decide) _) _) _
  | lock =>
      refine ne_rejected_of_starts (p := ['s', 't']) ?_ (by decide)
      exact starts_append (starts_append (starts_append (by decide) _) _) _
  | keyring fault => exact fault.message_ne_rejected

theorem Relay.Refusal.message_ne_rejected (refusal : Relay.Refusal) :
    refusal.message ≠ Fault.rejected.message := by
  cases refusal with
  | unsupported =>
      exact ne_rejected_of_starts (p := ['u']) (starts_append (by decide) _) (by decide)
  | malformed =>
      refine ne_rejected_of_starts (p := ['b']) ?_ (by decide)
      exact starts_append (starts_append (starts_append (by decide) _) _) _

/-- Only a refusal by the owner has the text of one, whatever texts a fault holds. -/
theorem Fault.message_eq_rejected_iff (fault : Fault) :
    fault.message = Fault.rejected.message ↔ fault = .rejected := by
  refine ⟨fun h => ?_, fun h => congrArg _ h⟩
  cases fault with
  | rejected => rfl
  | keyring fault => exact absurd h fault.message_ne_rejected
  | store fault => exact absurd h fault.message_ne_rejected
  | refused refusal => exact absurd h refusal.message_ne_rejected
  | unauthorized | missingRecipient | noWallet | closed => exact absurd h (by decide)
  | connectivity =>
      exact absurd h (ne_rejected_of_starts (p := ['c']) (starts_append (by decide) _) (by decide))
  | signing =>
      -- This text starts like the one of a refusal.
      refine absurd h (ne_rejected_of_starts (p := "signing f".toList) ?_ (by decide))
      exact starts_append (by decide) _
  | submission =>
      refine absurd h (ne_rejected_of_starts (p := ['s', 'u']) ?_ (by decide))
      exact starts_append (by decide) _
  | invalidAmount =>
      exact absurd h (ne_rejected_of_starts (p := ['i']) (starts_append (by decide) _) (by decide))
  | answered =>
      exact absurd h (ne_rejected_of_starts (p := ['b']) (starts_append (by decide) _) (by decide))

/-! ## Signing directly -/

/-- What signs does not ask the owner. -/
theorem Signing.ne_rejected_of_sign {σ : Type} {host : Host (StateM σ)} {store : Store}
    {t : Transfer} {st : σ} {fault : Fault}
    (h : (outcome (sign host store t) st).1 = .error fault) : fault ≠ .rejected := by
  intro hrejected
  subst hrejected
  rcases fault_of_bind h with hcheck | ⟨_, _, hthen⟩
  · rw [outcome_discard_checkAmount] at hcheck
    generalize Transfer.checkAmount t.amount = checked at hcheck
    cases checked with
    | ok amount => cases hcheck
    | error cause => cases hcheck
  rcases fault_of_bind hthen with hload | ⟨w, later, hsign⟩
  · rcases fault_of_loadWallet hload with ⟨cause, hstore⟩ | hnone
    · cases hstore
    · cases hnone
  · rw [outcome_lift_except, signWith] at hsign
    split at hsign
    next => cases hsign
    next => cases hsign

namespace Surface

/-! ## What a page makes of a reply -/

theorem signatureOf_failed (reason : String) :
    Page.signatureOf (.signature (.failed reason)) =
      .error (if reason = Fault.rejected.message then .rejected else .signing reason) := rfl

/-- What a page makes of the reply to a request to sign a transfer, from what comes of signing. -/
theorem signatureOf_ofOutcome {result : Except Fault String} (h : result ≠ .error .rejected) :
    Page.signatureOf (.signature (.ofOutcome result)) =
      result.mapError fun fault => .signing fault.message := by
  cases result with
  | ok s => rfl
  | error fault =>
      have hother : fault.message ≠ Fault.rejected.message := fun hsame =>
        h (congrArg Except.error (fault.message_eq_rejected_iff.mp hsame))
      rw [SignatureResult.ofOutcome, signatureOf_failed, if_neg hother]
      rfl

/-- A page that is connected makes of a transfer what its line replies. -/
theorem Page.outcome_sign {σ : Type} {p : Page (StateM σ)} {t : Transfer} {reply : Reply}
    {s later : σ} (address : String) (h : (p.line.request (.sign t)).run s = (some reply, later)) :
    outcome (p.sign (some address) t) s = (signatureOf reply, later) := by
  have hconnected : outcome (discard (Page.connected (m := StateM σ) (some address))) s =
      (.ok (), s) := rfl
  rw [Page.sign, outcome_bind_of_ok hconnected, outcome_bind_of_ok (Line.outcome_ask h)]
  exact outcome_lift_except _ _

/-! ## A page and the owner -/

/-- What a page gets, told from what the owner's own service gives and from the owner's will: a refusal
exactly without approval, and with it the same signature or the text of the same fault. -/
structure Refines (approved : Bool) (direct relayed : Except Fault String) : Prop where
  rejected : relayed = .error .rejected ↔ approved = false
  signed : approved = true → ∀ s, relayed = .ok s ↔ direct = .ok s
  failed : approved = true → ∀ fault, direct = .error fault →
    relayed = .error (.signing fault.message)

theorem refines_denied (direct : Except Fault String) : Refines false direct (.error .rejected) :=
  ⟨iff_of_true rfl rfl, nofun, nofun⟩

theorem refines_approved (direct : Except Fault String) :
    Refines true direct (direct.mapError fun fault => .signing fault.message) := by
  cases direct with
  | ok s => exact ⟨iff_of_false nofun nofun, fun _ _ => ⟨fun h => congrArg _ (Except.ok.inj h),
      fun h => congrArg _ (Except.ok.inj h)⟩, nofun⟩
  | error fault =>
      refine ⟨iff_of_false nofun nofun, fun _ _ => iff_of_false nofun nofun, ?_⟩
      rintro - _ ⟨⟩
      rfl

section Replies
variable (start : String) (store : Store)

/-- What a page makes of the reply to a request to sign a transfer. -/
theorem refines_replyTo (moment : Moment) (approver : Approver) (disk : Disk)
    (probe : Liveness.Service → StateM Disk Liveness.Report) (t : Transfer) :
    Refines (approver t) (outcome (Signing.sign (moment.host start) store t) disk).1
      (Page.signatureOf (replyTo moment start store approver disk probe (.sign t))) := by
  obtain ⟨direct, hdirect, -⟩ := Signing.sign_spec moment start store disk t
  rw [replyTo_of_outcome_sign moment start store approver disk probe hdirect, hdirect]
  cases approver t with
  | false =>
      rw [if_neg (by decide), signatureOf_failed, if_pos rfl]
      exact refines_denied direct
  | true =>
      have hother : direct ≠ .error .rejected := fun hrejected =>
        Signing.ne_rejected_of_sign ((congrArg Prod.fst hdirect).trans hrejected) rfl
      rw [if_pos rfl, signatureOf_ofOutcome hother]
      exact refines_approved direct

variable {start store} {office : Office}

/-- Signing through any page that is connected comes to what signing directly comes to. Whatever has
happened at the office, and whatever happens while the call is served, the page is refused exactly if
the owner does not approve of the transfer; otherwise it gets the signature that the owner's service
gives on the disk at that time, or its fault as a text. If nobody else comes in between, the owner and
the disk are those of the call. While its desk is open the office always can serve the call. -/
theorem page_sign_refines (hsound : Office.Sound start store office)
    (hopen : office.desk.isOpen = true) (host : Host (StateM Office)) (ledger : Ledger (StateM Office))
    (address : String) (t : Transfer) :
    (∀ schedule, office.Serves start store (.sign t) schedule →
      ∃ task ∈ (office.after start store (.sign t) schedule).tasks,
        task.call = ⟨office.made.length, .sign t⟩ ∧
        Refines (task.approver t)
          (outcome (Signing.sign (task.moment.host start) store t) task.disk).1
          (outcome (Page.sign ⟨host, Office.line start store schedule, ledger⟩ (some address) t)
            office).1 ∧
        ∀ approver, (∀ happening ∈ schedule, Office.Proceeds approver happening) →
          task.approver = approver ∧ task.disk = office.disk) ∧
    ∀ schedule, .close ∉ schedule → ∀ approver,
      ∃ more, (∀ happening ∈ more, Office.Proceeds approver happening) ∧
        office.Serves start store (.sign t) (schedule ++ more) := by
  refine ⟨fun schedule hserves => ?_, fun schedule hstays approver =>
    Office.exists_serves hsound hopen _ hstays approver⟩
  obtain ⟨task, reply, htask, hcall, ⟨reports, hreply⟩, hline⟩ :=
    Office.answered_of_serves hsound hopen hserves
  refine ⟨task, htask, hcall, ?_, fun approver hproceeds => ?_⟩
  · rw [hcall] at hreply
    rw [Page.outcome_sign address hline, hreply]
    exact refines_replyTo start store task.moment task.approver task.disk _ t
  · exact (Office.asked_run hproceeds task htask).resolve_left (hsound.notMem_tasks hcall)

end Replies

/-- At an office with the sample wallet a page gets the signature of the wallet if the owner approves of
everything, and is refused if the owner approves of nothing. -/
theorem page_sign_refines_sample :
    let office : Office := { disk := walletDisk }
    let schedule := Office.prompt (Store.sampleVisit .load).moment
    (Office.Sound "/" ⟨"data"⟩ office ∧ office.desk.isOpen = true ∧
      ∀ approver, office.Serves "/" ⟨"data"⟩ (.sign sampleTransfer) (schedule approver)) ∧
    ∀ (host : Host (StateM Office)) (ledger : Ledger (StateM Office)),
      let relayed approver := (outcome (Page.sign
        ⟨host, Office.line "/" ⟨"data"⟩ (schedule approver), ledger⟩ (some "a1") sampleTransfer)
          office).1
      relayed (fun _ => true) = .ok (Keyring.signature Store.sampleSecret sampleTransfer.toJson) ∧
        relayed (fun _ => false) = .error .rejected := by
  intro office schedule
  have hsound : Office.Sound "/" ⟨"data"⟩ office := Office.sound_opened walletDisk
  have hserves (approver : Approver) :
      office.Serves "/" ⟨"data"⟩ (.sign sampleTransfer) (schedule approver) := by
    obtain ⟨result, hbegin, -⟩ := begin_sign (Store.sampleVisit .load).moment "/" ⟨"data"⟩ approver
      walletDisk sampleTransfer
    exact Office.serves_prompt hbegin
  refine ⟨⟨hsound, rfl, hserves⟩, fun host ledger => ?_⟩
  obtain ⟨hserved, -⟩ := page_sign_refines hsound rfl host ledger "a1" sampleTransfer
  constructor
  · obtain ⟨task, -, -, hrefines, hsame⟩ := hserved _ (hserves fun _ => true)
    obtain ⟨happrover, hdisk⟩ := hsame _ (Office.proceeds_prompt _ _)
    rw [happrover, hdisk] at hrefines
    obtain ⟨direct, hdirect, hsigned⟩ :=
      Signing.sign_spec task.moment "/" ⟨"data"⟩ walletDisk sampleTransfer
    refine (hrefines.signed rfl _).mpr ((congrArg Prod.fst hdirect).trans ((hsigned _).mpr ?_))
    exact ⟨rfl, rfl, _, storedWallet_sampleStore, rfl, rfl⟩
  · obtain ⟨task, -, -, hrefines, hsame⟩ := hserved _ (hserves fun _ => false)
    obtain ⟨happrover, -⟩ := hsame _ (Office.proceeds_prompt _ _)
    rw [happrover] at hrefines
    exact hrefines.rejected.mpr rfl

end Surface
end WalletEngine
