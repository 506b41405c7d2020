import WalletEngine.Proofs.Signing
import WalletEngine.Proofs.Text.Trimming
import WalletEngine.Surface.Page

/-! # What a page can do

A page calls what it likes, in any order, and neither the coordinator nor the ledger need keep to
anything. What the page does to them is written down, so that it can be said of every call: without a
session nothing is done, and with one only what is done for its address.
-/

namespace WalletEngine

namespace Surface
open Relay Steps

/-! ## The world outside -/

/-- What a page does to the world outside. -/
inductive Deed where
  /-- The coordinator is asked, and replies or is closed. -/
  | asked (request : Request) (reply : Option Reply)
  | probed (service : Liveness.Service)
  | balanced (address : String)
  | listed (address : String)
  | submitted (record : SignedTransfer)
  | funded (address : String) (amount : Binary64)
  deriving DecidableEq

/-- The state of the world outside, with what was done to it. -/
structure Watched (σ : Type) where
  outside : σ
  deeds : List Deed := []

variable {σ : Type}

/-- An action of the world outside, which is written down. -/
def watch {α : Type} (deed : α → List Deed) (x : StateM σ α) : StateM (Watched σ) α := fun w =>
  let (a, outside) := x.run w.outside
  (a, { outside, deeds := w.deeds ++ deed a })

theorem watch_spec {α : Type} (deed : α → List Deed) (x : StateM σ α) (w : Watched σ) :
    ∃ a outside, outcome (ε := Fault) (liftM (watch deed x)) w =
      (.ok a, ⟨outside, w.deeds ++ deed a⟩) :=
  ⟨_, _, rfl⟩

/-- The world outside a page, with a state of its own. It answers as it likes. -/
structure Outside (σ : Type) where
  millis : StateM σ Int64
  freshNonce : StateM σ String
  line : Line (StateM σ)
  ledger : Ledger (StateM σ)

/-- A page whose deeds are written down. Of its machine it uses the clock and the nonces. -/
def Outside.page (o : Outside σ) (machine : Host (StateM (Watched σ))) :
    Page (StateM (Watched σ)) where
  host := { machine with
    millis := watch (fun _ => []) o.millis
    freshNonce := watch (fun _ => []) o.freshNonce }
  line := ⟨fun request => watch (fun reply => [.asked request reply]) (o.line.request request)⟩
  ledger :=
    { health := fun service => watch (fun _ => [.probed service]) (o.ledger.health service)
      balance := fun address => watch (fun _ => [.balanced address]) (o.ledger.balance address)
      history := fun address => watch (fun _ => [.listed address]) (o.ledger.history address)
      submit := fun record => watch (fun _ => [.submitted record]) (o.ledger.submit record)
      faucet := fun address amount =>
        watch (fun _ => [.funded address amount]) (o.ledger.faucet address amount) }

/-! ## One call -/

/-- A transfer that is made of what a page asks to send. -/
structure IsBody (address typed : String) (amount : Binary64) (t : Transfer) : Prop where
  sender : t.sender = address
  recipient : t.recipient = Text.trim typed
  named : t.recipient ≠ ""
  amount : t.amount = amount
  finite : t.amount.isFinite = true
  positive : t.amount.isPositive = true

/-- A reply that gives a signature. -/
def granted (signature : String) (error : Option String) : Reply :=
  .signature { success := true, signature := some signature, error }

/-- The deeds of sending from an address, with the outcome. -/
inductive Sends (address recipient : String) (amount : Binary64) :
    List Deed → Except Fault Ledger.Receipt → Prop
  | refused (fault : Fault) : Sends address recipient amount [] (.error fault)
  | unsigned {t : Transfer} (reply : Option Reply) (fault : Fault)
      (hbody : IsBody address recipient amount t) :
      Sends address recipient amount [.asked (.sign t) reply] (.error fault)
  | submitted {t : Transfer} (signature : String) (error : Option String)
      (result : Except Fault Ledger.Receipt) (hbody : IsBody address recipient amount t) :
      Sends address recipient amount
        [.asked (.sign t) (some (granted signature error)), .submitted (t.signed signature)] result

/-- The session that a call leaves. -/
def sessionAfter (session : Session) : Page.Call → Except Fault Page.Answer → Session
  | .connect, .ok (.session connected) => connected
  | _, _ => session

/-- Whether a call is of use to a connected page only. -/
def needsSession : Page.Call → Bool
  | .connect | .address | .isConnected => false
  | .sign _ | .send .. | .balance => true

/-- The deeds of a call in a session, with its answer. -/
inductive Does (session : Session) : Page.Call → List Deed → Except Fault Page.Answer → Prop
  | connect (reply : Option Reply) (result : Except Fault Session) :
      Does session .connect [.asked .walletStatus reply] (result.map .session)
  | address : Does session .address [] (.ok (.session session))
  | isConnected : Does session .isConnected [] (.ok (.flag session.isSome))
  | unauthorized {call : Page.Call} (hneeds : needsSession call = true) (hnone : session = none) :
      Does session call [] (.error .unauthorized)
  | sign {address : String} (t : Transfer) (reply : Option Reply) (result : Except Fault String)
      (hsession : session = some address) :
      Does session (.sign t) [.asked (.sign t) reply] (result.map .signature)
  | send {address recipient : String} {amount : Binary64} {deeds : List Deed}
      {result : Except Fault Ledger.Receipt} (hsession : session = some address)
      (hsends : Sends address recipient amount deeds result) :
      Does session (.send recipient amount) deeds (result.map .receipt)
  | balance {address : String} (result : Except Fault Binary64)
      (hsession : session = some address) :
      Does session .balance [.balanced address] (result.map .balance)

section Calls
variable (o : Outside σ) (machine : Host (StateM (Watched σ))) (w : Watched σ)

/-- The reply of the coordinator as an outcome. -/
def replied (reply : Option Reply) : Except Fault Reply := reply.elim (.error .closed) .ok

theorem ask_spec (request : Request) : ∃ reply outside,
    outcome ((o.page machine).line.ask request) w =
      (replied reply, ⟨outside, w.deeds ++ [.asked request reply]⟩) := by
  obtain ⟨reply, outside, hwatched⟩ :=
    watch_spec (fun reply => [.asked request reply]) (o.line.request request) w
  refine ⟨reply, outside, ?_⟩
  refine (outcome_bind_of_ok hwatched).trans ?_
  cases reply <;> rfl

theorem connect_spec : ∃ reply result outside,
    outcome (o.page machine).connect w =
      (result, ⟨outside, w.deeds ++ [.asked .walletStatus reply]⟩) := by
  obtain ⟨reply, outside, hask⟩ := ask_spec o machine w .walletStatus
  rw [Page.connect, outcome_bind, hask]
  rcases reply with _ | (_ | _ | _ | _) <;> exact ⟨_, _, outside, rfl⟩

theorem sign_spec (address : String) (t : Transfer) : ∃ reply outside,
    outcome ((o.page machine).sign (some address) t) w =
      (replied reply >>= Page.signatureOf, ⟨outside, w.deeds ++ [.asked (.sign t) reply]⟩) := by
  obtain ⟨reply, outside, hask⟩ := ask_spec o machine w (.sign t)
  refine ⟨reply, outside, ?_⟩
  have hconnected : outcome (discard (Page.connected (m := StateM (Watched σ)) (some address))) w =
      (.ok (), w) := rfl
  rw [Page.sign, outcome_bind_of_ok hconnected, outcome_bind, hask]
  cases reply with
  | none => rfl
  | some reply => exact outcome_lift_except _ _

theorem signatureOf_eq_ok_iff {reply : Reply} {signature : String} :
    Page.signatureOf reply = .ok signature ↔ ∃ error, reply = granted signature error := by
  constructor
  · intro h
    rcases reply with _ | _ | ⟨_ | _, _ | s, error⟩ | _ <;> cases h
    exact ⟨error, rfl⟩
  · rintro ⟨error, rfl⟩
    rfl

/-- What is done with a transfer that was made of what a page typed. -/
theorem handIn_spec {address typed : String} {amount : Binary64} {t : Transfer}
    (hbody : IsBody address typed amount t) : ∃ deeds result outside,
    outcome (do
      let signature ← (o.page machine).sign (some address) t
      match ← (o.page machine).ledger.submit (t.signed signature) with
      | .ok receipt => return receipt
      | .error fault => throw (.submission fault)) w = (result, ⟨outside, w.deeds ++ deeds⟩) ∧
      Sends address typed amount deeds result := by
  obtain ⟨reply, outside, hsign⟩ := sign_spec o machine w address t
  cases hsigned : replied reply >>= Page.signatureOf with
  | error fault =>
      rw [hsigned] at hsign
      exact ⟨_, _, outside, outcome_bind_of_error hsign, .unsigned reply fault hbody⟩
  | ok signature =>
      rw [hsigned] at hsign
      have hreply : ∃ error, reply = some (granted signature error) := by
        cases reply with
        | none => cases hsigned
        | some reply =>
            obtain ⟨error, rfl⟩ := signatureOf_eq_ok_iff.mp hsigned
            exact ⟨error, rfl⟩
      obtain ⟨error, rfl⟩ := hreply
      obtain ⟨result, later, hsubmit⟩ := watch_spec (fun _ => [.submitted (t.signed signature)])
        (o.ledger.submit (t.signed signature))
        ⟨outside, w.deeds ++ [.asked (.sign t) (some (granted signature error))]⟩
      rw [List.append_assoc] at hsubmit
      refine ⟨_, result.mapError .submission, later, ?_, .submitted signature error _ hbody⟩
      refine (outcome_bind_of_ok hsign).trans ((outcome_bind_of_ok hsubmit).trans ?_)
      cases result <;> rfl

theorem send_spec (address typed : String) (amount : Binary64) : ∃ deeds result outside,
    outcome ((o.page machine).send (some address) typed amount) w =
      (result, ⟨outside, w.deeds ++ deeds⟩) ∧ Sends address typed amount deeds result := by
  have hconnected : outcome (Page.connected (m := StateM (Watched σ)) (some address)) w =
      (.ok address, w) := rfl
  have hcheck := Signing.outcome_checkAmount amount w
  rw [Page.send, outcome_bind_of_ok hconnected]
  by_cases hnamed : (Text.trim typed).isEmpty
  · rw [if_pos hnamed]
    refine ⟨[], .error .missingRecipient, w.outside, ?_, .refused _⟩
    rw [List.append_nil]
    exact outcome_bind_of_error rfl
  rw [if_neg hnamed]
  cases hamount : Transfer.checkAmount amount with
  | error fault =>
      rw [hamount] at hcheck
      refine ⟨[], .error (.invalidAmount fault), w.outside, ?_, .refused _⟩
      rw [List.append_nil]
      exact outcome_bind_of_error hcheck
  | ok checked =>
      rw [hamount] at hcheck
      obtain ⟨rfl, hfinite, hpositive⟩ := Transfer.checkAmount_eq_ok_iff.mp hamount
      obtain ⟨millis, before, hmillis⟩ := watch_spec (fun _ => []) o.millis w
      obtain ⟨nonce, later, hnonce⟩ :=
        watch_spec (fun _ => []) o.freshNonce ⟨before, w.deeds ++ []⟩
      simp only [List.append_nil] at hmillis hnonce
      have hbody : IsBody address typed checked
          { sender := address, recipient := Text.trim typed, amount := checked,
            timestamp := millis, nonce } :=
        ⟨rfl, rfl, by simpa using hnamed, rfl, hfinite, hpositive⟩
      obtain ⟨deeds, result, outside, hrun, hsends⟩ :=
        handIn_spec o machine ⟨later, w.deeds⟩ hbody
      refine ⟨deeds, result, outside, ?_, hsends⟩
      exact (outcome_bind_of_ok hcheck).trans
        ((outcome_bind_of_ok hmillis).trans ((outcome_bind_of_ok hnonce).trans hrun))

theorem balance_spec (address : String) : ∃ result outside,
    outcome ((o.page machine).balance (some address)) w =
      (result, ⟨outside, w.deeds ++ [.balanced address]⟩) := by
  have hconnected : outcome (Page.connected (m := StateM (Watched σ)) (some address)) w =
      (.ok address, w) := rfl
  obtain ⟨result, outside, hwatched⟩ :=
    watch_spec (fun _ => [.balanced address]) (o.ledger.balance address) w
  refine ⟨result.mapError .connectivity, outside, ?_⟩
  refine (outcome_bind_of_ok hconnected).trans ((outcome_bind_of_ok hwatched).trans ?_)
  cases result <;> rfl

/-- An action in a session that is answered, and that keeps the session. -/
theorem run_keeping {α : Type} (session : Session) (answer : α → Page.Answer)
    {x : Action (StateM (Watched σ)) α} {result : Except Fault α} {later : Watched σ}
    (h : outcome x w = (result, later)) :
    (do return ((← x.run).map answer, session) :
      StateM (Watched σ) (Except Fault Page.Answer × Session)).run w =
        ((result.map answer, session), later) := by
  change x.run.run w = (result, later) at h
  rw [run_bind_of_run h]
  rfl

/-- Without a session, an action that begins with asking for it does nothing. -/
theorem step_unauthorized {call : Page.Call} (hneeds : needsSession call = true) :
    ((o.page machine).step none call).run w = ((.error .unauthorized, none), w) := by
  cases call with
  | connect | address | isConnected => cases hneeds
  | sign _ | send _ _ | balance => rfl

/-- What a call does in a session, whatever the world outside answers. -/
theorem step_spec (session : Session) (call : Page.Call) : ∃ deeds answer outside,
    ((o.page machine).step session call).run w =
      ((answer, sessionAfter session call answer), ⟨outside, w.deeds ++ deeds⟩) ∧
    Does session call deeds answer := by
  by_cases hnone : needsSession call = true ∧ session = none
  · obtain ⟨hneeds, rfl⟩ := hnone
    refine ⟨[], .error .unauthorized, w.outside, ?_, .unauthorized hneeds rfl⟩
    rw [step_unauthorized o machine w hneeds, List.append_nil]
    cases call <;> rfl
  cases call with
  | connect =>
      obtain ⟨reply, result, outside, hconnect⟩ := connect_spec o machine w
      change ((o.page machine).connect.run).run w = _ at hconnect
      refine ⟨_, _, outside, ?_, .connect reply result⟩
      rw [Page.step, run_bind_of_run hconnect]
      cases result <;> rfl
  | address => exact ⟨[], _, w.outside, by rw [List.append_nil]; rfl, .address⟩
  | isConnected => exact ⟨[], _, w.outside, by rw [List.append_nil]; rfl, .isConnected⟩
  | sign t =>
      obtain ⟨address, hsession⟩ := Option.ne_none_iff_exists'.mp fun h => hnone ⟨rfl, h⟩
      obtain ⟨reply, outside, hsign⟩ := sign_spec o machine w address t
      refine ⟨_, _, outside, ?_, .sign t reply (replied reply >>= Page.signatureOf) hsession⟩
      rw [← hsession] at hsign
      exact run_keeping w session .signature hsign
  | send typed amount =>
      obtain ⟨address, hsession⟩ := Option.ne_none_iff_exists'.mp fun h => hnone ⟨rfl, h⟩
      obtain ⟨deeds, result, outside, hsend, hsends⟩ := send_spec o machine w address typed amount
      refine ⟨_, _, outside, ?_, .send hsession hsends⟩
      rw [← hsession] at hsend
      exact run_keeping w session .receipt hsend
  | balance =>
      obtain ⟨address, hsession⟩ := Option.ne_none_iff_exists'.mp fun h => hnone ⟨rfl, h⟩
      obtain ⟨result, outside, hbalance⟩ := balance_spec o machine w address
      refine ⟨_, _, outside, ?_, .balance result hsession⟩
      rw [← hsession] at hbalance
      exact run_keeping w session .balance hbalance

end Calls

/-! ## Many calls -/

/-- A call in a session, with its answer and what it did to the world outside. -/
structure Visit where
  session : Session
  call : Page.Call
  answer : Except Fault Page.Answer
  deeds : List Deed

/-- The calls of a page from a session on, one after the other, and the session that they leave. -/
def Outside.visits (o : Outside σ) (machine : Host (StateM (Watched σ))) :
    Session → σ → List Page.Call → List Visit × Session
  | session, _, [] => ([], session)
  | session, outside, call :: rest =>
    let ((answer, next), later) := ((o.page machine).step session call).run { outside }
    let (visits, last) := o.visits machine next later.outside rest
    ({ session, call, answer, deeds := later.deeds } :: visits, last)

/-- The session that a visit has brought, if it is a connection that succeeded. -/
def Visit.connection? (v : Visit) : Option Session :=
  match v.call, v.answer with
  | .connect, .ok (.session session) => some session
  | _, _ => none

/-- The session that the last successful connection has brought; without one, that from before. -/
def sessionBehind (session : Session) (visits : List Visit) : Session :=
  (visits.filterMap Visit.connection?).getLast?.getD session

/-- A transfer that is handed in during a visit, after some deeds and before others. -/
structure IsMandated (v : Visit) (before : List Deed) (r : SignedTransfer) (behind : List Deed) :
    Prop where
  called : ∃ typed, v.call = .send typed r.amount ∧ r.recipient = Text.trim typed
  sender : v.session = some r.sender
  finite : r.amount.isFinite = true
  positive : r.amount.isPositive = true
  trimmed : Text.trim r.recipient = r.recipient
  named : r.recipient ≠ ""
  /-- The coordinator has given the signature for this very body. -/
  signed : ∃ error, .asked (.sign r.unsigned) (some (granted r.signature error)) ∈ before
  once : ∀ other, .submitted other ∉ before ++ behind

/-- A visit in which nothing is done without a session, and otherwise only for its address. -/
structure Visit.IsConfined (v : Visit) : Prop where
  unauthorized : v.session = none → needsSession v.call = true →
    v.answer = .error .unauthorized ∧ v.deeds = []
  balanced : ∀ address, .balanced address ∈ v.deeds → v.session = some address
  submitted : ∀ before r behind, v.deeds = before ++ .submitted r :: behind →
    IsMandated v before r behind

theorem IsMandated.of_sends {session : Session} {address typed : String} {amount : Binary64}
    {deeds before behind : List Deed} {result : Except Fault Ledger.Receipt} {r : SignedTransfer}
    (hsession : session = some address) (hsends : Sends address typed amount deeds result)
    (hsplit : deeds = before ++ .submitted r :: behind) :
    IsMandated ⟨session, .send typed amount, result.map .receipt, deeds⟩ before r behind := by
  have hmem : .submitted r ∈ deeds := hsplit ▸ List.mem_append_right _ List.mem_cons_self
  cases hsends with
  | refused fault => cases hmem
  | unsigned reply fault hbody => cases List.mem_singleton.mp hmem
  | @submitted t signature error result hbody =>
      -- The transfer is handed in last, and it was only asked for before.
      obtain ⟨rfl, rfl, rfl⟩ : before = [.asked (.sign t) (some (granted signature error))] ∧
          r = t.signed signature ∧ behind = [] := by
        rcases before with _ | ⟨deed, _ | ⟨other, rest⟩⟩ <;> simp_all
      obtain ⟨rfl, hrecipient, hnamed, rfl, hfinite, hpositive⟩ := hbody
      exact {
        called := ⟨typed, rfl, hrecipient⟩
        sender := hsession
        finite := hfinite
        positive := hpositive
        trimmed := by
          change Text.trim t.recipient = t.recipient
          rw [hrecipient, Text.trim_trim]
        named := hnamed
        signed := ⟨error, List.mem_cons_self⟩
        once := fun other hother => by cases List.mem_singleton.mp hother }

/-- What is done in a call is confined to the session. -/
theorem Does.isConfined {session : Session} {call : Page.Call} {deeds : List Deed}
    {answer : Except Fault Page.Answer} (h : Does session call deeds answer) :
    Visit.IsConfined ⟨session, call, answer, deeds⟩ := by
  have hmem {before behind : List Deed} {r : SignedTransfer}
      (hsplit : deeds = before ++ .submitted r :: behind) : .submitted r ∈ deeds :=
    hsplit ▸ List.mem_append_right _ List.mem_cons_self
  cases h with
  | connect reply result =>
      refine ⟨fun _ => nofun, fun address h => ?_, fun before r behind hsplit => ?_⟩
      · cases List.mem_singleton.mp h
      · cases List.mem_singleton.mp (hmem hsplit)
  | address | isConnected =>
      exact ⟨fun _ => nofun, nofun, fun before r behind hsplit => nomatch hmem hsplit⟩
  | unauthorized hneeds hnone =>
      exact ⟨fun _ _ => ⟨rfl, rfl⟩, nofun, fun before r behind hsplit => nomatch hmem hsplit⟩
  | sign t reply result hsession =>
      refine ⟨fun hnone => ?_, fun address h => ?_, fun before r behind hsplit => ?_⟩
      · cases hnone.symm.trans hsession
      · cases List.mem_singleton.mp h
      · cases List.mem_singleton.mp (hmem hsplit)
  | send hsession hsends =>
      refine ⟨fun hnone => ?_, fun address h => ?_, fun before r behind hsplit => ?_⟩
      · cases hnone.symm.trans hsession
      · cases hsends <;> simp at h
      · exact .of_sends hsession hsends hsplit
  | balance result hsession =>
      refine ⟨fun hnone => ?_, fun address h => ?_, fun before r behind hsplit => ?_⟩
      · cases hnone.symm.trans hsession
      · cases List.mem_singleton.mp h
        exact hsession
      · cases List.mem_singleton.mp (hmem hsplit)

theorem sessionBehind_cons (session : Session) (call : Page.Call) (answer : Except Fault Page.Answer)
    (deeds : List Deed) (rest : List Visit) :
    sessionBehind session (⟨session, call, answer, deeds⟩ :: rest) =
      sessionBehind (sessionAfter session call answer) rest := by
  have hafter : (Visit.connection? ⟨session, call, answer, deeds⟩).getD session =
      sessionAfter session call answer := by
    cases call with
    | connect => rcases answer with _ | (_ | _ | _ | _ | _) <;> rfl
    | _ => rfl
  rw [sessionBehind, sessionBehind, ← hafter]
  cases hconnection : Visit.connection? ⟨session, call, answer, deeds⟩ with
  | none => rw [List.filterMap_cons_none hconnection, Option.getD_none]
  | some connected =>
      rw [List.filterMap_cons_some hconnection, List.getLast?_cons, Option.getD_some,
        Option.getD_some]

/-- The calls of a page from a session on, as they should be. -/
structure Plays (session : Session) (calls : List Page.Call) (p : List Visit × Session) : Prop where
  calls : p.1.map Visit.call = calls
  sessions : ∀ before v behind, p.1 = before ++ v :: behind →
    v.session = sessionBehind session before
  last : p.2 = sessionBehind session p.1
  confined : ∀ v ∈ p.1, v.IsConfined

theorem plays_visits (o : Outside σ) (machine : Host (StateM (Watched σ))) (session : Session)
    (outside : σ) (calls : List Page.Call) :
    Plays session calls (o.visits machine session outside calls) := by
  induction calls generalizing session outside with
  | nil =>
      rw [Outside.visits]
      exact ⟨rfl, fun before v behind hsplit => by simp at hsplit, rfl,
        fun v hv => absurd hv List.not_mem_nil⟩
  | cons call rest ih =>
      obtain ⟨deeds, answer, later, hrun, hdoes⟩ := step_spec o machine { outside } session call
      have hnext := ih (sessionAfter session call answer) later
      rw [Outside.visits, hrun]
      refine ⟨congrArg (call :: ·) hnext.calls, ?_, ?_, ?_⟩
      · rintro (_ | ⟨first, before⟩) v behind hsplit
        · cases hsplit
          rfl
        · obtain ⟨rfl, hrest⟩ := List.cons.inj hsplit
          rw [sessionBehind_cons]
          exact hnext.sessions before v behind hrest
      · exact hnext.last.trans (sessionBehind_cons ..).symm
      · rintro v (_ | ⟨_, hv⟩)
        · exact hdoes.isConfined
        · exact hnext.confined v hv

/-- A page that starts without a session, whatever it calls and whatever it is answered. Its session
is the one of the last connection that succeeded. Without a session the calls that need one are
refused, and nothing is done. With one, only the balance of its address is asked for, and only
transfers from its address are handed in: at most one for each call to send, of an amount that is
allowed, to a recipient, and with the signature that the coordinator gave for its very body. -/
theorem page_is_confined (o : Outside σ) (machine : Host (StateM (Watched σ))) (outside : σ)
    (calls : List Page.Call) :
    let (visits, last) := o.visits machine none outside calls
    (visits.map Visit.call = calls ∧ last = sessionBehind none visits ∧
      ∀ before v behind, visits = before ++ v :: behind → v.session = sessionBehind none before) ∧
    ∀ v ∈ visits,
      (v.session = none → needsSession v.call = true →
        v.answer = .error .unauthorized ∧ v.deeds = []) ∧
      (∀ address, .balanced address ∈ v.deeds → v.session = some address) ∧
      ∀ before r behind, v.deeds = before ++ .submitted r :: behind →
        IsMandated v before r behind := by
  have hplays := plays_visits o machine none outside calls
  refine ⟨⟨hplays.calls, hplays.last, hplays.sessions⟩, fun v hv => ?_⟩
  obtain ⟨hunauthorized, hbalanced, hsubmitted⟩ := hplays.confined v hv
  exact ⟨hunauthorized, hbalanced, hsubmitted⟩

/-- A world outside where there is a wallet, every transfer is approved and every one is taken. -/
def obliging : Outside Unit where
  millis := pure 0
  freshNonce := pure "n"
  line := ⟨fun request => pure <| some <| match request with
    | .sign _ => granted "f0" none
    | _ => .wallet
      { hasWallet := true
        wallet := some { address := "a1", identity := "b2", balance := ⟨0⟩, createdAt := .epoch } }⟩
  ledger :=
    { health := fun _ => pure (.error (.transport "offline"))
      balance := fun _ => pure (.ok ⟨0⟩)
      history := fun _ => pure (.ok [])
      submit := fun _ => pure (.ok ⟨none⟩)
      faucet := fun _ _ => pure (.error (.rejected "empty")) }

/-- A machine without files. -/
def bareMachine : Host (StateM (Watched Unit)) where
  makeDirectory _ := pure (.error .notDirectory)
  isPresent _ := pure false
  withLock _ _ := pure (.error .notFound)
  readText _ := pure (.error .notFound)
  writeText _ _ := pure (.error .notFound)
  rename _ _ := pure (.error .notFound)
  now := pure .epoch
  millis := pure 0
  freshSecret := pure (.error (.randomUnavailable ""))
  freshNonce := pure ""

/-- The first amount above zero. -/
def leastAmount : Binary64 := ⟨1⟩

/-- The transfer that the obliging world is handed. -/
def sentTransfer : Transfer :=
  { sender := "a1", recipient := "c3", amount := leastAmount, timestamp := 0, nonce := "n" }

/-- A balance, a connection and a transfer. -/
def sampleCalls : List Page.Call := [.balance, .connect, .send " c3 " leastAmount]

/-- The balance is refused before there is a connection. -/
def refusedVisit : Visit := ⟨none, .balance, .error .unauthorized, []⟩

/-- The transfer is signed and handed in. -/
def sendingVisit : Visit :=
  ⟨some "a1", .send " c3 " leastAmount, .ok (.receipt ⟨none⟩),
    [.asked (.sign sentTransfer) (some (granted "f0" none)), .submitted (sentTransfer.signed "f0")]⟩

/-- A page that is connected sends from the wallet that it was connected to; before, it is refused. -/
theorem page_is_confined_sample :
    let (visits, last) := obliging.visits bareMachine none () sampleCalls
    last = some "a1" ∧ refusedVisit ∈ visits ∧ sendingVisit ∈ visits ∧
      (refusedVisit.answer = .error .unauthorized ∧ refusedVisit.deeds = []) ∧
      IsMandated sendingVisit [.asked (.sign sentTransfer) (some (granted "f0" none))]
        (sentTransfer.signed "f0") [] := by
  have hrefused : refusedVisit ∈ (obliging.visits bareMachine none () sampleCalls).1 :=
    .head _
  have hsending : sendingVisit ∈ (obliging.visits bareMachine none () sampleCalls).1 :=
    .tail _ (.tail _ (.head _))
  obtain ⟨-, hconfined⟩ := page_is_confined obliging bareMachine () sampleCalls
  obtain ⟨hunauthorized, -⟩ := hconfined _ hrefused
  obtain ⟨-, -, hsubmitted⟩ := hconfined _ hsending
  exact ⟨rfl, hrefused, hsending, hunauthorized rfl rfl, hsubmitted _ _ _ rfl⟩

end Surface
end WalletEngine
