import WalletEngine.Proofs.Ledger.Exchanges

/-! # Refused writes

The answer to a write may say of itself that the write has failed, by a flag or by an error that it
carries. The answer to a transfer is believed when its flag says so; an error without a flag is
overlooked. The answer to a request for funds is believed only if its status is that of a failure.
-/

namespace WalletEngine.Ledger
open Json (Decoder)

/-- What an answer says of a write: its flags and its error. -/
structure Stance where
  success : Option Bool
  ok : Option Bool
  error : Option String
  deriving DecidableEq

namespace Stance

/-- The flag that counts. -/
def flag (s : Stance) : Option Bool := s.success <|> s.ok

/-- The flag says that the write has failed, or there is an error and no flag to the contrary. -/
def ReportsFailure (s : Stance) : Prop :=
  s.flag = some false ∨ s.error.isSome = true ∧ s.success ≠ some true ∧ s.ok ≠ some true

instance (s : Stance) : Decidable s.ReportsFailure := inferInstanceAs (Decidable (_ ∨ _))

end Stance

/-- What the answer to a transfer says of it, if it can be read. -/
def submitStance? (r : Http.Response) : Option Stance :=
  ((SubmitBody.decoder.decode (Symbol.ofText r.text)).toOption).map fun body =>
    { success := body.success, ok := body.ok, error := body.error }

/-- Reads the flags of an answer. -/
def flagsDecoder : Decoder (Option Bool × Option Bool) :=
  .record "Flags" [.optional "success" .bool, .optional "ok" .bool]
    fun (success, ok, _) => (success, ok)

/-- What the answer to a request for funds says of it, if it can be read. Its flags are no part of
what the engine reads. -/
def faucetStance? (r : Http.Response) : Option Stance :=
  ((FaucetBody.decoder.decode (Symbol.ofText r.text)).toOption).map fun body =>
    let flags := (flagsDecoder.decode (Symbol.ofText r.text)).toOption
    { success := flags.bind Prod.fst, ok := flags.bind Prod.snd, error := body.error }

/-- A refusal is not taken for a success, and its error is told. -/
structure Upholds {α : Type} (r : Http.Response) (stance? : Option Stance)
    (result : Except Fault α) : Prop where
  taken : ∀ receipt, result = .ok receipt →
    r.isSuccess = true ∧ ∃ s ∈ stance?, ¬s.ReportsFailure
  told : ∀ s ∈ stance?, s.ReportsFailure → ∀ e ∈ s.error, result = .error (.rejected e)

namespace Stance
variable {s : Stance}

/-- A flag decides; without one, the error does. -/
theorem reportsFailure_iff : s.ReportsFailure ↔
    s.flag = some false ∨ s.flag = none ∧ s.error.isSome = true := by
  obtain ⟨success, ok, error⟩ := s
  rcases success with _ | _ | _ <;> rcases ok with _ | _ | _ <;> simp [ReportsFailure, flag]

end Stance

/-! ## Transfers -/

section Transfers
variable {r : Http.Response} {s : Stance}

theorem judgeSubmit_of_read (hs : submitStance? r = some s) : ∃ receipt, judgeSubmit r =
    if r.isSuccess && s.flag.getD true then .ok receipt
    else match s.error with
      | some e => .error (.rejected e)
      | none =>
        if r.isSuccess then .error (.rejected "ledger reported failure")
        else .error (.status r.status r.text) := by
  rw [submitStance?] at hs
  obtain ⟨body, hbody, rfl⟩ := Option.map_eq_some_iff.mp hs
  refine ⟨{ hash := body.hash }, ?_⟩
  simp only [judgeSubmit, hbody]
  rfl

theorem judgeSubmit_of_unread (hs : submitStance? r = none) : ∃ fault,
    judgeSubmit r = .error fault := by
  rw [submitStance?, Option.map_eq_none_iff] at hs
  simp only [judgeSubmit, hs]
  cases r.isSuccess
  · exact ⟨_, rfl⟩
  · exact ⟨_, rfl⟩

/-- A transfer counts as taken exactly if the status is one of success and no flag says otherwise.
-/
theorem submit_taken_iff : (∃ receipt, judgeSubmit r = .ok receipt) ↔
    r.isSuccess = true ∧ ∃ s ∈ submitStance? r, s.flag ≠ some false := by
  cases hs : submitStance? r with
  | none =>
      obtain ⟨fault, hfault⟩ := judgeSubmit_of_unread hs
      simp [hfault]
  | some s =>
      obtain ⟨receipt, hjudge⟩ := judgeSubmit_of_read hs
      have hflag : s.flag.getD true = true ↔ s.flag ≠ some false := by
        rcases s.flag with _ | _ | _ <;> simp
      rw [hjudge]
      by_cases htaken : (r.isSuccess && s.flag.getD true) = true
      · rw [if_pos htaken]
        simpa [hflag] using htaken
      · rw [if_neg htaken]
        have hnot : ¬(r.isSuccess = true ∧ s.flag ≠ some false) := by simpa [hflag] using htaken
        constructor
        · rintro ⟨receipt, h⟩
          split at h
          next => cases h
          next => split at h <;> cases h
        · rintro ⟨hsuccess, s', ⟨⟩, hs'⟩
          exact absurd ⟨hsuccess, hs'⟩ hnot

/-- The error of a transfer that does not count as taken is told. -/
theorem submit_told (hs : submitStance? r = some s) {e : String} (he : s.error = some e)
    (hnot : ¬(r.isSuccess = true ∧ s.flag ≠ some false)) :
    judgeSubmit r = .error (.rejected e) := by
  obtain ⟨receipt, hjudge⟩ := judgeSubmit_of_read hs
  have hfalse : ¬(r.isSuccess && s.flag.getD true) = true := by
    rcases hflag : s.flag with _ | _ | _ <;> simp_all
  rw [hjudge, if_neg hfalse, he]

/-- The answer to a transfer is believed unless a success carries an error and no flag. -/
theorem upholds_submit_iff (r : Http.Response) : Upholds r (submitStance? r) (judgeSubmit r) ↔
    ¬(r.isSuccess = true ∧ ∃ s ∈ submitStance? r, s.flag = none ∧ s.error.isSome = true) := by
  constructor
  · rintro ⟨htaken, -⟩ ⟨hsuccess, s, hs, hflag, herror⟩
    obtain ⟨receipt, hreceipt⟩ := submit_taken_iff.mpr ⟨hsuccess, s, hs, by simp [hflag]⟩
    obtain ⟨-, s', hs', hholds⟩ := htaken receipt hreceipt
    cases hs.symm.trans hs'
    exact hholds (Stance.reportsFailure_iff.mpr (.inr ⟨hflag, herror⟩))
  · intro hnot
    refine ⟨fun receipt hreceipt => ?_, fun s hs hreports e he => submit_told hs he ?_⟩
    · obtain ⟨hsuccess, s, hs, hflag⟩ := submit_taken_iff.mp ⟨receipt, hreceipt⟩
      refine ⟨hsuccess, s, hs, fun hreports => ?_⟩
      obtain hfalse | hsilent := Stance.reportsFailure_iff.mp hreports
      · exact hflag hfalse
      · exact hnot ⟨hsuccess, s, hs, hsilent⟩
    · rintro ⟨hsuccess, hflag⟩
      obtain hfalse | hsilent := Stance.reportsFailure_iff.mp hreports
      · exact hflag hfalse
      · exact hnot ⟨hsuccess, s, hs, hsilent⟩

end Transfers

/-! ## Requests for funds -/

section Funds
variable {r : Http.Response} {s : Stance}

theorem judgeFaucet_of_read (hs : faucetStance? r = some s) : ∃ receipt, judgeFaucet r =
    if r.isSuccess then .ok receipt
    else match s.error with
      | some e => .error (.rejected e)
      | none => .error (.status r.status r.text) := by
  rw [faucetStance?] at hs
  obtain ⟨body, hbody, rfl⟩ := Option.map_eq_some_iff.mp hs
  refine ⟨{ status := body.status.getD "ok", balance := body.balance }, ?_⟩
  cases hdecode : FaucetBody.decoder.decode (Symbol.ofText r.text) with
  | error problem =>
      rw [hdecode] at hbody
      cases hbody
  | ok body' =>
      rw [hdecode] at hbody
      cases hbody
      simp only [judgeFaucet, hdecode]
      rfl

theorem judgeFaucet_of_unread (hs : faucetStance? r = none) : ∃ fault,
    judgeFaucet r = .error fault := by
  rw [faucetStance?, Option.map_eq_none_iff] at hs
  cases hdecode : FaucetBody.decoder.decode (Symbol.ofText r.text) with
  | ok body =>
      rw [hdecode] at hs
      cases hs
  | error problem =>
      simp only [judgeFaucet, hdecode]
      cases r.isSuccess
      · exact ⟨_, rfl⟩
      · exact ⟨_, rfl⟩

/-- Funds count as credited exactly if the status is one of success and the answer can be read,
whatever it says. -/
theorem faucet_taken_iff : (∃ receipt, judgeFaucet r = .ok receipt) ↔
    r.isSuccess = true ∧ ∃ s, faucetStance? r = some s := by
  cases hs : faucetStance? r with
  | none =>
      obtain ⟨fault, hfault⟩ := judgeFaucet_of_unread hs
      simp [hfault]
  | some s =>
      obtain ⟨receipt, hjudge⟩ := judgeFaucet_of_read hs
      rw [hjudge]
      by_cases hsuccess : r.isSuccess = true
      · simp [hsuccess]
      · rw [if_neg hsuccess]
        cases s.error <;> simp [hsuccess]

theorem faucet_told (hs : faucetStance? r = some s) {e : String} (he : s.error = some e)
    (hnot : ¬r.isSuccess = true) : judgeFaucet r = .error (.rejected e) := by
  obtain ⟨receipt, hjudge⟩ := judgeFaucet_of_read hs
  rw [hjudge, if_neg hnot, he]

/-- The answer to a request for funds is believed unless a success reports a failure. -/
theorem upholds_faucet_iff (r : Http.Response) : Upholds r (faucetStance? r) (judgeFaucet r) ↔
    ¬(r.isSuccess = true ∧ ∃ s ∈ faucetStance? r, s.ReportsFailure) := by
  constructor
  · rintro ⟨htaken, -⟩ ⟨hsuccess, s, hs, hreports⟩
    obtain ⟨receipt, hreceipt⟩ := faucet_taken_iff.mpr ⟨hsuccess, s, hs⟩
    obtain ⟨-, s', hs', hholds⟩ := htaken receipt hreceipt
    cases hs.symm.trans hs'
    exact hholds hreports
  · intro hnot
    refine ⟨fun receipt hreceipt => ?_, fun s hs hreports e he => faucet_told hs he ?_⟩
    · obtain ⟨hsuccess, s, hs⟩ := faucet_taken_iff.mp ⟨receipt, hreceipt⟩
      exact ⟨hsuccess, s, hs, fun hreports => hnot ⟨hsuccess, s, hs, hreports⟩⟩
    · exact fun hsuccess => hnot ⟨hsuccess, s, hs, hreports⟩

end Funds

/-! ## Calls -/

/-- Whatever a server answers to a write, and with whatever status: a refusal is not taken for a
success and its error is told, but for a success with an error and no flag in answer to a transfer,
and a success that reports a failure in answer to a request for funds. A transfer counts as taken
exactly if the status is one of success, the answer can be read and its flag is not false; funds
count as credited exactly if the status is one of success and the answer can be read. -/
theorem refusals_told_iff {σ : Type} (names : Http.Names) (exchange : Http.Exchange (StateM σ))
    (servers : Servers) (st : σ) :
    (∀ record, Fits exchange
      (requestTo names .post (servers.node ++ "/transaction") (some record.toJson))
      (fun r result =>
        ((∃ receipt, result = .ok receipt) ↔
          r.isSuccess = true ∧ ∃ s ∈ submitStance? r, s.flag ≠ some false) ∧
        (Upholds r (submitStance? r) result ↔
          ¬(r.isSuccess = true ∧
            ∃ s ∈ submitStance? r, s.flag = none ∧ s.error.isSome = true)))
      st (((overHttp names exchange servers).submit record).run st)) ∧
    ∀ address amount, Fits exchange
      (requestTo names .post (servers.node ++ "/faucet") (some (faucetBody address amount)))
      (fun r result =>
        ((∃ receipt, result = .ok receipt) ↔
          r.isSuccess = true ∧ ∃ s, faucetStance? r = some s) ∧
        (Upholds r (faucetStance? r) result ↔
          ¬(r.isSuccess = true ∧ ∃ s ∈ faucetStance? r, s.ReportsFailure)))
      st (((overHttp names exchange servers).faucet address amount).run st) := by
  constructor
  · intro record
    refine (comes_submit names exchange servers st record).fits fun r => ?_
    exact ⟨submit_taken_iff, upholds_submit_iff r⟩
  · intro address amount
    refine (comes_faucet names exchange servers st address amount).fits fun r => ?_
    exact ⟨faucet_taken_iff, upholds_faucet_iff r⟩

/-- A transfer of nothing. -/
def sampleRecord : SignedTransfer :=
  { sender := "aa", recipient := "bb", amount := .zero false, timestamp := 0, nonce := "n"
    signature := "ff" }

/-- An error without a flag. -/
def refusal : String := "\x7b\"error\":\"insufficient funds\"\x7d"

/-- A flag and an error. -/
def flaggedRefusal : String := "\x7b\"success\":false,\"error\":\"faucet empty\"\x7d"

/-- A transfer is answered with an error and counts as taken. A request for funds is answered with a
flag that says that it has failed, and counts as credited. -/
theorem refusal_overlooked :
    (submitStance? ⟨200, Bytes.ofText refusal, true⟩ =
        some ⟨none, none, some "insufficient funds"⟩ ∧
      Stance.ReportsFailure ⟨none, none, some "insufficient funds"⟩ ∧
      (((overHttp plainNames (answering refusal) sampleServers).submit sampleRecord).run ()).1.toOption =
        some ⟨none⟩) ∧
    faucetStance? ⟨200, Bytes.ofText flaggedRefusal, true⟩ =
        some ⟨some false, none, some "faucet empty"⟩ ∧
      Stance.ReportsFailure ⟨some false, none, some "faucet empty"⟩ ∧
      (((overHttp plainNames (answering flaggedRefusal) sampleServers).faucet "aa" (.zero false)).run
        ()).1.toOption = some ⟨"ok", none⟩ := by
  decide +kernel

end WalletEngine.Ledger
