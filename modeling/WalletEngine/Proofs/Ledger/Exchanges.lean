import WalletEngine.Ledger.Client
import WalletEngine.Proofs.Steps

/-! # What comes of a call

A call of the ledger makes at most one exchange. Whatever the exchange does to the world, the
outcome of the call is a judgement of the response alone, and a fault of the transport if there is
none.
-/

namespace WalletEngine.Ledger

open Steps

variable {σ α : Type}

/-- The request that is sent to an address, if it can be one. -/
def requestTo (names : Http.Names) (method : Http.Method) (address : String) (body : Option Json) :
    Option Http.Request :=
  (Http.Url.parse? names address).map fun url =>
    { method, url := url.anonymous, body := body.map Json.compact }

/-- How a call comes out whose response is judged by `judge`, and the world afterwards. -/
inductive Comes (exchange : Http.Exchange (StateM σ)) (request? : Option Http.Request)
    (judge : Http.Response → Except Fault α) (st : σ) : Except Fault α × σ → Prop
  /-- There is nowhere to send a request. -/
  | unsent (reason : String) : Comes exchange request? judge st (.error (.transport reason), st)
  /-- Nothing came back. -/
  | unanswered {request : Http.Request} {later : σ} (reason : String)
      (hrequest : request? = some request) (hexchange : (exchange request).run st = (none, later)) :
      Comes exchange request? judge st (.error (.transport reason), later)
  | answered {request : Http.Request} {response : Http.Response} {later : σ}
      (hrequest : request? = some request)
      (hexchange : (exchange request).run st = (some response, later)) :
      Comes exchange request? judge st (judge response, later)

/-- A call gets no response and fails for that, or it gets one, and `fits` holds of the response and
the outcome. -/
def Fits (exchange : Http.Exchange (StateM σ)) (request? : Option Http.Request)
    (fits : Http.Response → Except Fault α → Prop) (st : σ) (out : Except Fault α × σ) : Prop :=
  ((∃ reason, out.1 = .error (.transport reason)) ∧
    (out.2 = st ∨ ∃ request ∈ request?, (exchange request).run st = (none, out.2))) ∨
  ∃ request ∈ request?, ∃ response,
    (exchange request).run st = (some response, out.2) ∧ fits response out.1

theorem Comes.fits {exchange : Http.Exchange (StateM σ)} {request? : Option Http.Request}
    {judge : Http.Response → Except Fault α} {st : σ} {out : Except Fault α × σ}
    (h : Comes exchange request? judge st out) {fits : Http.Response → Except Fault α → Prop}
    (hfits : ∀ response, fits response (judge response)) :
    Fits exchange request? fits st out := by
  cases h with
  | unsent reason => exact .inl ⟨⟨reason, rfl⟩, .inl rfl⟩
  | unanswered reason hrequest hexchange =>
      exact .inl ⟨⟨reason, rfl⟩, .inr ⟨_, hrequest, hexchange⟩⟩
  | answered hrequest hexchange => exact .inr ⟨_, hrequest, _, hexchange, hfits _⟩

variable (names : Http.Names) (exchange : Http.Exchange (StateM σ)) (servers : Servers) (st : σ)

theorem comes_send (method : Http.Method) (address : String) (body : Option Json) :
    Comes exchange (requestTo names method address body) .ok st
      (outcome (send names exchange method address body) st) := by
  cases hurl : Http.Url.parse? names address with
  | none =>
      rw [send, hurl]
      exact .unsent _
  | some url =>
      let request : Http.Request :=
        { method, url := url.anonymous, body := body.map Json.compact }
      have hrequest : requestTo names method address body = some request := by
        rw [requestTo, hurl]
        rfl
      rw [send, hurl]
      dsimp only
      split
      next => exact .unsent _
      next =>
        rcases hexchange : (exchange request).run st with ⟨response?, later⟩
        rw [outcome_bind_of_ok (outcome_lift_of_run hexchange)]
        cases response? with
        | none => exact .unanswered _ hrequest hexchange
        | some response => exact .answered hrequest hexchange

/-- What a call makes of the response that it has waited for. -/
theorem comes_judged (judge : Http.Response → Except Fault α) (method : Http.Method)
    (address : String) (body : Option Json) :
    Comes exchange (requestTo names method address body) judge st
      (outcome (do liftM (judge (← send names exchange method address body))) st) := by
  have hsent := comes_send names exchange st method address body
  rw [outcome_bind]
  generalize outcome (send names exchange method address body) st = out at hsent
  cases hsent with
  | unsent reason => exact .unsent reason
  | unanswered reason hrequest hexchange => exact .unanswered reason hrequest hexchange
  | answered hrequest hexchange =>
      dsimp only
      rw [outcome_lift_except]
      exact .answered hrequest hexchange

theorem comes_health (service : Liveness.Service) :
    Comes exchange (requestTo names .get (servers.base service ++ "/health") none)
      (fun r => .ok (judgeProbe r)) st (((overHttp names exchange servers).health service).run st) :=
  comes_judged names exchange st (fun r => .ok (judgeProbe r)) .get _ none

theorem comes_submit (record : SignedTransfer) :
    Comes exchange (requestTo names .post (servers.node ++ "/transaction") (some record.toJson))
      judgeSubmit st (((overHttp names exchange servers).submit record).run st) :=
  comes_judged names exchange st judgeSubmit .post _ _

/-- The body of a request for funds. -/
def faucetBody (address : String) (amount : Binary64) : Json :=
  .object [("address", .string address), ("amount", .float amount)]

theorem comes_faucet (address : String) (amount : Binary64) :
    Comes exchange (requestTo names .post (servers.node ++ "/faucet") (some (faucetBody address amount)))
      judgeFaucet st (((overHttp names exchange servers).faucet address amount).run st) :=
  comes_judged names exchange st judgeFaucet .post _ _

/-- A server that always gives the same answer, with a status of success. -/
def answering (body : String) : Http.Exchange (StateM Unit) := fun _ =>
  pure (some ⟨200, Bytes.ofText body, true⟩)

/-- No international name has an ASCII form. -/
def plainNames : Http.Names := fun _ => none

/-- The servers of the samples. -/
def sampleServers : Servers := ⟨"http://node", "http://simulator"⟩

end WalletEngine.Ledger
