import WalletEngine.Http.Exchange
import WalletEngine.Json.Printer
import WalletEngine.Ledger.Basic

/-! # A ledger behind two servers

The node keeps the ledger and the simulator only answers probes. Every call is one exchange. A
response is judged by its status and by what its body says of itself: a body that reports a failure
is a refusal, even with a status of success.
-/

namespace WalletEngine.Ledger
open Json (Decoder)

/-- The body of an answer to a probe. -/
structure HealthBody where
  ok : Option Bool
  message : Option String

/-- Reads the answer to a probe. -/
def HealthBody.decoder : Decoder HealthBody :=
  .record "HealthReply" [.optional "ok" .bool, .optional "message" .string]
    fun (ok, message, _) => { ok, message }

/-- Reads an answer that holds a balance. -/
def balanceBody : Decoder Binary64 :=
  .record "BalanceReply" [.required "balance" .float] fun (balance, _) => balance

/-- Reads an answer that holds a history. -/
def historyBody : Decoder (List Transfer.HistoryEntry) :=
  .record "TransactionsReply"
    [.withDefault "transactions" (Decoder.list Transfer.HistoryEntry.decoder) []]
    fun (entries, _) => entries

/-- The body of an answer to a transfer. -/
structure SubmitBody where
  success : Option Bool
  ok : Option Bool
  hash : Option String
  error : Option String

/-- Reads the answer to a transfer. -/
def SubmitBody.decoder : Decoder SubmitBody :=
  .record "SubmitReply" [.optional "success" .bool, .optional "ok" .bool,
    .optional "hash" .string, .optional "error" .string]
    fun (success, ok, hash, error, _) => { success, ok, hash, error }

/-- The body of an answer to a request for funds. -/
structure FaucetBody where
  status : Option String
  balance : Option Binary64
  error : Option String

/-- Reads the answer to a request for funds. -/
def FaucetBody.decoder : Decoder FaucetBody :=
  .record "FaucetReply" [.optional "status" .string, .optional "balance" .float,
    .optional "error" .string]
    fun (status, balance, error, _) => { status, balance, error }

/-- The judgement of a probe's response. The body counts only if it can be read. -/
def judgeProbe (r : Http.Response) : Liveness.Probe :=
  match r.decode? HealthBody.decoder with
  | some body =>
    { status := r.status, ok := r.isSuccess && body.ok.getD true, message := body.message }
  | none => { status := r.status, ok := r.isSuccess, message := none }

/-- The judgement of a response that should hold a value. -/
def judgeBody {α : Type} (d : Decoder α) (r : Http.Response) : Except Fault α :=
  if !r.isSuccess then .error (.status r.status r.text)
  else match r.decode? d with
    | some a => .ok a
    | none => .error (.decode "error decoding response body")

def judgeSubmit (r : Http.Response) : Except Fault Receipt :=
  let text := r.text
  match (SubmitBody.decoder.decode (Symbol.ofText text)).toOption with
  | some body =>
    if r.isSuccess && ((body.success <|> body.ok).getD true) then .ok { hash := body.hash }
    else match body.error with
      | some reason => .error (.rejected reason)
      | none =>
        if r.isSuccess then .error (.rejected "ledger reported failure")
        else .error (.status r.status text)
  | none =>
    if r.isSuccess then .error (.decode ("unexpected reply: " ++ text))
    else .error (.status r.status text)

/-- The judgement of the response to a request for funds. -/
def judgeFaucet (r : Http.Response) : Except Fault FaucetReceipt :=
  let text := r.text
  let body := FaucetBody.decoder.decode (Symbol.ofText text)
  if r.isSuccess then
    match body with
    | .ok body => .ok { status := body.status.getD "ok", balance := body.balance }
    | .error problem => .error (.decode problem.message)
  else match body.toOption.bind FaucetBody.error with
    | some reason => .error (.rejected reason)
    | none => .error (.status r.status text)

/-- The base addresses of the two servers. -/
structure Servers where
  node : String
  simulator : String
  deriving DecidableEq, Repr

/-- A base address without slashes at its end. -/
def trimBase (base : String) : String :=
  String.ofList ((base.toList.reverse.dropWhile (· == '/')).reverse)

def Servers.of (node simulator : String) : Servers := ⟨trimBase node, trimBase simulator⟩

def Servers.base (s : Servers) : Liveness.Service → String
  | .node => s.node
  | .simulator => s.simulator

variable {m : Type → Type} [Monad m]

/-- Makes one exchange with an address that is given as text. -/
def send (names : Http.Names) (exchange : Http.Exchange m) (method : Http.Method) (address : String)
    (body : Option Json) : ExceptT Fault m Http.Response := do
  let some url := Http.Url.parse? names address | throw (.transport "builder error")
  let url := url.anonymous
  if url.host.isNone || (url.scheme != "http" && url.scheme != "https") then
    throw (.transport s!"builder error for url ({url.text})")
  match ← exchange { method, url, body := body.map Json.compact } with
  | some response => return response
  | none => throw (.transport s!"error sending request for url ({url.text})")

def overHttp (names : Http.Names) (exchange : Http.Exchange m) (servers : Servers) : Ledger m where
  health service := ExceptT.run do
    return judgeProbe (← send names exchange .get (servers.base service ++ "/health") none)
  balance address := ExceptT.run do
    judgeBody balanceBody (← send names exchange .get s!"{servers.node}/balance/{address}" none)
  history address := ExceptT.run do
    judgeBody historyBody (← send names exchange .get s!"{servers.node}/transactions/{address}" none)
  submit transfer := ExceptT.run do
    judgeSubmit (← send names exchange .post (servers.node ++ "/transaction") (some transfer.toJson))
  faucet address amount := ExceptT.run do
    let body : Json := .object [("address", .string address), ("amount", .float amount)]
    judgeFaucet (← send names exchange .post (servers.node ++ "/faucet") (some body))

end WalletEngine.Ledger
