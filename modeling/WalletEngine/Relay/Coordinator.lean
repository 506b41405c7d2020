import WalletEngine.Relay.Reply
import WalletEngine.Signing

/-! # The coordinator

The coordinator answers requests on behalf of callers that must not see the secret. It shows the
public view of the wallet, probes the services, and signs transfers that are approved. A failure to
sign is part of the reply; the other requests fail with an error reply.
-/

namespace WalletEngine.Relay
variable {m : Type → Type} [Monad m]

/-- Whether the owner wants a transfer to be signed. -/
abbrev Approver := Transfer → Bool

/-- What the coordinator works with. -/
structure Coordinator (m : Type → Type) where
  host : Host m
  store : Store
  approver : Approver

/-- How far a request has come at once: it is answered, or a service has to be probed first. -/
inductive Progress where
  | answered (reply : Reply)
  | probing (service : Liveness.Service)
  deriving DecidableEq, Repr

/-- The reply to a request for a probe. -/
def Reply.ofReport (report : Liveness.Report) : Reply := .health (.of report)

namespace Coordinator

/-- The reply to a request for a signature. -/
def sign (c : Coordinator m) (t : Transfer) : m SignatureResult := do
  if !c.approver t then return .failed Fault.rejected.message
  match ← (Signing.sign c.host c.store t).run with
  | .ok signature => return .signed signature
  | .error fault => return .failed fault.message

/-- What the coordinator does with a request before any service is asked. -/
def begin (c : Coordinator m) : Request → m Progress
  | .walletStatus => do
    match ← (c.store.load c.host).run with
    | .ok wallet => return .answered (.wallet (.of wallet))
    | .error fault => return .answered (.error ⟨fault.message⟩)
  | .nodeHealth => return .probing .node
  | .simulatorHealth => return .probing .simulator
  | .sign t => return .answered (.signature (← c.sign t))

/-- The reply to a request, with a way to probe a service. -/
def handle (c : Coordinator m) (probe : Liveness.Service → m Liveness.Report)
    (request : Request) : m Reply := do
  match ← c.begin request with
  | .answered reply => return reply
  | .probing service => return .ofReport (← probe service)

/-- The reply to a message, which may be no request. -/
def handleMessage (c : Coordinator m) (probe : Liveness.Service → m Liveness.Report)
    (message : Json) : m Reply :=
  match Request.ofMessage message with
  | .ok request => c.handle probe request
  | .error refusal => return .error ⟨refusal.message⟩

end Coordinator

/-- A way to a running coordinator: a request goes in and a reply comes back, or nothing if it has
stopped. -/
structure Line (m : Type → Type) where
  request : Request → m (Option Reply)

namespace Line

def ask (line : Line m) (request : Request) : Action m Reply := do
  match ← line.request request with
  | some reply => return reply
  | none => throw .closed

/-- Sends a message, if it is a request. -/
def tell (line : Line m) (message : Json) : Action m Reply :=
  match Request.ofMessage message with
  | .ok request => line.ask request
  | .error refusal => throw (.refused refusal)

end Line
end WalletEngine.Relay
