import WalletEngine.Json.Variant
import WalletEngine.Wallet.Basic

/-! # Reports on the services

A report says whether a service answered a probe well, when, and with what. An overview holds the
latest report on each of the two services.
-/

namespace WalletEngine.Liveness

/-- The two services whose liveness is watched. -/
inductive Service where
  | node
  | simulator
  deriving DecidableEq, Repr

def Service.name : Service → String
  | .node => "node"
  | .simulator => "simulator"

def Service.names : List String := [Service.node.name, Service.simulator.name]

def Service.named (name : String) : Except Json.Cause Service :=
  if name = Service.node.name then .ok .node
  else if name = Service.simulator.name then .ok .simulator
  else .error (.unknownVariant name names)

def Service.decoder : Json.Decoder Service := .named Service.named

/-- What a liveness endpoint answered. -/
structure Probe where
  status : UInt16
  ok : Bool
  message : Option String
  deriving DecidableEq, Repr

/-- The outcome of the latest probe of a service. -/
structure Report where
  connected : Bool
  status : Option UInt16
  error : Option String
  checkedAt : Time.Instant
  deriving DecidableEq, Repr

/-- The latest reports on both services. -/
structure Overview where
  node : Report
  simulator : Report
  deriving DecidableEq, Repr

/-- A status code as a value. -/
def statusJson (status : UInt16) : Json := .integer status.toNat

namespace Report
open Json (Field Decoder)

/-- The report on a service that has not been probed. -/
def unknown (now : Time.Instant) : Report :=
  { connected := false, status := none, error := none, checkedAt := now }

/-- The report on an answer. A good answer leaves no error, even if it carries a message. -/
def ofProbe (probe : Probe) (now : Time.Instant) : Report :=
  { connected := probe.ok
    status := some probe.status
    error := if probe.ok then none else probe.message
    checkedAt := now }

/-- The report on a service that could not be reached. -/
def unreachable (reason : String) (now : Time.Instant) : Report :=
  { connected := false, status := none, error := some reason, checkedAt := now }

/-- The members of a report but for its time; what is not known is left out. -/
def statusMembers (connected : Bool) (status : Option UInt16) (error : Option String) :
    List (String × Json) :=
  ("connected", .bool connected) :: Json.optionalMember "status" statusJson status ++
    Json.optionalMember "error" .string error

def toJson (r : Report) : Json :=
  .object (statusMembers r.connected r.status r.error ++ [("checkedAt", r.checkedAt.toJson)])

def decoder : Decoder Report :=
  .record "ServiceHealth"
    [.required "connected" .bool, .optional "status" .uint16, .optional "error" .string,
     .required "checkedAt" Time.Instant.decoder]
    fun (connected, status, error, checkedAt, _) => { connected, status, error, checkedAt }

end Report

namespace Overview
open Json (Decoder)

/-- Neither service has been probed. -/
def unknown (now : Time.Instant) : Overview := ⟨.unknown now, .unknown now⟩

def get (o : Overview) : Service → Report
  | .node => o.node
  | .simulator => o.simulator

def set (o : Overview) (service : Service) (r : Report) : Overview :=
  match service with
  | .node => { o with node := r }
  | .simulator => { o with simulator := r }

def toJson (o : Overview) : Json :=
  .object [("node", o.node.toJson), ("simulator", o.simulator.toJson)]

def decoder : Decoder Overview :=
  .record "HealthSnapshot" [.required "node" Report.decoder, .required "simulator" Report.decoder]
    fun (node, simulator, _) => { node, simulator }

end Overview
end WalletEngine.Liveness
