import WalletEngine.Relay.Reply
import WalletEngine.Relay.Request

/-! # The desk of the coordinator

Calls come in from any number of callers, wait in a queue of bounded length, and are taken one after
the other; each is then handled on its own, so replies may come in any order. When the desk closes,
calls that nobody has taken end without a reply; those being handled are still answered.
-/

namespace WalletEngine.Relay

/-- A call with its number. -/
structure Call where
  id : Nat
  request : Request
  deriving DecidableEq, Repr

/-- The state of a desk. -/
structure Desk where
  /-- The desk takes calls. -/
  isOpen : Bool := true
  /-- Calls that found the queue full. -/
  blocked : List Call := []
  queue : List Call := []
  handling : List Call := []
  /-- How calls have ended: with a reply, or with none because the desk was closed. -/
  outcomes : List (Nat × Option Reply) := []

namespace Desk

/-- How many calls may wait. -/
def capacity : Nat := 64

/-- What happens at a desk. -/
inductive Event where
  | call (c : Call)
  /-- A blocked call finds room in the queue. -/
  | enter
  /-- The next call is taken from the queue. -/
  | take
  /-- The handling of a call is over. -/
  | reply (id : Nat) (reply : Reply)
  | close

/-- The outcome of a call, if it has ended. -/
def outcome? (d : Desk) (id : Nat) : Option (Option Reply) := d.outcomes.lookup id

def step (d : Desk) : Event → Desk
  | .call c =>
    if d.isOpen then { d with blocked := d.blocked ++ [c] }
    else { d with outcomes := (c.id, none) :: d.outcomes }
  | .enter =>
    match d.blocked with
    | c :: rest =>
      if d.queue.length < capacity then { d with blocked := rest, queue := d.queue ++ [c] } else d
    | [] => d
  | .take =>
    match d.queue with
    | c :: rest =>
      if d.isOpen then { d with queue := rest, handling := c :: d.handling } else d
    | [] => d
  | .reply id reply =>
    if d.handling.any (·.id = id) then
      { d with
        handling := d.handling.filter (·.id ≠ id)
        outcomes := (id, some reply) :: d.outcomes }
    else d
  | .close =>
    if d.isOpen then
      { d with
        isOpen := false
        queue := []
        blocked := []
        outcomes := (d.queue ++ d.blocked).map (fun c => (c.id, none)) ++ d.outcomes }
    else d

/-- The desk after a call that is taken at once, if the desk is open. -/
def place (d : Desk) (c : Call) : Desk :=
  ((d.step (.call c)).step .enter).step .take

end Desk
end WalletEngine.Relay
