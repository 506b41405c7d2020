import WalletEngine.Liveness.Report
import WalletEngine.Transfer.History

/-! # What a surface shows

A panel has two writers. Overviews of the services set both lamps; wallet rounds bring balance and
history, and put the lamp of the node out if the ledger failed them. A round never lights a lamp.
-/

namespace WalletEngine.Polling

/-- What a surface shows. -/
structure Panel where
  address : Option String := none
  balance : Option Binary64 := none
  history : List Transfer.HistoryEntry := []
  nodeConnected : Bool := false
  simulatorConnected : Bool := false
  lastRefresh : Option Time.Instant := none
  lastHealthCheck : Option Time.Instant := none

/-- What a wallet round has found; a part that failed is missing. -/
structure Findings where
  address : String
  balance : Option Binary64
  history : Option (List Transfer.HistoryEntry)

namespace Panel

def showOverview (p : Panel) (o : Liveness.Overview) : Panel :=
  { p with
    nodeConnected := o.node.connected
    simulatorConnected := o.simulator.connected
    lastHealthCheck := some (o.node.checkedAt.latest o.simulator.checkedAt) }

/-- Shows what a wallet round has found. -/
def showFindings (p : Panel) (f : Findings) (now : Time.Instant) : Panel :=
  { p with
    address := some f.address
    balance := f.balance <|> p.balance
    history := f.history.getD p.history
    nodeConnected := p.nodeConnected && f.balance.isSome && f.history.isSome
    lastRefresh := some now }

/-- What is shown at the start: the stored wallet and the stored overview. -/
def start (wallet : Option Wallet) (overview : Option Liveness.Overview) : Panel :=
  let p : Panel := { address := wallet.map (·.address), balance := wallet.map (·.balance) }
  overview.elim p p.showOverview

end Panel
end WalletEngine.Polling
