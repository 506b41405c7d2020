import WalletEngine.Main
import WalletEngine.Rehearsal.Servers
import WalletEngine.Rehearsal.Session
import WalletEngine.Proofs.Json.Answers
import WalletEngine.Proofs.Json.Records
import WalletEngine.Proofs.Time.RoundTrip
import WalletEngine.Proofs.Store.Image
import WalletEngine.Proofs.Store.Versions
import WalletEngine.Proofs.Polling.Rounds
import WalletEngine.Proofs.Relay.Signatures
import WalletEngine.Proofs.Polling.SingleFlight
import WalletEngine.Proofs.Store.Failures
import WalletEngine.Proofs.Relay.Secrecy
import WalletEngine.Proofs.Binary64.Nearest
import WalletEngine.Proofs.Decimal.Recovery
import WalletEngine.Proofs.Json.Rereading
import WalletEngine.Proofs.Store.Balances
import WalletEngine.Proofs.Transfer.Canonical
import WalletEngine.Proofs.Surface.Capability
import WalletEngine.Proofs.Relay.Calls
import WalletEngine.Proofs.Crew.Lamp
import WalletEngine.Proofs.Bytes.Hex
import WalletEngine.Proofs.Verification
import WalletEngine.Proofs.Json.Trees
import WalletEngine.Proofs.Relay.Entrances
import WalletEngine.Proofs.Surface.Sending
import WalletEngine.Proofs.Surface.TwoWays
import WalletEngine.Proofs.Surface.Funding
import WalletEngine.Proofs.Ledger.Refusals
import WalletEngine.Proofs.Ledger.Probes
import WalletEngine.Proofs.Http.Redirects
import WalletEngine.Proofs.Liveness.Rounds
import WalletEngine.Proofs.Polling.Halves
import WalletEngine.Proofs.Polling.Lamps
import WalletEngine.Proofs.Polling.Passes
import WalletEngine.Proofs.Polling.Stopping
import WalletEngine.Proofs.Surface.PageSigning
import WalletEngine.Proofs.Relay.Messages
import WalletEngine.Proofs.Transfer.Posting
import WalletEngine.Proofs.Transfer.History
import WalletEngine.Proofs.Store.Secrets
import WalletEngine.Proofs.Liveness.Exclusion
import WalletEngine.Proofs.Command.Serving
import WalletEngine.Proofs.Shutdown.Waiting
import WalletEngine.Proofs.Settings
import WalletEngine.Proofs.Command.DotEnv
import WalletEngine.Proofs.Command.Arguments
