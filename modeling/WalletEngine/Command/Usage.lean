/-! # What the program says about itself -/

namespace WalletEngine.Command

def programName : String := "driftwallet"

def programVersion : String := "0.1.0"

/-- The answer to a question for the version. -/
def versionText : String := programName ++ " " ++ programVersion

/-- The answer to a question for help. -/
def usageText : String :=
"driftwallet - Client-side wallet engine

USAGE:
    driftwallet <command> [args] [options]

COMMANDS:
    init                    Create the wallet if none exists
    status                  Wallet (public view) and cached health
    balance                 Fetch balance from the node and persist it
    history                 Fetch transaction history
    health                  Probe node and simulator
    send <to> <amount>      Sign and submit a transfer
    faucet [amount]         Request simulator funds (default: 100)
    watch                   Poll balance, history and health until Ctrl+C
    serve                   Run the message bridge with an HTTP surface

OPTIONS:
    --node <url>            Node URL (env: DRIFTWALLET_NODE_URL)
    --simulator <url>       Simulator URL (env: DRIFTWALLET_SIMULATOR_URL)
    --data-dir, -d <path>   Data directory (env: DRIFTWALLET_DATA_DIR)
    --port, -p <port>       Server port (default: 8080, env: DRIFTWALLET_PORT)
    --json                  Raw JSON output
    --pretty                Pretty-print JSON
    --version, -V           Print version

EXAMPLES:
    driftwallet init
    driftwallet faucet 100
    driftwallet send 3f2a...c1 12.5
    driftwallet serve --port 8080
"

end WalletEngine.Command
