import WalletEngine.Crew.Surroundings
import WalletEngine.Store.Disk

/-! # The world of a rehearsal

In a rehearsal the crew of a process runs in a world that is a value: a pure disk, a clock that only
moves when it is told to, secrets and nonces that are drawn in a fixed order, and a list of what is
still to happen. What lies outside the process, such as a scripted ledger, is a parameter of the
world.
-/

namespace WalletEngine.Rehearsal

def drawnDigest (word : String) (turn : Nat) : Bytes :=
  Sha256.digest (Bytes.ofText s!"{word} {turn}")

def drawnSecret (turn : Nat) : Except Keyring.Fault Keyring.Secret :=
  Keyring.Secret.ofBytes (drawnDigest "secret" turn)

def drawnNonce (turn : Nat) : String := Hex.encode ((drawnDigest "nonce" turn).take 8)

/-- An event and when it is due, in milliseconds from the start. -/
structure Entry where
  due : Nat
  event : Crew.Event

/-- Whether an event waits for what else is due at its time: storing a round of probes takes longer
than answers that are there already. -/
def Entry.yields (e : Entry) : Bool :=
  match e.event with
  | .lookout _ .stored => true
  | _ => false

/-- Whether one entry happens before another that was there first. -/
def Entry.precedes (a b : Entry) : Bool :=
  a.due < b.due || (a.due = b.due && !a.yields && b.yields)

/-- The state of a rehearsal with `σ` outside of the process. -/
structure World (σ : Type) where
  outside : σ
  disk : Disk := {}
  /-- The start, in nanoseconds from the start of 1970. -/
  origin : Int := 0
  /-- Milliseconds from the start. -/
  elapsed : Nat := 0
  /-- How many secrets and nonces were drawn. -/
  drawn : Nat := 0
  /-- How many numbers were given to visitors and calls. -/
  numbers : Nat := 0
  crew : Crew := {}
  shutdown : Shutdown := {}
  /-- What is still to happen, in order. -/
  pending : List Entry := []

/-- A part of a rehearsal. -/
abbrev Play (σ : Type) := StateM (World σ)

variable {σ : Type}

def World.now (w : World σ) : Time.Instant :=
  (Time.Instant.ofNanos? (w.origin + w.elapsed * Time.perMilli)).getD .epoch

def World.add (w : World σ) (entry : Entry) : World σ :=
  let (before, behind) := w.pending.span fun e => !entry.precedes e
  { w with pending := before ++ entry :: behind }

/-- Takes a turn at drawing. -/
def draw {α : Type} (supply : Nat → α) : Play σ α :=
  modifyGet fun w => (supply w.drawn, { w with drawn := w.drawn + 1 })

def workingDirectory : String := "/srv/rehearsal-5d1c9a"

/-- The machine that the process of a rehearsal runs on. -/
def host : Host (Play σ) where
  toFiles := Disk.files workingDirectory fun f => modifyGet fun w =>
    let (answer, disk) := f w.disk
    (answer, { w with disk })
  now := return (← get).now
  millis := return Int64.ofInt (← get).now.millis
  freshSecret := draw drawnSecret
  freshNonce := draw drawnNonce

/-- Has an event happen after some milliseconds. -/
def after (delay : Nat) (event : Crew.Event) : Play σ Unit :=
  modify fun w => w.add ⟨w.elapsed + delay, event⟩

/-- A number that nobody else has. -/
def freshNumber : Play σ Nat :=
  modifyGet fun w => (w.numbers, { w with numbers := w.numbers + 1 })

/-- A new listener for the shutdown. -/
def listen : Play σ Nat :=
  modifyGet fun w =>
    let (shutdown, listener) := w.shutdown.subscribe
    (listener, { w with shutdown })

end WalletEngine.Rehearsal
