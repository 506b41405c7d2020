import WalletEngine.Rehearsal.World

/-! # The clock of a rehearsal

Time passes from one event to the next. Whoever waits, for a time or for something to be the case,
lets all happen that is due meanwhile.
-/

namespace WalletEngine.Rehearsal
variable {σ : Type}

/-- The members of the crew at work in a rehearsal, with the ledger that they call. -/
abbrev Cast (σ : Type) := Crew.Surroundings (Play σ)

namespace Cast

def happen (cast : Cast σ) (event : Crew.Event) : Play σ Unit := do
  let crew ← cast.deliver (← get).crew event
  modify fun w => { w with crew }

/-- Takes the next entry out that satisfies `accept`, and moves the clock to it. -/
def next? (accept : Entry → Bool) : Play σ (Option Crew.Event) :=
  modifyGet fun w =>
    match w.pending with
    | e :: pending =>
      if accept e then (some e.event, { w with pending, elapsed := max w.elapsed e.due })
      else (none, w)
    | [] => (none, w)

/-- Lets entries happen in order until `found` has an answer or the next entry is not accepted. At
most `fuel` entries happen. -/
def loop {α : Type} (cast : Cast σ) (accept : Entry → Bool) (found : World σ → Option α) :
    Nat → Play σ (Option α)
  | 0 => return none
  | fuel + 1 => do
    match found (← get) with
    | some a => return some a
    | none =>
      match ← next? accept with
      | some event =>
        cast.happen event
        cast.loop accept found fuel
      | none => return none

/-- More entries than a rehearsal has. -/
def plenty : Nat := 100_000_000

/-- Waits for as long as it takes. -/
def await {α : Type} (cast : Cast σ) (found : World σ → Option α) : Play σ (Option α) :=
  cast.loop (fun _ => true) found plenty

/-- Moves the clock to a time that has not passed. -/
def moveTo (time : Nat) : Play σ Unit :=
  modify fun w => { w with elapsed := max w.elapsed time }

/-- Waits for some milliseconds at most. -/
def awaitFor {α : Type} (cast : Cast σ) (limit : Nat) (found : World σ → Option α) :
    Play σ (Option α) := do
  let deadline := (← get).elapsed + limit
  match ← cast.loop (·.due ≤ deadline) found plenty with
  | some a => return some a
  | none =>
    moveTo deadline
    return none

/-- Lets time pass. -/
def sleep (cast : Cast σ) (duration : Nat) : Play σ Unit :=
  discard (cast.awaitFor duration fun _ => (none : Option Unit))

/-- Lets happen what is due now and does not yield. -/
def settle (cast : Cast σ) : Play σ Unit := do
  let now := (← get).elapsed
  discard (cast.loop (fun e => e.due ≤ now && !e.yields) (fun _ => (none : Option Unit)) plenty)

/-- Announces the shutdown; members that listen stop at once. -/
def shutDown (cast : Cast σ) : Play σ Unit := do
  let w ← get
  let shutdown := w.shutdown.trigger
  set { w with shutdown }
  (w.crew.heard shutdown).forM cast.happen

end Cast
end WalletEngine.Rehearsal
