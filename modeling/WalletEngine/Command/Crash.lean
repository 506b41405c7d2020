import WalletEngine.Settings

/-! # Crashes

A process that cannot go on says which of its threads it was, where that thread stood and why, and as
far as a variable of its environment asks for it, by which calls it came there. The number of the
thread, the place and the calls are known to the machine alone.
-/

namespace WalletEngine.Command

/-- How much is told of the calls. -/
inductive Detail where
  | short
  | full
  deriving DecidableEq, Repr

/-- What the environment wants to know of the calls. -/
def detail? (env : Environment) : Option Detail :=
  match env.value? "RUST_BACKTRACE" with
  | none | some (.text "0") => none
  | some (.text "full") => some .full
  | some _ => some .short

/-- A call on the way to a place. -/
structure Call where
  /-- Where in memory it stands. -/
  address : Nat
  function : String
  /-- Where it stands in the source, if that is known. -/
  place : Option String
  deriving DecidableEq, Repr

/-- A text with blanks in front of it. -/
def padded (width : Nat) (text : String) : String := "".pushn ' ' (width - text.length) ++ text

/-- How wide an address is written. -/
def addressWidth : Nat := 18

/-- The lines that tell of the call with a number. -/
def Call.text (detail : Detail) (index : Nat) (c : Call) : String :=
  let address := "0x" ++ String.ofList (Nat.toDigits 16 c.address)
  let (before, indent) := match detail with
    | .short => ("", "")
    | .full => (padded addressWidth address ++ " - ", padded addressWidth "")
  padded 4 (toString index) ++ ": " ++ before ++ c.function ++ "\n" ++
    c.place.elim "" fun place => indent ++ "             at " ++ place ++ "\n"

/-- Where a process stands, as the machine tells it. -/
structure Scene where
  thread : Nat
  place : String
  /-- The calls that led there, from the last one on. In short, those that every process makes are left
  out. -/
  calls : Detail → List Call

/-- What is told of the calls. -/
def Scene.callsText (s : Scene) : Option Detail → String
  | none => "note: run with `RUST_BACKTRACE=1` environment variable to display a backtrace\n"
  | some detail =>
    let calls := String.join ((s.calls detail).mapIdx (Call.text detail))
    let note := match detail with
      | .short => "note: Some details are omitted, run with `RUST_BACKTRACE=full` for a verbose " ++
          "backtrace.\n"
      | .full => ""
    "stack backtrace:\n" ++ calls ++ note

/-- What a process says that cannot go on, with the reason and the environment that it has by then. -/
def Scene.report (s : Scene) (env : Environment) (reason : String) : String :=
  s!"\nthread 'main' ({s.thread}) panicked at {s.place}:\n{reason}\n" ++ s.callsText (detail? env)

end WalletEngine.Command
